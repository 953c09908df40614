import EtranProcessing.Proxy.StoredRecord

namespace EtranProcessing.Proxy.PolicyStore

open Library.Preference PolicyRecords StoredRecord

/-- What is stored in the two registry roots and in the file. -/
structure Copies where
  machine : Option (List Char)
  user : Option (List Char)
  file : Option (List Char)
  deriving DecidableEq

structure Access where
  machine : Bool
  user : Bool
  file : Bool

def Access.all : Access := ⟨true, true, true⟩

def queried (text : List Char) : Option (List Char) := if text.length ≤ 4096 then some text else none

def loadFile (text : List Char) : Option (List Char) := if 0 < text.length ∧ text.length < 4096 then some text else none

def readCopy (open' : Bool) (load : List Char → Option (List Char)) (copy : Option (List Char)) (sn : Sn) :
    Option PolicyRecord :=
  if open' then copy.bind load >>= (policyRecordParse · sn) else none

def candidates (a : Access) (c : Copies) (sn : Sn) : List (Option PolicyRecord) :=
  [readCopy a.machine queried c.machine sn, readCopy a.user queried c.user sn, readCopy a.file loadFile c.file sn]

def fresh (sn : Sn) (now : UInt64) : PolicyRecord := ⟨sn, 1, 0, now + graceSeconds, false, true, Facts.none⟩

def restore (a : Access) (c : Copies) (sn : Sn) (now : UInt64) : PolicyRecord :=
  (pick policyRecordPrefer none (candidates a c sn).reduceOption).getD (fresh sn now)

/-- What comes of writing to a registry root. -/
inductive Written
  | failed
  | unflushed
  | flushed
  deriving DecidableEq

/-- What the system answers to the writes of one `persist`. -/
structure Faults where
  machine : Written
  user : Written
  file : Bool

def Faults.userWritten (f : Faults) : Bool := f.machine != .flushed && f.user != .failed

def Faults.registryOk (f : Faults) : Bool := f.machine == .flushed || f.user == .flushed

def persist (r : PolicyRecord) (f : Faults) (c : Copies) : Copies × Bool :=
  (⟨if f.machine ≠ .failed then some (recordText r) else c.machine,
    if f.userWritten then some (recordText r) else c.user,
    if f.file then some (recordText r) else c.file⟩, f.registryOk && f.file)

def Faults.wrote (f : Faults) : Bool := f.machine != .failed || f.userWritten || f.file

def accepted (r : PolicyRecord) (allowed : Bool) (facts : Facts) (now : UInt64) : PolicyRecord :=
  { r with
    known := true, allowed := allowed, lastSuccessAt := now, offlineAllowedUntil := now + graceSeconds
    generation := r.generation + 1, facts := facts }

/-! ### The rank of a record -/

def rank (r : PolicyRecord) : ℕ ×ₗ ℕ ×ₗ ℕ :=
  toLex (r.generation.toNat, toLex (if undenied r then 1 else 0, if undenied r then r.offlineAllowedUntil.toNat else 0))

theorem ranks : Ranks policyRecordPrefer rank := by
  intro a b
  have hgen : a.generation = b.generation ↔ a.generation.toNat = b.generation.toNat := UInt64.toNat_inj.symm
  simp only [rank, Prod.Lex.toLex_lt_toLex, policyRecordPrefer]
  by_cases hg : a.generation = b.generation
  · have hg' := hgen.mp hg
    cases ha : undenied a <;> cases hb : undenied b <;> simp [hg, UInt64.lt_iff_toNat_lt]
  · have hg' : a.generation.toNat ≠ b.generation.toNat := fun h => hg (hgen.mpr h)
    simp only [ne_eq, hg, not_false_eq_true, if_true, gt_iff_lt, decide_eq_true_eq, UInt64.lt_iff_toNat_lt, Ne.symm hg',
      false_and, or_false]

end EtranProcessing.Proxy.PolicyStore
