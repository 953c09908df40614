import EtranProcessing.Deployment.Records

namespace EtranProcessing.Deployment.UpdateMarker

open Journal Records

structure UpdateState where
  owner : Bytes
  ownerSize : owner.length = 40
  window : UInt32
  generation : UInt64
  planSequence : UInt64
  deadlineUtc : UInt64
  deriving DecidableEq

def dash : UInt8 := 0x2d

def dashes : List Nat := [8, 13, 18, 23]

def hexLower (c : UInt8) : Prop := (0x30 ≤ c ∧ c ≤ 0x39) ∨ (0x61 ≤ c ∧ c ≤ 0x66)

instance (c : UInt8) : Decidable (hexLower c) := by
  unfold hexLower
  infer_instance

def ownerValid (owner : Bytes) : Prop :=
  owner.drop 36 = [0, 0, 0, 0] ∧
    (∀ i ∈ List.range 36, if i ∈ dashes then owner.getD i 0 = dash else hexLower (owner.getD i 0)) ∧
    ∃ i ∈ List.range 36, i ∉ dashes ∧ owner.getD i 0 ≠ 0x30

instance (owner : Bytes) : Decidable (ownerValid owner) := by
  unfold ownerValid
  infer_instance

def stateValid (s : UpdateState) : Prop :=
  if s.generation = 0 then s.owner = List.replicate 40 0 ∧ s.window = 0 ∧ s.planSequence = 0 ∧ s.deadlineUtc = 0
  else ownerValid s.owner ∧ s.planSequence ≠ 0 ∧ s.window ≤ 2 ∧
    if s.window ≠ 0 then s.deadlineUtc ≠ 0 else s.deadlineUtc = 0

instance (s : UpdateState) : Decidable (stateValid s) := by
  unfold stateValid
  infer_instance

def stateMagic : Bytes := [0x4c, 0x34, 0x55, 0x50, 0x44, 0x30, 0x31, 0]

def stateBody (s : UpdateState) : Bytes :=
  stateMagic ++ s.owner ++ storeU32 s.window.toNat ++ storeU32 0 ++ storeU64 s.generation.toNat ++
    storeU64 s.planSequence.toNat ++ storeU64 s.deadlineUtc.toNat

def hexDigit (n : Nat) : UInt8 := if n < 10 then .ofNat (0x30 + n) else .ofNat (0x57 + n)

def hexByte (b : UInt8) : Bytes := [hexDigit (b.toNat / 16), hexDigit (b.toNat % 16)]

def hexBytes (id : Guid) (places : List Nat) : Bytes := places.flatMap fun i => hexByte (id.bytes.getD i 0)

def ownerText (id : Guid) : Bytes :=
  hexBytes id [3, 2, 1, 0] ++ [dash] ++ hexBytes id [5, 4] ++ [dash] ++ hexBytes id [7, 6] ++ [dash] ++
    hexBytes id [8, 9] ++ [dash] ++ hexBytes id [10, 11, 12, 13, 14, 15] ++ [0, 0, 0, 0]

theorem length_ownerText (id : Guid) : (ownerText id).length = 40 := by
  simp [ownerText, hexBytes, hexByte]

def recordPlan : UInt32 := 64
def recordIntent : UInt32 := 65

structure Store where
  file : Option Bytes
  operations : Guid → RecordLog

/-- Where a call stops: before the intent, in its append, or in the replacement of the file,
which is done or not. A crash stops a call in the same places. -/
inductive Fault where
  | reading
  | append (f : AppendFault)
  | replace (done : Bool)
  deriving DecidableEq

inductive Event where
  | publish (id : Guid) (plan expected : UInt64) (window : UInt32) (deadline now : UInt64) (fault : Option Fault)
  | append (id : Guid) (kind : UInt32) (bytes : Bytes) (fault : Option AppendFault)
  | reopen (id : Guid)

section Hash

variable (sha256 : Bytes → Digest)

def stateBytes (s : UpdateState) : Bytes := stateBody s ++ (storeHash sha256 (stateBody s) []).bytes

def stateEncode (s : UpdateState) : Option Bytes := if stateValid s then some (stateBytes sha256 s) else none

def stateDecode (b : Bytes) : Option UpdateState :=
  if h : b.length = 112 then
    if b.take 8 = stateMagic ∧ get32 (b.drop 52) = 0 ∧ (storeHash sha256 (b.take 80) []).bytes = b.drop 80 then
      let value : UpdateState :=
        ⟨(b.drop 8).take 40, by simp [h], .ofNat (get32 (b.drop 48)), .ofNat (get64 (b.drop 56)),
          .ofNat (get64 (b.drop 64)), .ofNat (get64 (b.drop 72))⟩
      if stateValid value then some value else none
    else none
  else none

def Store.read (s : Store) : Option UpdateState := s.file.bind (stateDecode sha256)

def publishValue (id : Guid) (plan expected : UInt64) (window : UInt32) (deadline : UInt64) : UpdateState :=
  ⟨ownerText id, length_ownerText id, window, expected + 1, plan, deadline⟩

/-- The checks of l4_update_state_publish on the state that the file holds, once it is not
the wanted one already. -/
def publishAllowed (before value : UpdateState) (expected now : UInt64) : Prop :=
  before.generation = expected ∧
    ¬ (value.window ≠ 0 ∧ (value.deadlineUtc ≤ now ∨ (before.window ≠ 0 ∧ before.deadlineUtc ≤ now))) ∧
    if before.window ≠ 0 then
      (before.owner = value.owner ∧ before.planSequence = value.planSequence) ∧
        (value.window = 0 ∨ (before.window = 1 ∧ value.window = 2))
    else value.window ≠ 0

instance (before value : UpdateState) (expected now : UInt64) :
    Decidable (publishAllowed before value expected now) := by
  unfold publishAllowed
  infer_instance

def Store.setOperation (s : Store) (id : Guid) (j : RecordLog) : Store :=
  { s with operations := Function.update s.operations id j }

def stateReplace (s : Store) (bytes : Bytes) (fault : Option Fault) : Bool × Store :=
  match fault with
  | some (.replace false) => (false, s)
  | some (.replace true) => (false, { s with file := some bytes })
  | _ => (true, { s with file := some bytes })

def Fault.ofAppend : Option Fault → Option AppendFault
  | some (.append f) => some f
  | _ => none

def intentReplace (s : Store) (id : Guid) (bytes : Bytes) (fault : Option Fault) : Bool × Store :=
  let r := appendRecord (s.operations id) recordIntent bytes (Fault.ofAppend fault)
  if r.1 = none then (false, s.setOperation id r.2) else stateReplace (s.setOperation id r.2) bytes fault

/-- The intent, unless it is the last record of the journal already, and then the file. -/
def publishIntent (s : Store) (id : Guid) (before : UpdateState) (bytes : Bytes) (fault : Option Fault) :
    Bool × Store :=
  let j := s.operations id
  match findRecord j recordIntent j.records.length with
  | some last =>
    if last = bytes then stateReplace s bytes fault
    else if stateEncode sha256 before = some last then intentReplace s id bytes fault
    else (false, s)
  | none => intentReplace s id bytes fault

def invalidCall (j : RecordLog) (plan expected : UInt64) (window : UInt32) (deadline : UInt64) : Prop :=
  j.poisoned = true ∨ plan = 0 ∨ 2 < window ∨ (if window ≠ 0 then deadline = 0 else deadline ≠ 0) ∨
    expected = 0xffffffffffffffff

instance (j : RecordLog) (plan expected : UInt64) (window : UInt32) (deadline : UInt64) :
    Decidable (invalidCall j plan expected window deadline) := by
  unfold invalidCall
  infer_instance

def updateStatePublish (s : Store) (id : Guid) (plan expected : UInt64) (window : UInt32) (deadline now : UInt64)
    (fault : Option Fault) : Bool × Store :=
  if invalidCall (s.operations id) plan expected window deadline then (false, s)
  else if fault = some .reading then (false, s)
  else
    match findRecord (s.operations id) recordPlan plan.toNat with
    | none => (false, s)
    | some saved =>
      if saved = [] then (false, s)
      else
        let value := publishValue id plan expected window deadline
        match s.read sha256 with
        | none => (false, s)
        | some before =>
          if before = value then (true, s)
          else if ¬ publishAllowed before value expected now then (false, s)
          else
            match stateEncode sha256 value with
            | none => (false, s)
            | some bytes => publishIntent sha256 s id before bytes fault

def step (s : Store) : Event → Store
  | .publish id plan expected window deadline now fault =>
    (updateStatePublish sha256 s id plan expected window deadline now fault).2
  | .append id kind bytes fault =>
    if kind = recordIntent then s else s.setOperation id (appendRecord (s.operations id) kind bytes fault).2
  | .reopen id => s.setOperation id { s.operations id with poisoned := false }

def clearState : UpdateState := ⟨List.replicate 40 0, List.length_replicate, 0, 0, 0, 0⟩

def provisioned : Store := ⟨some (stateBytes sha256 clearState), fun _ => ⟨[], false⟩⟩

end Hash

end EtranProcessing.Deployment.UpdateMarker
