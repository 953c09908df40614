import EtranProcessing.Deployment.RemoteStatus

namespace EtranProcessing.Deployment.WorkerHandoff

open Library.Fallible Journal RemoteStatus UpdateMarker

abbrev ReadState := { s : UpdateState // stateValid s }

structure ActiveHistory where
  receipt : Bool
  last : Option UpdateState

def freshHistory : ActiveHistory := ⟨false, none⟩

def preparationKinds : List UInt32 := [92, 93, 60, 61, 62, 63, 20, 10, 64, 66, 67, 70, 68]

section Visit

variable (sha256 : Bytes → Digest) (expected : UpdateState)

/-- Record 65 behind the receipt. -/
def activeState (h : ActiveHistory) (b : Bytes) : Except Win32Error ActiveHistory := do
  let state ← demand (stateDecode sha256 b) .invalidData
  require (stateEncode sha256 state = some b ∧ state.window ≠ 0 ∧ state.owner = expected.owner ∧
    state.planSequence = expected.planSequence) .invalidData
  match h.last with
  | some l =>
    require (l.window = 1 ∧ state.window = 2 ∧ l.generation ≠ 2 ^ 64 - 1 ∧ state.generation = l.generation + 1)
      .invalidState
    pure { h with last := some state }
  | none =>
    require (state.window = 1) .invalidState
    pure { h with last := some state }

def namesWindow (l : UpdateState) (b : Bytes) : Prop :=
  u32 b 20 = l.window.toNat ∧ u64 b 24 = l.generation.toNat ∧ u64 b 32 = l.deadlineUtc.toNat ∧
    u64 b 40 = expected.planSequence.toNat

instance (l : UpdateState) (b : Bytes) : Decidable (namesWindow expected l b) := by
  unfold namesWindow
  infer_instance

def activeConfigAbandon (l : UpdateState) (sequence : Nat) (b : Bytes) : Prop :=
  (b.length = 112 ∧ part b 0 8 = configAbandonMagic ∧ u32 b 8 = 1 ∧ 1 ≤ u32 b 12 ∧ u32 b 12 ≤ 2 ∧ u32 b 16 = 0) ∧
    namesWindow expected l b ∧ u64 b 48 ≠ 0 ∧ u32 b 56 ≠ 0 ∧ u64 b 64 ≠ 0 ∧ u64 b 72 ≠ 0 ∧ u64 b 72 < sequence ∧
    u32 b 80 ≤ 1 ∧ zeroed b 60 4 ∧ zeroed b 84 28

instance (l : UpdateState) (sequence : Nat) (b : Bytes) : Decidable (activeConfigAbandon expected l sequence b) := by
  unfold activeConfigAbandon
  infer_instance

def activeAction (l : UpdateState) (kind : UInt32) (b : Bytes) : Prop :=
  (b.length = 112 ∧ part b 0 8 = actionMagic ∧ u32 b 8 = 1 ∧ u32 b 16 < 4) ∧ namesWindow expected l b ∧ u64 b 48 ≠ 0 ∧
    u32 b 56 ≠ 0 ∧ u64 b 64 ≠ 0 ∧ zeroed b 60 4 ∧
    if isForward kind then zeroed b 80 32 else (1 ≤ u32 b 80 ∧ u32 b 80 ≤ 4) ∧ zeroed b 84 28

instance (l : UpdateState) (kind : UInt32) (b : Bytes) : Decidable (activeAction expected l kind b) := by
  unfold activeAction
  infer_instance

def activeVisit (h : ActiveHistory) (r : Record) : Except Win32Error ActiveHistory :=
  if h.receipt = false then
    if r.kind ∈ preparationKinds then .ok h
    else if r.kind = 69 then do
      require (r.bytes.length = 32) .invalidData
      pure { h with receipt := true }
    else .error .invalidState
  else if r.kind = 65 then activeState sha256 expected h r.bytes
  else do
    let l ← demand h.last .invalidState
    if r.kind = 21 ∨ r.kind = 22 then require (r.bytes.length = 12) .invalidData
    else if r.kind = 107 then require (activeConfigAbandon expected l r.sequence r.bytes) .invalidData
    else if r.kind = 100 ∨ r.kind = 101 ∨ r.kind = 104 ∨ r.kind = 105 ∨ r.kind = 106 then
      require (activeAction expected l r.kind r.bytes) .invalidData
    else .error .invalidState
    pure h

/-- The part of the worker's check that the journal decides: it has the receipt, and its
last state record is the state that the worker goes by. -/
def activeJournal (records : List Record) : Prop :=
  match records.foldlM (activeVisit sha256 expected) freshHistory with
  | .ok h => h.receipt = true ∧ h.last = some expected
  | .error _ => False

instance (records : List Record) : Decidable (activeJournal sha256 expected records) := by
  unfold activeJournal
  split
  next => infer_instance
  next => infer_instance

end Visit

end EtranProcessing.Deployment.WorkerHandoff
