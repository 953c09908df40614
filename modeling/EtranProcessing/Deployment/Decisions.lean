import EtranProcessing.Deployment.Journal

namespace EtranProcessing.Deployment.Decisions

open Journal

/-- What a recovery plan says about its decision: the operation, the digest that ends the
plan file and the time in which the update may still be committed. -/
structure Plan where
  operation : Guid
  digest : Digest
  armedUtc : Nat
  deadlineUtc : Nat

/-- The 96 byte result file: its magic, how phases are numbered and which errors go with
them. -/
structure ResultFormat (P : Type) where
  magic : Bytes
  magicSize : magic.length = 8
  code : P → Nat
  ofCode : Nat → Option P
  valid : P → UInt32 → Prop
  validDecidable : ∀ p e, Decidable (valid p e)
  codeSmall : ∀ p, code p < 2 ^ 32
  ofCode_code : ∀ p, ofCode (code p) = some p

attribute [instance] ResultFormat.validDecidable

section Codec

variable {P : Type} (f : ResultFormat P) (sha256 : Bytes → Digest) (plan : Plan)

def resultBody (phase : P) (error : UInt32) : Bytes :=
  f.magic ++ plan.operation.bytes ++ plan.digest.bytes ++ storeU32 (f.code phase) ++ storeU32 error.toNat

def resultEncode (phase : P) (error : UInt32) : Bytes :=
  resultBody f plan phase error ++ (storeHash sha256 (resultBody f plan phase error) []).bytes

def resultDecode (b : Bytes) : Option (P × UInt32) :=
  if b.length = 96 ∧ b.take 8 = f.magic ∧ (b.drop 8).take 16 = plan.operation.bytes ∧
      (b.drop 24).take 32 = plan.digest.bytes ∧ (storeHash sha256 (b.take 64) []).bytes = (b.drop 64).take 32 then
    match f.ofCode (get32 (b.drop 56)) with
    | none => none
    | some phase =>
      let error := .ofNat (get32 (b.drop 60))
      if f.valid phase error then some (phase, error) else none
  else none

end Codec

inductive Phase where
  | wait
  | started
  | committed
  | restored
  | unconfirmed
  | failed
  deriving DecidableEq

def Phase.code : Phase → Nat
  | .wait => 0
  | .started => 1
  | .committed => 2
  | .restored => 3
  | .unconfirmed => 4
  | .failed => 5

def Phase.ofCode : Nat → Option Phase
  | 0 => some .wait
  | 1 => some .started
  | 2 => some .committed
  | 3 => some .restored
  | 4 => some .unconfirmed
  | 5 => some .failed
  | _ => none

def phaseValid (phase : Phase) (error : UInt32) : Prop :=
  phase ≠ .wait ∧ if phase = .unconfirmed ∨ phase = .failed then error ≠ 0 else error = 0

instance (phase : Phase) (error : UInt32) : Decidable (phaseValid phase error) := by
  unfold phaseValid
  infer_instance

def communicationResult : ResultFormat Phase where
  magic := [0x4c, 0x34, 0x43, 0x4d, 0x44, 0x30, 0x31, 0]
  magicSize := rfl
  code := Phase.code
  ofCode := Phase.ofCode
  valid := phaseValid
  validDecidable := inferInstance
  codeSmall p := by cases p <;> decide
  ofCode_code p := by cases p <;> rfl

namespace Communication

/-- Where a guard stands inside a call: before it takes the runner lock, before it moves
the result file. -/
inductive Call where
  | idle
  | beginLock (phase : Phase) (now : Nat) (boot : Bool)
  | beginPublish (now : Nat) (boot : Bool)
  | finishPublish (desired : Phase) (error : UInt32) (now : Nat)
  deriving DecidableEq

structure Guard where
  locked : Bool
  running : Bool
  call : Call
  deriving DecidableEq

structure Store where
  result : Option Bytes
  decisionLock : Option Nat
  runnerLock : Option Nat
  guards : Nat → Option Guard

/-- The move of the new file over the old one: done, not done, or done and reported as a
failure. -/
inductive Move where
  | done
  | refused
  | unreported
  deriving DecidableEq

/-- The marker flag says whether the update state was read and is the plan's window. -/
inductive Event where
  | openGuard (i : Nat)
  | relock (i : Nat)
  | release (i : Nat)
  | close (i : Nat)
  | begin (i : Nat) (now : Nat) (boot marker : Bool)
  | lockRunner (i : Nat)
  | publish (i : Nat) (m : Move)
  | finish (i : Nat) (desired : Phase) (error : UInt32) (now : Nat) (marker : Bool)

variable (sha256 : Bytes → Digest) (plan : Plan)

def Store.read (s : Store) : Option (Phase × UInt32) :=
  match s.result with
  | none => some (.wait, 0)
  | some b => resultDecode communicationResult sha256 plan b

def Store.put (s : Store) (i : Nat) (g : Guard) : Store :=
  { s with guards := Function.update s.guards i (some g) }

/-- l4_communication_decision_begin up to its lock of the runner file. -/
def decisionBegin (s : Store) (i : Nat) (g : Guard) (now : Nat) (boot marker : Bool) : Store :=
  if g.locked = false then s
  else
    match s.read sha256 plan with
    | none => s
    | some (phase, _) =>
      if marker = false then s
      else if g.running = true ∨ (phase ≠ .wait ∧ ¬ (phase = .started ∧ boot = true)) then s
      else if boot = false ∧ (now < plan.armedUtc ∨ now < plan.deadlineUtc) then s
      else s.put i { g with call := .beginLock phase now boot }

/-- l4_communication_decision_finish up to its publication. -/
def decisionFinish (s : Store) (i : Nat) (g : Guard) (desired : Phase) (error : UInt32) (now : Nat) (marker : Bool) :
    Store :=
  if ¬ phaseValid desired error ∨ desired = .started then s
  else if g.locked = false then s
  else
    match s.read sha256 plan with
    | none => s
    | some (phase, previous) =>
      if phase = desired ∧ error = previous then s
      else if marker = false then s
      else if desired = .committed then
        if phase ≠ .wait ∨ now < plan.armedUtc ∨ plan.deadlineUtc ≤ now then s
        else s.put i { g with call := .finishPublish desired error now }
      else if phase ≠ .started ∨ g.running = false then s
      else s.put i { g with call := .finishPublish desired error now }

def published (s : Store) (phase : Phase) (error : UInt32) (m : Move) : Store :=
  if m = .refused then s
  else { s with result := some (resultEncode communicationResult sha256 plan phase error) }

/-- The runner lock is taken at once or not at all; a started recovery is not published
again. -/
def decisionLockRunner (s : Store) (i : Nat) (g : Guard) : Store :=
  match g.call with
  | .beginLock phase now boot =>
    if s.runnerLock = none then
      { s with runnerLock := some i }.put i
        { g with running := true, call := if phase = Phase.started then .idle else .beginPublish now boot }
    else s.put i { g with call := .idle }
  | _ => s

def decisionPublish (s : Store) (i : Nat) (g : Guard) (m : Move) : Store :=
  match g.call with
  | .beginPublish _ _ =>
    let s := published sha256 plan s .started 0 m
    if m = .done then s.put i { g with call := .idle }
    else { s with runnerLock := none }.put i { g with running := false, call := .idle }
  | .finishPublish desired error _ => (published sha256 plan s desired error m).put i { g with call := .idle }
  | _ => s

def Store.unlock (s : Store) (i : Nat) : Store :=
  { s with decisionLock := if s.decisionLock = some i then none else s.decisionLock }

def Store.drop (s : Store) (i : Nat) : Store :=
  { s with
    decisionLock := if s.decisionLock = some i then none else s.decisionLock
    runnerLock := if s.runnerLock = some i then none else s.runnerLock
    guards := Function.update s.guards i none }

def step (s : Store) : Event → Store
  | .openGuard i =>
    if s.guards i = none ∧ s.decisionLock = none then
      { s with decisionLock := some i }.put i ⟨true, false, .idle⟩
    else s
  | .relock i =>
    match s.guards i with
    | none => s
    | some g =>
      if g.locked = false ∧ g.call = .idle ∧ s.decisionLock = none then
        { s with decisionLock := some i }.put i { g with locked := true }
      else s
  | .release i =>
    match s.guards i with
    | none => s
    | some g => if g.locked = true ∧ g.call = .idle then (s.unlock i).put i { g with locked := false } else s
  | .close i => s.drop i
  | .begin i now boot marker =>
    match s.guards i with
    | none => s
    | some g => if g.call = .idle then decisionBegin sha256 plan s i g now boot marker else s
  | .lockRunner i =>
    match s.guards i with
    | none => s
    | some g => decisionLockRunner s i g
  | .publish i m =>
    match s.guards i with
    | none => s
    | some g => decisionPublish sha256 plan s i g m
  | .finish i desired error now marker =>
    match s.guards i with
    | none => s
    | some g => if g.call = .idle then decisionFinish sha256 plan s i g desired error now marker else s

end Communication

inductive Status where
  | committed
  | restored
  | failed
  | started
  deriving DecidableEq

def Status.code : Status → Nat
  | .committed => 1
  | .restored => 2
  | .failed => 3
  | .started => 4

def Status.ofCode : Nat → Option Status
  | 1 => some .committed
  | 2 => some .restored
  | 3 => some .failed
  | 4 => some .started
  | _ => none

def statusValid (status : Status) (error : UInt32) : Prop := if status = .failed then error ≠ 0 else error = 0

instance (status : Status) (error : UInt32) : Decidable (statusValid status error) := by
  unfold statusValid
  infer_instance

def recoveryResult : ResultFormat Status where
  magic := [0x4c, 0x34, 0x52, 0x42, 0x53, 0x30, 0x31, 0]
  magicSize := rfl
  code := Status.code
  ofCode := Status.ofCode
  valid := statusValid
  validDecidable := inferInstance
  codeSmall p := by cases p <;> decide
  ofCode_code p := by cases p <;> rfl

namespace Recovery

open Communication (Move)

inductive Action where
  | wait
  | done
  | required
  | blocked
  deriving DecidableEq

/-- Before the move of the result file. -/
inductive Call where
  | idle
  | beginPublish (now : Nat) (boot : Bool)
  | finishPublish (desired : Status) (error : UInt32) (now : Nat)
  deriving DecidableEq

structure Guard where
  locked : Bool
  call : Call
  deriving DecidableEq

structure Store where
  result : Option Bytes
  decisionLock : Option Nat
  guards : Nat → Option Guard

inductive Event where
  | openGuard (i : Nat)
  | relock (i : Nat)
  | release (i : Nat)
  | close (i : Nat)
  | begin (i : Nat) (now : Nat) (boot : Bool)
  | publish (i : Nat) (m : Move)
  | finish (i : Nat) (desired : Status) (error : UInt32) (now : Nat)

variable (sha256 : Bytes → Digest) (plan : Plan)

def Store.read (s : Store) : Option (Option Status × UInt32) :=
  match s.result with
  | none => some (none, 0)
  | some b => (resultDecode recoveryResult sha256 plan b).map fun r => (some r.1, r.2)

def recoveryDecide (status : Option Status) (now : Nat) (boot : Bool) : Option Action :=
  match status with
  | some .committed => some .done
  | some .restored => some .done
  | some .failed => some .blocked
  | some .started => some .required
  | none =>
    if boot = true then some .required
    else if now < plan.armedUtc then none
    else if plan.deadlineUtc ≤ now then some .required
    else some .wait

def Store.put (s : Store) (i : Nat) (g : Guard) : Store :=
  { s with guards := Function.update s.guards i (some g) }

def recoveryBegin (s : Store) (i : Nat) (g : Guard) (now : Nat) (boot : Bool) : Store :=
  if g.locked = false then s
  else
    match s.read sha256 plan with
    | none => s
    | some (status, _) =>
      if recoveryDecide plan status now boot ≠ some .required ∨ status = some .started then s
      else s.put i { g with call := .beginPublish now boot }

def recoveryFinish (s : Store) (i : Nat) (g : Guard) (desired : Status) (error : UInt32) (now : Nat) : Store :=
  if desired = .started then s
  else if g.locked = false then s
  else
    match s.read sha256 plan with
    | none => s
    | some (status, previous) =>
      if status = some desired ∧ error = previous then s
      else if desired = .committed then
        if status ≠ none ∨ now < plan.armedUtc ∨ plan.deadlineUtc ≤ now ∨ error ≠ 0 then s
        else s.put i { g with call := .finishPublish desired error now }
      else if status ≠ some .started then s
      else s.put i { g with call := .finishPublish desired error now }

def published (s : Store) (status : Status) (error : UInt32) (m : Move) : Store :=
  if m = .refused ∨ ¬ statusValid status error then s
  else { s with result := some (resultEncode recoveryResult sha256 plan status error) }

def recoveryPublish (s : Store) (i : Nat) (g : Guard) (m : Move) : Store :=
  match g.call with
  | .beginPublish _ _ => (published sha256 plan s .started 0 m).put i { g with call := .idle }
  | .finishPublish desired error _ => (published sha256 plan s desired error m).put i { g with call := .idle }
  | .idle => s

def Store.unlock (s : Store) (i : Nat) : Store :=
  { s with decisionLock := if s.decisionLock = some i then none else s.decisionLock }

def step (s : Store) : Event → Store
  | .openGuard i =>
    if s.guards i = none ∧ s.decisionLock = none then { s with decisionLock := some i }.put i ⟨true, .idle⟩ else s
  | .relock i =>
    match s.guards i with
    | none => s
    | some g =>
      if g.locked = false ∧ g.call = .idle ∧ s.decisionLock = none then
        { s with decisionLock := some i }.put i { g with locked := true }
      else s
  | .release i =>
    match s.guards i with
    | none => s
    | some g => if g.locked = true ∧ g.call = .idle then (s.unlock i).put i { g with locked := false } else s
  | .close i => { s.unlock i with guards := Function.update s.guards i none }
  | .begin i now boot =>
    match s.guards i with
    | none => s
    | some g => if g.call = .idle then recoveryBegin sha256 plan s i g now boot else s
  | .publish i m =>
    match s.guards i with
    | none => s
    | some g => recoveryPublish sha256 plan s i g m
  | .finish i desired error now =>
    match s.guards i with
    | none => s
    | some g => if g.call = .idle then recoveryFinish sha256 plan s i g desired error now else s

end Recovery

end EtranProcessing.Deployment.Decisions
