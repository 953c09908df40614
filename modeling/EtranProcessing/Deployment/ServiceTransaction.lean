import EtranProcessing.Deployment.ActionRecords
import EtranProcessing.Deployment.WorkerHandoff
import EtranProcessing.Library.Calls

namespace EtranProcessing.Deployment.ServiceTransaction

open Library.Calls Journal Records JournalRecovery RemoteStatus UpdateMarker WorkerHandoff ActionRecords

/-- The four states in which a service may be reported. -/
inductive Phase where
  | stoppedOld
  | stoppedTarget
  | runningOld
  | runningTarget
  deriving DecidableEq

def Phase.code : Phase → UInt32
  | stoppedOld => 1
  | stoppedTarget => 2
  | runningOld => 3
  | runningTarget => 4

def Phase.stopped : Phase → Bool
  | stoppedOld | stoppedTarget => true
  | runningOld | runningTarget => false

structure Observation where
  phase : Phase
  state : UpdateState
  reference : UInt64
  pid : UInt32
  birth : UInt64

/-- The native calls that change a service. -/
inductive Mutation where
  | stop
  | switch (target : Bool)
  | start (target : Bool)
  deriving DecidableEq

def Mutation.starts : Mutation → Bool
  | .start _ => true
  | _ => false

structure Native where
  service : Nat
  mutation : Mutation
  records : Nat

/-- The journal, the transaction over it, the native calls so far and the process that each
service had when it was last reported as stopped. -/
structure World where
  log : RecordLog
  memory : Memory
  blocked : Bool
  recoveryRequired : Bool
  natives : List Native
  retained : Nat → Option (UInt32 × UInt64)

structure Look where
  current : Option ReadState
  seen : Option Observation

section Transaction

variable (sha256 : Bytes → Digest) (op : Operation)

/-- The replay of the records one by one: what has been read stays read when one is
refused. -/
def replayInto (m : Memory) : List Record → Bool × Memory
  | [] => (true, m)
  | r :: rest =>
    match history op m r with
    | .ok m' => replayInto m' rest
    | .error _ => (false, m)

/-- The journal has the plan's record and can be written; the rest of the plan's authority is
granted or not. -/
def authority (granted : Bool) : Call World Unit := do
  let w ← current
  check (w.log.poisoned = false ∧ granted = true ∧ (findRecord w.log 64 op.sequence.toNat).isSome = true)

def reload (granted : Bool) : Call World Unit := do
  change fun w => { w with memory := noMemory, recoveryRequired := true }
  authority op granted
  let w ← current
  let replayed := replayInto op noMemory (numbered w.log.records)
  change fun w => { w with memory := replayed.2 }
  check (replayed.1 = true)
  change fun w => { w with
    recoveryRequired := w.blocked || replayed.2.pending.isSome || replayed.2.config.isSome }

def report (retained : Option (UInt32 × UInt64)) (o : Observation) : Observation :=
  if o.phase.stopped then
    match retained with
    | some (pid, birth) => { o with pid := pid, birth := birth }
    | none => o
  else o

def serviceObserve (service : Nat) (seen : Option Observation) : Call World Observation := do
  let o ← found seen
  let w ← current
  let o := report (w.retained service) o
  if o.phase.stopped then
    change fun w => { w with retained := Function.update w.retained service (some (o.pid, o.birth)) }
    pure o
  else pure o

def sameState (a b : UpdateState) : Prop :=
  cString a.owner = cString b.owner ∧ a.window = b.window ∧ a.generation = b.generation ∧
    a.planSequence = b.planSequence ∧ a.deadlineUtc = b.deadlineUtc

instance (a b : UpdateState) : Decidable (sameState a b) := by
  unfold sameState
  infer_instance

def stateIs (active : UpdateState) (current : Option ReadState) : Prop :=
  (current.any fun s : ReadState => decide (sameState active s.val)) = true

instance (active : UpdateState) (current : Option ReadState) : Decidable (stateIs active current) := by
  unfold stateIs
  infer_instance

def observed (service : Nat) (active : UpdateState) (o : Observation) : Prop :=
  o.pid ≠ 0 ∧ o.birth ≠ 0 ∧ sameState active o.state ∧ o.reference = op.references service

instance (service : Nat) (active : UpdateState) (o : Observation) : Decidable (observed op service active o) := by
  unfold observed
  infer_instance

def observe (service : Nat) (active : UpdateState) (look : Look) : Call World Observation := do
  check (active.planSequence = op.sequence ∧ active.window = (if service < 2 then 1 else 2) ∧ stateIs active look.current)
  let o ← serviceObserve service look.seen
  check (observed op service active o)
  pure o

def phaseAfter (action : UInt32) : Phase :=
  if action = 1 then .stoppedOld else if action = 2 then .stoppedTarget else .runningTarget

def postcondition (a : Action) (o : Observation) : Prop :=
  o.phase = phaseAfter a.action ∧ (a.action = 3 ∨ (a.pid = o.pid ∧ a.birth = o.birth))

instance (a : Action) (o : Observation) : Decidable (postcondition a o) := by
  unfold postcondition
  infer_instance

def append (kind : UInt32) (bytes : Bytes) (fault : Option AppendFault) : Call World Nat := fun w =>
  let result := appendRecord w.log kind bytes fault
  (result.1, { w with log := result.2 })

def native (service : Nat) (mutation : Mutation) (done : Bool) : Call World Unit := do
  change fun w => { w with
    natives := w.natives ++ [⟨service, mutation, w.log.records.length⟩]
    retained := if mutation.starts = true then Function.update w.retained service none else w.retained }
  check (done = true)

def observeStart (service : Nat) (done : Bool) : Call World Unit := do
  change fun w => { w with retained := Function.update w.retained service none }
  check (done = true)

/-- What one completion meets: the state of the world before its record, the append, and the
world behind it. -/
structure Completing where
  granted : Bool
  look : Look
  late : Bool
  fault : Option AppendFault
  grantedAfter : Bool
  lookAfter : Look
  lateAfter : Bool

def setBlocked : Call World Unit := change fun w => { w with blocked := true, recoveryRequired := true }

def completeRecheck (a : Action) (active : UpdateState) (x : Completing) : Call World Unit := do
  authority op x.grantedAfter
  let after ← observe op a.service.toNat active x.lookAfter
  check (postcondition a after ∧ after.pid = a.pid ∧ after.birth = a.birth)
  check (x.lateAfter = false)

def complete (active : UpdateState) (x : Completing) : Call World Unit := do
  authority op x.granted
  let w ← current
  let p ← found w.memory.pending
  let o ← observe op p.action.service.toNat active x.look
  check (postcondition p.action o)
  check (x.late = false)
  check (¬ (p.action.action = 3 ∧ o.pid = p.action.pid ∧ o.birth = p.action.birth))
  let a := { p.action with intent := .ofNat p.sequence, pid := o.pid, birth := o.birth }
  let _ ← append 101 (actionEncode a) x.fault
  change fun w => { w with
    recoveryRequired := false
    memory := { w.memory with
      done := Function.update w.memory.done a.service.toNat a.action.toNat
      completed := Function.update w.memory.completed a.service.toNat a
      pending := none } }
  match ← attempt (completeRecheck op a active x) with
  | some _ => pure ()
  | none =>
    setBlocked
    check False

/-- The action that a call is about, as an observation has it. -/
def actionValue (service action : UInt32) (active : UpdateState) (o : Observation) : Action where
  action := action
  service := service
  window := active.window
  generation := active.generation
  deadline := active.deadlineUtc
  plan := active.planSequence
  reference := o.reference
  pid := o.pid
  birth := o.birth
  intent := 0
  phase := 0

def phaseBefore (action : UInt32) : Phase :=
  if action = 1 then .runningOld else if action = 2 then .stoppedOld else .stoppedTarget

def forwardMutation (action : UInt32) : Mutation :=
  if action = 1 then .stop else if action = 2 then .switch true else .start true

structure Executing where
  granted : Bool
  look : Look
  late : Bool
  fault : Option AppendFault
  lateIntent : Bool
  nativeDone : Bool
  completing : Completing

/-- An intent is committed before the native call that it announces. -/
def announce (kind : UInt32) (a : Action) (fault : Option AppendFault) : Call World Unit := do
  change fun w => { w with recoveryRequired := true }
  match ← attempt (append kind (actionEncode a) fault) with
  | none =>
    change fun w => { w with blocked := true }
    check False
  | some sequence => change fun w => { w with memory := { w.memory with pending := some ⟨kind, sequence, a⟩ } }

def execute (service action : UInt32) (active : UpdateState) (x : Executing) : Call World Unit := do
  check (service < 4 ∧ 1 ≤ action ∧ action ≤ 3)
  reload op x.granted
  let w ← current
  check (w.memory.restoring = false)
  check (w.recoveryRequired = false)
  let o ← observe op service.toNat active x.look
  let a := actionValue service action active o
  let m := w.memory
  if m.done service.toNat = action.toNat then
    check (o.pid = (m.completed service.toNat).pid ∧ o.birth = (m.completed service.toNat).birth)
    check (postcondition a o)
  else
    check (action.toNat = m.done service.toNat + 1)
    check (o.phase = phaseBefore action ∧ x.late = false)
    check (¬ (a.window = 2 ∧ ¬ (m.done 0 = 3 ∧ m.done 1 = 3)))
    check (windowAgrees m a ∧
      (1 < a.action → a.pid = (m.completed service.toNat).pid ∧ a.birth = (m.completed service.toNat).birth))
    announce 100 a x.fault
    check (x.lateIntent = false)
    native service.toNat (forwardMutation action) x.nativeDone
    complete op active x.completing

structure Reconciling where
  granted : Bool
  current : Option ReadState
  started : Bool
  completing : Completing

def reconcile (active : UpdateState) (x : Reconciling) : Call World Unit := do
  reload op x.granted
  let w ← current
  check (w.memory.restoring = false)
  check (stateIs active x.current ∧ active.planSequence = op.sequence)
  match w.memory.pending with
  | none => check (w.recoveryRequired = false)
  | some p =>
    check (p.action.window = active.window ∧ p.action.generation = active.generation ∧
      p.action.deadline = active.deadlineUtc ∧ p.action.plan = active.planSequence)
    if p.action.action = 3 then
      observeStart p.action.service.toNat x.started
      complete op active x.completing
    else complete op active x.completing

structure Guarding where
  granted : Bool
  admitted : Bool
  guarded : Bool

def restoreAudit (active : UpdateState) (x : Guarding) : Call World Unit := do
  authority op x.granted
  check (active.window = 1 ∨ active.window = 2)
  let w ← current
  check (x.admitted = true ∧ activeJournal sha256 active (numbered w.log.records) ∧ active.planSequence = op.sequence)

def restoreGuard (active : UpdateState) (x : Guarding) : Call World Unit := do
  restoreAudit sha256 op active x
  check (x.guarded = true)

def restoreObserve (service : Nat) (active : UpdateState) (look : Look) : Call World Observation := do
  check (stateIs active look.current)
  let o ← serviceObserve service look.seen
  check (observed op service active o)
  pure o

def restorePost (a : Action) (o : Observation) : Prop :=
  (if a.action = 1 then o.phase = .stoppedOld ∨ o.phase = .stoppedTarget
    else if a.action = 2 then o.phase = .stoppedOld else o.phase = .runningOld) ∧
    if a.action = 3 then o.pid ≠ a.pid ∨ o.birth ≠ a.birth else o.pid = a.pid ∧ o.birth = a.birth

instance (a : Action) (o : Observation) : Decidable (restorePost a o) := by
  unfold restorePost
  infer_instance

def restoreValue (service action : UInt32) (active : UpdateState) (o : Observation) : Action :=
  { actionValue service action active o with plan := op.sequence, phase := o.phase.code }

structure RestoreCompleting where
  guarding : Guarding
  look : Look
  late : Bool
  fault : Option AppendFault
  guardingAfter : Guarding
  lookAfter : Look
  lateAfter : Bool

def restoreRecheck (a : Action) (active : UpdateState) (x : RestoreCompleting) : Call World Unit := do
  restoreAudit sha256 op active x.guardingAfter
  let after ← restoreObserve op a.service.toNat active x.lookAfter
  check (after.phase.code = a.phase ∧ after.pid = a.pid ∧ after.birth = a.birth ∧ x.lateAfter = false)

def restoreComplete (active : UpdateState) (x : RestoreCompleting) : Call World Unit := do
  restoreGuard sha256 op active x.guarding
  let w ← current
  let p ← found w.memory.pending
  check (p.kind = 104 ∧ p.action.window = active.window ∧ p.action.generation = active.generation ∧
    p.action.deadline = active.deadlineUtc)
  let o ← restoreObserve op p.action.service.toNat active x.look
  check (restorePost p.action o ∧ x.late = false)
  let a := { p.action with intent := .ofNat p.sequence, pid := o.pid, birth := o.birth, phase := o.phase.code }
  let sequence ← append 105 (actionEncode a) x.fault
  change fun w => { w with
    recoveryRequired := false
    memory := { w.memory with
      restoreDone := Function.update w.memory.restoreDone a.service.toNat a.action.toNat
      restored := Function.update w.memory.restored a.service.toNat a
      restoreSequences := Function.update w.memory.restoreSequences a.service.toNat sequence
      pending := none } }
  match ← attempt (restoreRecheck sha256 op a active x) with
  | some _ => pure ()
  | none =>
    setBlocked
    check False

def restorable (before : Nat) (action : UInt32) (phase : Phase) : Prop :=
  (if action = 4 then before = 0 ∧ phase = .runningOld else action.toNat = before + 1) ∧
    (action = 1 → phase ≠ .runningOld) ∧ (action = 2 → phase.stopped = true) ∧ (action = 3 → phase = .stoppedOld)

instance (before : Nat) (action : UInt32) (phase : Phase) : Decidable (restorable before action phase) := by
  unfold restorable
  infer_instance

def backwardMutation (action : UInt32) : Mutation :=
  if action = 1 then .stop else if action = 2 then .switch false else .start false

def restoreMutation (action : UInt32) (phase : Phase) : Option Mutation :=
  if (action = 1 ∧ phase = .runningTarget) ∨ (action = 2 ∧ phase = .stoppedTarget) ∨ action = 3 then
    some (backwardMutation action)
  else none

structure Restoring where
  granted : Bool
  guarding : Guarding
  look : Look
  auditAfter : Guarding
  fault : Option AppendFault
  lateIntent : Bool
  nativeDone : Bool
  completing : RestoreCompleting

def announceRestore (a : Action) (fault : Option AppendFault) : Call World Unit := do
  announce 104 a fault
  change fun w => { w with blocked := false, memory := { w.memory with restoring := true } }

def restore (service action : UInt32) (active : UpdateState) (x : Restoring) : Call World Unit := do
  check (service < 4 ∧ 1 ≤ action ∧ action ≤ 4)
  reload op x.granted
  let w ← current
  check (w.memory.pending.isNone = true ∧ w.memory.config.isNone = true)
  restoreGuard sha256 op active x.guarding
  let o ← restoreObserve op service.toNat active x.look
  let m := w.memory
  if m.restoreDone service.toNat = action.toNat then
    check (o.phase = .runningOld ∧ o.pid = (m.restored service.toNat).pid ∧ o.birth = (m.restored service.toNat).birth)
    restoreAudit sha256 op active x.auditAfter
  else
    check (restorable (m.restoreDone service.toNat) action o.phase)
    announceRestore (restoreValue op service action active o) x.fault
    check (x.lateIntent = false)
    match restoreMutation action o.phase with
    | some mutation =>
      native service.toNat mutation x.nativeDone
      restoreComplete sha256 op active x.completing
    | none => restoreComplete sha256 op active x.completing

structure RestoreReconciling where
  granted : Bool
  guarding : Guarding
  look : Look
  started : Bool
  completing : RestoreCompleting

def restoreStarted (p : PendingAction) (active : UpdateState) (x : RestoreReconciling) : Call World Unit := do
  match ← attempt (restoreObserve op p.action.service.toNat active x.look) with
  | some o => if o.phase = .runningOld then pure () else observeStart p.action.service.toNat x.started
  | none => observeStart p.action.service.toNat x.started

def restoreReconcile (active : UpdateState) (x : RestoreReconciling) : Call World Unit := do
  reload op x.granted
  let w ← current
  let p ← found w.memory.pending
  check (p.kind = 104)
  restoreGuard sha256 op active x.guarding
  if p.action.action = 3 then
    restoreStarted op p active x
    restoreComplete sha256 op active x.completing
  else restoreComplete sha256 op active x.completing

structure Abandoning where
  granted : Bool
  guarding : Guarding
  look : Look
  started : Bool
  lookStarted : Look
  late : Bool
  fault : Option AppendFault
  grantedAfter : Bool
  auditAfter : Guarding

/-- What a service is found to be when its pending action is abandoned; a start may still
have to come to its end. -/
def abandonObserve (p : PendingAction) (active : UpdateState) (x : Abandoning) : Call World Observation := do
  match ← attempt (restoreObserve op p.action.service.toNat active x.look) with
  | some o => pure o
  | none =>
    check (p.action.action = 3)
    observeStart p.action.service.toNat x.started
    restoreObserve op p.action.service.toNat active x.lookStarted

def abandon (active : UpdateState) (x : Abandoning) : Call World Unit := do
  reload op x.granted
  let w ← current
  let p ← found w.memory.pending
  check (p.kind = 100 ∧ w.blocked = false ∧ w.memory.config.isNone = true)
  restoreGuard sha256 op active x.guarding
  let o ← abandonObserve op p active x
  check (x.late = false)
  let a := { restoreValue op p.action.service p.action.action active o with intent := .ofNat p.sequence }
  let _ ← append 106 (actionEncode a) x.fault
  reload op x.grantedAfter
  restoreAudit sha256 op active x.auditAfter

/-- The configuration as it is found, and the process that looks. -/
structure ConfigAbandoning where
  granted : Bool
  guarding : Guarding
  found : Option Bool
  pid : UInt32
  created : UInt64
  pid_ne : pid ≠ 0
  created_ne : created ≠ 0
  late : Bool
  fault : Option AppendFault
  grantedAfter : Bool
  auditAfter : Guarding

def configAbandonEncode (c : PendingConfig) (active : UpdateState) (candidate : Bool) (pid : UInt32) (created : UInt64) :
    Bytes :=
  configAbandonMagic ++ (storeU32 1 ++ (storeU32 (if candidate then 2 else 1) ++ (storeU32 0 ++
    (storeU32 active.window.toNat ++ (storeU64 active.generation.toNat ++ (storeU64 active.deadlineUtc.toNat ++
      (storeU64 op.sequence.toNat ++ (storeU64 c.reference.toNat ++ (storeU32 pid.toNat ++ (gap 4 ++
        (storeU64 created.toNat ++ (storeU64 c.intent.toNat ++ (storeU32 c.direction.toNat ++ gap 28)))))))))))))

def abandonConfig (active : UpdateState) (x : ConfigAbandoning) : Call World Unit := do
  reload op x.granted
  let w ← current
  let c ← found w.memory.config
  check (w.memory.pending.isNone = true ∧ w.blocked = false)
  restoreGuard sha256 op active x.guarding
  let candidate ← found x.found
  check (x.late = false)
  let _ ← append 107 (configAbandonEncode op c active candidate x.pid x.created) x.fault
  reload op x.grantedAfter
  restoreAudit sha256 op active x.auditAfter

/-- The calls, and what the journal's other writers append to it. -/
inductive Event where
  | execute (service action : UInt32) (active : UpdateState) (x : Executing)
  | reconcile (active : UpdateState) (x : Reconciling)
  | restore (service action : UInt32) (active : UpdateState) (x : Restoring)
  | restoreReconcile (active : UpdateState) (x : RestoreReconciling)
  | abandon (active : UpdateState) (x : Abandoning)
  | abandonConfig (active : UpdateState) (x : ConfigAbandoning)
  | others (kind : UInt32) (bytes : Bytes) (fault : Option AppendFault)

/-- While no action is announced, the others write the records of the update's state, and the
intent and the end of one configuration write at a time. -/
def othersMay (m : Memory) (kind : UInt32) (bytes : Bytes) : Prop :=
  m.pending.isNone = true ∧ ((65 ≤ kind ∧ kind ≤ 70) ∨
    ((kind = 21 ∨ kind = 22) ∧ bytes.length = 12 ∧ .ofNat (u64 bytes 0) ∈ op.configs ∧
      (u32 bytes 8 = 1 ∨ (u32 bytes 8 = 0 ∧ m.restoring = true)) ∧
      if kind = 21 then m.config.isNone = true
      else (m.config.any fun c => decide (c.reference = .ofNat (u64 bytes 0) ∧ c.direction = .ofNat (u32 bytes 8))) = true))

instance (m : Memory) (kind : UInt32) (bytes : Bytes) : Decidable (othersMay op m kind bytes) := by
  unfold othersMay
  infer_instance

def step (w : World) : Event → World
  | .execute service action active x => (execute op service action active x w).2
  | .reconcile active x => (reconcile op active x w).2
  | .restore service action active x => (restore sha256 op service action active x w).2
  | .restoreReconcile active x => (restoreReconcile sha256 op active x w).2
  | .abandon active x => (abandon sha256 op active x w).2
  | .abandonConfig active x => (abandonConfig sha256 op active x w).2
  | .others kind bytes fault =>
    if othersMay op (replayInto op noMemory (numbered w.log.records)).2 kind bytes then
      { w with log := (appendRecord w.log kind bytes fault).2 }
    else w

def stoppedProcess (m : Memory) (service : Nat) : Option (UInt32 × UInt64) :=
  if (m.restoreDone service = 1 ∨ m.restoreDone service = 2) ∧
      ¬ (m.pending.any fun p => decide (p.action.service.toNat = service ∧ p.action.action = 3)) = true
    then some ((m.restored service).pid, (m.restored service).birth)
  else none

def opened (log : RecordLog) : World :=
  let m := (replayInto op noMemory (numbered log.records)).2
  { log := log, memory := m, blocked := false, recoveryRequired := m.pending.isSome || m.config.isSome, natives := [],
    retained := stoppedProcess m }

end Transaction

end EtranProcessing.Deployment.ServiceTransaction
