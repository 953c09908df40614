import EtranProcessing.Deployment.RemoteStatus

namespace EtranProcessing.Deployment.ActionRecords

open Library.Fallible Library.LittleEndian Journal JournalFrames RemoteStatus

/-- What a service record says; the journal has the operation. -/
structure Action where
  action : UInt32
  service : UInt32
  window : UInt32
  generation : UInt64
  deadline : UInt64
  plan : UInt64
  reference : UInt64
  pid : UInt32
  birth : UInt64
  intent : UInt64
  phase : UInt32
  deriving DecidableEq

def noAction : Action := ⟨0, 0, 0, 0, 0, 0, 0, 0, 0, 0, 0⟩

def gap (n : Nat) : Bytes := List.replicate n 0

def actionEncode (a : Action) : Bytes :=
  actionMagic ++ (storeU32 1 ++ (storeU32 a.action.toNat ++ (storeU32 a.service.toNat ++ (storeU32 a.window.toNat ++
    (storeU64 a.generation.toNat ++ (storeU64 a.deadline.toNat ++ (storeU64 a.plan.toNat ++
      (storeU64 a.reference.toNat ++ (storeU32 a.pid.toNat ++ (gap 4 ++ (storeU64 a.birth.toNat ++
        (storeU64 a.intent.toNat ++ (storeU32 a.phase.toNat ++ gap 28)))))))))))))

def extended (kind : UInt32) : Prop := 104 ≤ kind ∧ kind ≤ 106

instance (kind : UInt32) : Decidable (extended kind) := by
  unfold extended
  infer_instance

def actionRead (b : Bytes) : Action where
  action := .ofNat (u32 b 12)
  service := .ofNat (u32 b 16)
  window := .ofNat (u32 b 20)
  generation := .ofNat (u64 b 24)
  deadline := .ofNat (u64 b 32)
  plan := .ofNat (u64 b 40)
  reference := .ofNat (u64 b 48)
  pid := .ofNat (u32 b 56)
  birth := .ofNat (u64 b 64)
  intent := .ofNat (u64 b 72)
  phase := .ofNat (u32 b 80)

def actionValid (a : Action) (kind : UInt32) : Prop :=
  (1 ≤ a.action ∧ a.action ≤ (if extended kind then 4 else 3) ∧ a.service < 4) ∧
    (if extended kind then a.window = 1 ∨ a.window = 2 else a.window = if a.service < 2 then 1 else 2) ∧
    (if extended kind then 1 ≤ a.phase ∧ a.phase ≤ 4 else a.phase = 0) ∧
    (a.generation ≠ 0 ∧ a.deadline ≠ 0 ∧ a.plan ≠ 0 ∧ a.reference ≠ 0) ∧ a.pid ≠ 0 ∧ a.birth ≠ 0

instance (a : Action) (kind : UInt32) : Decidable (actionValid a kind) := by
  unfold actionValid
  infer_instance

def actionDecode (b : Bytes) (kind : UInt32) : Option Action :=
  if (b.length = 112 ∧ part b 0 8 = actionMagic ∧ u32 b 8 = 1 ∧ zeroed b 60 4 ∧ zeroed b 84 28) ∧
      actionValid (actionRead b) kind then some (actionRead b) else none

section Fields

variable {pre l : Bytes} {i n : Nat}

theorem drop_pre (h : pre.length ≤ i) : (pre ++ l).drop i = l.drop (i - pre.length) := by
  rw [List.drop_append, List.drop_eq_nil_of_le h, List.nil_append]

@[simp] theorem u32_pre (h : pre.length ≤ i) : u32 (pre ++ l) i = u32 l (i - pre.length) := by
  rw [u32, drop_pre h, u32]

@[simp] theorem u64_pre (h : pre.length ≤ i) : u64 (pre ++ l) i = u64 l (i - pre.length) := by
  rw [u64, drop_pre h, u64]

@[simp] theorem part_pre (h : pre.length ≤ i) : part (pre ++ l) i n = part l (i - pre.length) n := by
  rw [part, drop_pre h, part]

@[simp] theorem part_here : part (pre ++ l) 0 pre.length = pre := by
  simp [part]

@[simp] theorem u32_here (v : UInt32) : u32 (storeU32 v.toNat ++ l) 0 = v.toNat := by
  rw [u32, List.drop_zero, get32_storeU32 v.toNat_lt]

@[simp] theorem u32_one : u32 (storeU32 1 ++ l) 0 = 1 := u32_here 1

@[simp] theorem u64_here (v : UInt64) : u64 (storeU64 v.toNat ++ l) 0 = v.toNat := by
  rw [u64, List.drop_zero, get64_storeU64, Nat.mod_eq_of_lt v.toNat_lt]

end Fields

@[simp] theorem length_gap (n : Nat) : (gap n).length = n := List.length_replicate

theorem zeroed_gap (n : Nat) (l : Bytes) : zeroed (gap n ++ l) 0 n := by
  simp [zeroed, part, gap]

theorem zeroed_pre {pre l : Bytes} {i n : Nat} (h : pre.length ≤ i) : zeroed (pre ++ l) i n ↔ zeroed l (i - pre.length) n := by
  rw [zeroed, part_pre h, zeroed]

@[simp] theorem length_actionMagic : actionMagic.length = 8 := by simp [actionMagic]

theorem length_actionEncode (a : Action) : (actionEncode a).length = 112 := by
  simp [actionEncode]

theorem actionEncode_frame (a : Action) : part (actionEncode a) 0 8 = actionMagic ∧ u32 (actionEncode a) 8 = 1 ∧
    zeroed (actionEncode a) 60 4 ∧ zeroed (actionEncode a) 84 28 := by
  refine ⟨?_, ?_, ?_, ?_⟩
  · rw [actionEncode, ← length_actionMagic, part_here]
  · simp [actionEncode]
  · simp [actionEncode, zeroed_pre, zeroed_gap]
  · have hlast := zeroed_gap 28 []
    rw [List.append_nil] at hlast
    simp [actionEncode, zeroed_pre, hlast]

theorem actionEncode_fields (a : Action) :
    (u32 (actionEncode a) 12 = a.action.toNat ∧ u32 (actionEncode a) 16 = a.service.toNat ∧
      u32 (actionEncode a) 20 = a.window.toNat) ∧
    (u64 (actionEncode a) 24 = a.generation.toNat ∧ u64 (actionEncode a) 32 = a.deadline.toNat ∧
      u64 (actionEncode a) 40 = a.plan.toNat ∧ u64 (actionEncode a) 48 = a.reference.toNat) ∧
    (u32 (actionEncode a) 56 = a.pid.toNat ∧ u64 (actionEncode a) 64 = a.birth.toNat ∧
      u64 (actionEncode a) 72 = a.intent.toNat ∧ u32 (actionEncode a) 80 = a.phase.toNat) := by
  simp [actionEncode]

theorem actionRead_encode (a : Action) : actionRead (actionEncode a) = a := by
  obtain ⟨⟨haction, hservice, hwindow⟩, ⟨hgeneration, hdeadline, hplan, hreference⟩, hpid, hbirth, hintent, hphase⟩ :=
    actionEncode_fields a
  simp [actionRead, haction, hservice, hwindow, hgeneration, hdeadline, hplan, hreference, hpid, hbirth, hintent, hphase]

theorem actionDecode_encode {a : Action} {kind : UInt32} (h : actionValid a kind) :
    actionDecode (actionEncode a) kind = some a := by
  rw [actionDecode, actionRead_encode]
  exact if_pos ⟨⟨length_actionEncode a, actionEncode_frame a⟩, h⟩

theorem actionDecode_valid {b : Bytes} {kind : UInt32} {a : Action} (h : actionDecode b kind = some a) :
    actionValid a kind := by
  unfold actionDecode at h
  split at h
  next hchecked =>
    cases h
    exact hchecked.2
  next => cases h

theorem actionDecode_read {b : Bytes} {kind : UInt32} {a : Action} (h : actionDecode b kind = some a) :
    a = actionRead b := by
  unfold actionDecode at h
  split at h
  next => exact (Option.some.inj h).symm
  next => cases h

/-- What the transaction borrows of the operation plan, which is for one hop. -/
structure Operation where
  sequence : UInt64
  references : Nat → UInt64
  configs : List UInt64
  sequence_ne : sequence ≠ 0
  reference_ne : ∀ i < 4, references i ≠ 0

structure PendingAction where
  kind : UInt32
  sequence : Nat
  action : Action

structure PendingConfig where
  reference : UInt64
  intent : UInt64
  direction : UInt32

/-- What the transaction keeps of its journal. -/
structure Memory where
  done : Nat → Nat
  pending : Option PendingAction
  config : Option PendingConfig
  restoring : Bool
  restoreDone : Nat → Nat
  restoreSequences : Nat → Nat
  windows : Nat → Action
  completed : Nat → Action
  restored : Nat → Action

def noMemory : Memory where
  done _ := 0
  pending := none
  config := none
  restoring := false
  restoreDone _ := 0
  restoreSequences _ := 0
  windows _ := noAction
  completed _ := noAction
  restored _ := noAction

variable (op : Operation)

def actionBound (m : Memory) (r : Record) (a : Action) : Prop :=
  op.sequence.toNat < r.sequence ∧ a.plan = op.sequence ∧ a.reference = op.references a.service.toNat ∧ m.config.isNone = true

instance (m : Memory) (r : Record) (a : Action) : Decidable (actionBound op m r a) := by
  unfold actionBound
  infer_instance

def windowAgrees (m : Memory) (a : Action) : Prop :=
  let window := m.windows (a.window.toNat - 1)
  (window.generation = 0 ∨ (window.generation = a.generation ∧ window.deadline = a.deadline)) ∧
    (a.window = 2 → (m.windows 0).generation = 0 ∨
      ((m.windows 0).generation ≠ 2 ^ 64 - 1 ∧ a.generation = (m.windows 0).generation + 1))

instance (m : Memory) (a : Action) : Decidable (windowAgrees m a) := by
  unfold windowAgrees
  infer_instance

/-- Record 100. -/
def intentHistory (m : Memory) (r : Record) (a : Action) : Except Win32Error Memory := do
  require (m.pending.isNone = true ∧ a.intent = 0 ∧ a.action.toNat = m.done a.service.toNat + 1) .invalidState
  require (¬ (a.window = 2 ∧ ¬ (m.done 0 = 3 ∧ m.done 1 = 3))) .invalidState
  require (windowAgrees m a ∧ (1 < a.action →
    a.pid = (m.completed a.service.toNat).pid ∧ a.birth = (m.completed a.service.toNat).birth)) .revisionMismatch
  pure { m with
    windows := Function.update m.windows (a.window.toNat - 1) a
    pending := some ⟨100, r.sequence, a⟩ }

def expectedDone (p : PendingAction) (a : Action) : Action :=
  let expected := { p.action with intent := a.intent }
  if a.action = 3 then { expected with pid := a.pid, birth := a.birth } else expected

/-- Record 101. -/
def doneHistory (m : Memory) (a : Action) : Except Win32Error Memory := do
  let p ← demand m.pending .invalidState
  require (a.intent = .ofNat p.sequence) .invalidState
  require (¬ (a.action = 3 ∧ a.pid = p.action.pid ∧ a.birth = p.action.birth) ∧
    actionEncode (expectedDone p a) = actionEncode a) .revisionMismatch
  pure { m with
    done := Function.update m.done a.service.toNat a.action.toNat
    completed := Function.update m.completed a.service.toNat a
    pending := none }

/-- Record 104. -/
def restoreHistory (m : Memory) (r : Record) (a : Action) : Except Win32Error Memory := do
  let before := m.restoreDone a.service.toNat
  require (m.pending.isNone = true ∧ a.intent = 0 ∧ before < 3 ∧
    (if a.action = 4 then before = 0 else a.action.toNat = before + 1)) .invalidState
  require (¬ ((a.action = 1 ∧ a.phase ≠ 1 ∧ a.phase ≠ 2 ∧ a.phase ≠ 4) ∨ (a.action = 2 ∧ a.phase ≠ 1 ∧ a.phase ≠ 2) ∨
    (a.action = 3 ∧ a.phase ≠ 1) ∨ (a.action = 4 ∧ a.phase ≠ 3))) .invalidData
  require (a.action = 2 ∨ a.action = 3 →
    a.pid = (m.restored a.service.toNat).pid ∧ a.birth = (m.restored a.service.toNat).birth) .revisionMismatch
  pure { m with pending := some ⟨104, r.sequence, a⟩, restoring := true }

/-- Record 105. -/
def restoredHistory (m : Memory) (r : Record) (a : Action) : Except Win32Error Memory := do
  let p ← demand m.pending .invalidState
  require (p.kind = 104 ∧ a.intent = .ofNat p.sequence) .invalidState
  require (¬ (a.action = 3 ∧ a.pid = p.action.pid ∧ a.birth = p.action.birth) ∧
    actionEncode { expectedDone p a with phase := a.phase } = actionEncode a) .revisionMismatch
  require (¬ ((a.action = 1 ∧ a.phase ≠ 1 ∧ a.phase ≠ 2) ∨ (a.action = 2 ∧ a.phase ≠ 1) ∨ (3 ≤ a.action ∧ a.phase ≠ 3)))
    .invalidData
  pure { m with
    restoreDone := Function.update m.restoreDone a.service.toNat a.action.toNat
    restored := Function.update m.restored a.service.toNat a
    restoreSequences := Function.update m.restoreSequences a.service.toNat r.sequence
    pending := none
    restoring := true }

/-- Record 106. -/
def abandonHistory (m : Memory) (a : Action) : Except Win32Error Memory := do
  let p ← demand m.pending .revisionMismatch
  require (p.kind = 100 ∧ a.intent = .ofNat p.sequence ∧ a.service = p.action.service ∧ a.action = p.action.action ∧
    a.reference = p.action.reference) .revisionMismatch
  require (if a.window = p.action.window then a.generation = p.action.generation ∧ a.deadline = p.action.deadline
    else p.action.window = 1 ∧ a.window = 2 ∧ p.action.generation ≠ 2 ^ 64 - 1 ∧
      a.generation = p.action.generation + 1) .revisionMismatch
  pure { m with pending := none, restoring := true }

def configMagic : Bytes := configAbandonMagic

/-- Record 107. -/
def configAbandonHistory (m : Memory) (b : Bytes) : Except Win32Error Memory := do
  let c ← demand m.config .invalidData
  require ((b.length = 112 ∧ part b 0 8 = configMagic ∧ u32 b 8 = 1 ∧ 1 ≤ u32 b 12 ∧ u32 b 12 ≤ 2 ∧ u32 b 16 = 0) ∧
    (1 ≤ u32 b 20 ∧ u32 b 20 ≤ 2 ∧ u64 b 24 ≠ 0 ∧ u64 b 32 ≠ 0 ∧ u64 b 40 = op.sequence.toNat ∧
      u64 b 48 = c.reference.toNat) ∧
    (u32 b 56 ≠ 0 ∧ u32 b 60 = 0 ∧ u64 b 64 ≠ 0 ∧ u64 b 72 = c.intent.toNat ∧ u32 b 80 = c.direction.toNat) ∧
    m.pending.isNone = true ∧ zeroed b 84 28) .invalidData
  pure { m with config := none, restoring := true }

/-- Records 21 and 22. -/
def configHistory (m : Memory) (r : Record) : Except Win32Error Memory := do
  require (m.pending.isNone = true ∧ r.bytes.length = 12) .invalidState
  let reference : UInt64 := .ofNat (u64 r.bytes 0)
  let direction : UInt32 := .ofNat (u32 r.bytes 8)
  require (direction ≤ 1 ∧ ¬ (direction = 0 ∧ m.restoring = false)) .invalidState
  require (reference ∈ op.configs) .revisionMismatch
  if r.kind = 21 then do
    require (m.config.isNone = true) .invalidState
    pure { m with config := some ⟨reference, .ofNat r.sequence, direction⟩ }
  else do
    let c ← demand m.config .invalidState
    require (c.reference = reference ∧ c.direction = direction) .invalidState
    pure { m with config := none }

/-- The replay of one record by a transaction that is not for reading only. -/
def history (m : Memory) (r : Record) : Except Win32Error Memory :=
  if r.kind = 102 then .error .invalidState
  else if r.kind = 100 ∨ r.kind = 101 then do
    require (m.restoring = false) .invalidData
    let a ← demand (actionDecode r.bytes r.kind) .invalidData
    require (actionBound op m r a) .invalidData
    if r.kind = 100 then intentHistory m r a else doneHistory m a
  else if extended r.kind then do
    let a ← demand (actionDecode r.bytes r.kind) .invalidData
    require (actionBound op m r a) .invalidData
    if r.kind = 106 then abandonHistory m a
    else if r.kind = 104 then restoreHistory m r a
    else restoredHistory m r a
  else if r.kind = 107 then configAbandonHistory op m r.bytes
  else if r.sequence ≤ op.sequence.toNat then .ok m
  else if r.kind = 21 ∨ r.kind = 22 then configHistory op m r
  else if 65 ≤ r.kind ∧ r.kind ≤ 70 then do
    require (m.pending.isNone = true) .invalidState
    pure m
  else .error .invalidState

end EtranProcessing.Deployment.ActionRecords
