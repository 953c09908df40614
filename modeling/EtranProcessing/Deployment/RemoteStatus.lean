import EtranProcessing.Deployment.JournalReader
import EtranProcessing.Deployment.UpdateMarker
import EtranProcessing.Library.Fallible

namespace EtranProcessing.Deployment.RemoteStatus

open Library.Fallible Journal
open UpdateMarker (stateMagic hexLower dashes dash)

def u32 (b : Bytes) (i : Nat) : Nat := get32 (b.drop i)
def u64 (b : Bytes) (i : Nat) : Nat := get64 (b.drop i)
def part (b : Bytes) (i n : Nat) : Bytes := (b.drop i).take n
def zeroed (b : Bytes) (i n : Nat) : Prop := part b i n = List.replicate n 0

instance (b : Bytes) (i n : Nat) : Decidable (zeroed b i n) := by
  unfold zeroed
  infer_instance

def cString (b : Bytes) : Bytes := b.takeWhile (· ≠ 0)

def applyString (b : Bytes) : Prop :=
  cString b ≠ [] ∧ (cString b).length < b.length ∧ b.drop (cString b).length = List.replicate (b.length - (cString b).length) 0

instance (b : Bytes) : Decidable (applyString b) := by
  unfold applyString
  infer_instance

def applyUuid (b : Bytes) : Prop :=
  b.getD 36 0 = 0 ∧
    (∀ i ∈ List.range 36, if i ∈ dashes then b.getD i 0 = dash else hexLower (b.getD i 0)) ∧
    ∃ i ∈ List.range 36, i ∉ dashes ∧ b.getD i 0 ≠ 0x30

instance (b : Bytes) : Decidable (applyUuid b) := by
  unfold applyUuid
  infer_instance

/-- Three numbers with dots between them; the counters are the dots and the digits since
the last of them. -/
def versionText : Nat → Nat → Bytes → Bool
  | dots, digits, [] => dots = 2 ∧ digits ≠ 0
  | dots, digits, c :: rest =>
    if c = 0x2e then (digits ≠ 0 ∧ dots < 2) && versionText (dots + 1) 0 rest
    else if 0x30 ≤ c ∧ c ≤ 0x39 then versionText dots (digits + 1) rest
    else false

def applyVersion (b : Bytes) : Prop := applyString b ∧ versionText 0 0 (cString b) = true

instance (b : Bytes) : Decidable (applyVersion b) := by
  unfold applyVersion
  infer_instance

def isArch (b : Bytes) : Prop := applyString b ∧ (cString b = [0x78, 0x38, 0x36] ∨ cString b = [0x78, 0x36, 0x34])

instance (b : Bytes) : Decidable (isArch b) := by
  unfold isArch
  infer_instance

def setupName : Bytes := [0x6c, 0x34, 0x73, 0x65, 0x74, 0x75, 0x70, 0x2e, 0x65, 0x78, 0x65]

structure Request where
  target : Nat
  version : Bytes
  acceptedUtc : Nat
  deriving DecidableEq

structure Host where
  request : Request
  pid : Nat
  birth : Nat
  sourceVersion : Bytes
  arch : Bytes
  updaterVersion : Bytes

structure Result where
  operationId : Bytes
  target : Nat
  requestedVersion : Bytes
  previousVersion : Bytes
  resolvedVersion : Bytes
  startedAt : Nat
  finishedAt : Nat
  result : Nat
  error : Nat
  deriving DecidableEq

structure Recovery where
  operation : Bytes
  sequence : Nat
  workerPid : Nat
  workerCreated : Bytes
  supervisorPid : Nat
  supervisorCreated : Bytes
  armedUtc : Nat
  deadlineUtc : Nat

structure Communication where
  operation : Bytes
  sequence : Nat
  operationHash : Bytes
  workerPid : Nat
  workerCreated : Bytes
  supervisorPid : Nat
  supervisorCreated : Bytes
  armedUtc : Nat
  deadlineUtc : Nat
  generation : Nat

structure LaunchFailure where
  planSequence : Nat
  result : Result

structure Switch where
  service : String
  account : String
  startType : Nat
  after : Bytes

structure Release where
  version : Bytes
  manifest : Bytes

structure Route where
  ownerTrusted : Bool
  source : Option Release
  requested : Bytes
  arch : Bytes
  steps : Option (List Release)

structure Outcome where
  result : Result
  planSequence : Nat
  planHash : Bytes
  proofSequence : Nat
  proofHash : Bytes
  deriving DecidableEq

/-- The codecs of the records around the update itself, and the layouts they name. -/
structure Codecs (L : Type) where
  requestDecode : L → Bytes → Option Request
  versionLayout : L → Bytes → Option L
  resultDecode : Bytes → Option Result
  resultEncode : Result → Option Bytes
  recoveryDecode : L → Bytes → Option Recovery
  communicationDecode : L → Bytes → Option Communication
  launchFailureDecode : Bytes → Option LaunchFailure
  switchDecode : L → Bytes → Option Switch
  hostSnapshot : L → List Record → Option Host
  routeDecode : Bytes → Option Route

structure Active where
  window : Nat
  generation : Nat
  deadlineUtc : Nat

structure Pending where
  kind : UInt32
  sequence : Nat
  bytes : Bytes

structure ConfigPending where
  sequence : Nat
  reference : Nat
  direction : Nat

structure Proof where
  sequence : Nat
  kind : UInt32
  hash : Bytes
  version : Bytes
  arch : Bytes
  updater : Bytes
  root : Bytes
  finished : Nat

/-- What the records of the update itself have come to. -/
structure Applied where
  restoring : Bool
  active : Active
  pending : Option Pending
  configPending : Option ConfigPending
  configCandidate : Nat → Bool
  forward : Nat → Nat
  restored : Nat → Nat
  pids : Nat → Nat
  births : Nat → Nat
  forwardDone : Nat → Nat
  oldPids : Nat → Nat
  oldBirths : Nat → Nat
  restoreDone : Nat → Nat
  proof : Option Proof
  outcome : Option Outcome
  clear : Option Nat

structure TypedPlan where
  hops : Nat
  configs : List Nat
  switches : List (List Nat)

structure Scan (L : Type) where
  request : Option Request
  original : Option L
  route : Option Bytes
  packagesSequence : Option Nat
  planSequence : Option Nat
  operationHash : Bytes
  typedPlan : Option TypedPlan
  recovery : Option Recovery
  recoveryHash : Bytes
  task : Bool
  communication : Option Communication
  ticketHash : Option Bytes
  parentPid : Nat
  parentBirth : Nat
  receipt : Bool
  terminal : Bool
  result : Option Result
  applied : Applied

def freshApplied : Applied where
  restoring := false
  active := ⟨0, 0, 0⟩
  pending := none
  configPending := none
  configCandidate _ := false
  forward _ := 0
  restored _ := 0
  pids _ := 0
  births _ := 0
  forwardDone _ := 0
  oldPids _ := 0
  oldBirths _ := 0
  restoreDone _ := 0
  proof := none
  outcome := none
  clear := none

def freshScan (L : Type) : Scan L where
  request := none
  original := none
  route := none
  packagesSequence := none
  planSequence := none
  operationHash := List.replicate 32 0
  typedPlan := none
  recovery := none
  recoveryHash := List.replicate 32 0
  task := false
  communication := none
  ticketHash := none
  parentPid := 0
  parentBirth := 0
  receipt := false
  terminal := false
  result := none
  applied := freshApplied

def outcomeSuccess : Nat := 1
def outcomeRestored : Nat := 2
def outcomeRecoveryRequired : Nat := 3

/-- The places of one operation's journal in the reader: the identity, the records and the
layout that the caller has. -/
structure Journaled (L : Type) where
  operationId : Bytes
  operation : Bytes
  roots : L
  records : List Record

/-- What the records of the update refer to once their plan and its receipt are there. -/
structure Context (L : Type) where
  original : L
  acceptedUtc : Nat
  planSequence : Nat
  operationHash : Bytes
  plan : TypedPlan
  recovery : Recovery
  communication : Communication

section Reducer

variable {L : Type} (sha256 : Bytes → Digest) (codecs : Codecs L) (j : Journaled L)

def readerFind (kind : UInt32) (sequence : Nat) : Option Bytes :=
  ((j.records.filter fun r => r.kind = kind ∧ r.sequence = sequence).getLast?).map Record.bytes

def applyRef (kind : UInt32) (ref before : Nat) : Prop :=
  (ref ≠ 0 ∧ ref < before) ∧ readerFind j kind ref ≠ none

instance (kind : UInt32) (ref before : Nat) : Decidable (applyRef j kind ref before) := by
  unfold applyRef
  infer_instance

def maxReleases : Nat := 24

/-- An untyped plan is kept as such: nothing can be applied for it. -/
def applyPlan (packagesSequence sequence : Nat) (b : Bytes) : Except Win32Error (Option TypedPlan) :=
  if b.length < 28 ∨ u32 b 0 ≠ 1 then .ok none
  else do
    let hops := u32 b 20
    let count := u32 b 24
    require ((hops ≠ 0 ∧ hops ≤ maxReleases ∧ count = 12 ∧ b.length = 28 + count * 8 + hops * 32) ∧
      u64 b 4 = packagesSequence ∧ applyRef j 63 (u64 b 12) sequence) .invalidData
    let configs := (List.range count).map fun i => u64 b (28 + i * 8)
    require ((∀ ref ∈ configs, applyRef j 20 ref sequence) ∧ configs.Nodup) .invalidData
    let switches := (List.range hops).map fun h => (List.range 4).map fun i => u64 b (28 + count * 8 + h * 32 + i * 8)
    require ((∀ ref ∈ switches.flatten, applyRef j 10 ref sequence) ∧ switches.flatten.Nodup) .invalidData
    pure (some ⟨hops, configs, switches⟩)

variable (c : Context L)

def activeOf (b : Bytes) : Active := ⟨u32 b 48, u64 b 56, u64 b 72⟩

def applyState (a : Applied) (b : Bytes) : Except Win32Error Applied := do
  require (b.length = 112 ∧ part b 0 8 = stateMagic ∧ u32 b 52 = 0 ∧ part b 8 37 = j.operationId ∧ zeroed b 45 3 ∧
    u64 b 64 = c.planSequence ∧ (storeHash sha256 (b.take 80) []).bytes = b.drop 80) .invalidData
  let next := activeOf b
  require (next.generation ≠ 0 ∧ next.window ≤ 2 ∧
    if next.window ≠ 0 then next.deadlineUtc ≠ 0 else next.deadlineUtc = 0) .invalidData
  let inTime := next.deadlineUtc < c.recovery.deadlineUtc ∧ c.recovery.armedUtc < next.deadlineUtc
  require (if a.active.generation = 0 then
      next.window = 1 ∧ next.generation = c.communication.generation ∧
        next.deadlineUtc = c.communication.deadlineUtc ∧ inTime
    else next.generation = a.active.generation + 1 ∧ a.active.generation ≠ 2 ^ 64 - 1 ∧
      (next.window = 0 ∨ (a.active.window = 1 ∧ next.window = 2 ∧ inTime))) .revisionMismatch
  if next.window = 0 then do
    require (a.outcome.any (fun o => o.result.result ≠ outcomeRecoveryRequired) = true ∧ a.clear = none ∧
      a.pending.isNone = true ∧ a.configPending.isNone = true) .invalidState
    pure { a with active := next, clear := some next.generation }
  else do
    require (a.outcome = none) .invalidState
    pure { a with active := next }

def actionMagic : Bytes := [0x4c, 0x34, 0x53, 0x43, 0x41, 0x30, 0x30, 0x31]

def actionOf (b : Bytes) : Nat := u32 b 12
def serviceOf (b : Bytes) : Nat := u32 b 16
def windowOf (b : Bytes) : Nat := u32 b 20
def intentOf (b : Bytes) : Nat := u64 b 72
def phaseOf (b : Bytes) : Nat := u32 b 80

def isForward (kind : UInt32) : Prop := kind = 100 ∨ kind = 101

instance (kind : UInt32) : Decidable (isForward kind) := by
  unfold isForward
  infer_instance

/-- What every record of a service action has to be. -/
def actionChecked (a : Applied) (kind : UInt32) (b : Bytes) : Except Win32Error Unit := do
  require ((b.length = 112 ∧ part b 0 8 = actionMagic ∧ u32 b 8 = 1 ∧ zeroed b 60 4 ∧ zeroed b 84 28) ∧
    a.configPending.isNone = true) .invalidData
  require ((1 ≤ actionOf b ∧ actionOf b ≤ (if isForward kind then 3 else 4) ∧ serviceOf b < 4) ∧
    windowOf b = a.active.window ∧ u64 b 24 = a.active.generation ∧ u64 b 32 = a.active.deadlineUtc ∧
    u64 b 40 = c.planSequence ∧ u64 b 48 = (c.plan.switches.getD 0 []).getD (serviceOf b) 0 ∧
    u32 b 56 ≠ 0 ∧ u64 b 64 ≠ 0 ∧
    if isForward kind then phaseOf b = 0 ∧ windowOf b = (if serviceOf b < 2 then 1 else 2)
    else 1 ≤ phaseOf b ∧ phaseOf b ≤ 4) .revisionMismatch
  require (¬ (isForward kind ∧ a.restoring = true)) .invalidState

/-- Records 100 and 104. -/
def actionIntent (a : Applied) (kind : UInt32) (sequence : Nat) (b : Bytes) : Except Win32Error Applied := do
  require (a.pending.isNone = true ∧ intentOf b = 0 ∧
    if isForward kind then actionOf b = a.forward (serviceOf b) + 1
    else if a.restored (serviceOf b) ≠ 0 then actionOf b = a.restored (serviceOf b) + 1
    else actionOf b = 1 ∨ actionOf b = 4) .invalidState
  require (¬ (isForward kind ∧ windowOf b = 2 ∧ ¬ (a.forward 0 = 3 ∧ a.forward 1 = 3))) .invalidState
  require (kind ≠ 104 ∨ ¬ ((actionOf b = 2 ∧ 2 < phaseOf b) ∨ (actionOf b = 3 ∧ phaseOf b ≠ 1) ∨
    (actionOf b = 4 ∧ phaseOf b ≠ 3))) .invalidData
  pure { a with restoring := a.restoring || decide (kind = 104), pending := some ⟨kind, sequence, b⟩ }

def actionAbandon (a : Applied) (b : Bytes) : Except Win32Error Applied := do
  let p ← demand a.pending .invalidState
  require (p.kind = 100 ∧ intentOf b = p.sequence ∧ part b 12 8 = part p.bytes 12 8 ∧
    part b 40 16 = part p.bytes 40 16) .invalidState
  pure { a with pending := none, restoring := true }

/-- Records 101 and 105. -/
def actionDone (a : Applied) (kind : UInt32) (sequence : Nat) (b : Bytes) : Except Win32Error Applied := do
  let p ← demand a.pending .invalidData
  require (p.kind = (if kind = 101 then 100 else 104) ∧ intentOf b = p.sequence ∧
    part b 12 44 = part p.bytes 12 44 ∧ (actionOf b = 3 ∨ part b 56 16 = part p.bytes 56 16)) .invalidData
  if kind = 101 then
    let a := { a with pending := none, forward := Function.update a.forward (serviceOf b) (actionOf b) }
    if actionOf b = 3 then
      pure { a with
        pids := Function.update a.pids (serviceOf b) (u32 b 56)
        births := Function.update a.births (serviceOf b) (u64 b 64)
        forwardDone := Function.update a.forwardDone (serviceOf b) sequence }
    else pure a
  else do
    require (¬ ((actionOf b = 1 ∧ 2 < phaseOf b) ∨ (actionOf b = 2 ∧ phaseOf b ≠ 1) ∨
      (3 ≤ actionOf b ∧ phaseOf b ≠ 3))) .invalidData
    let a := { a with pending := none, restored := Function.update a.restored (serviceOf b) (actionOf b) }
    if 3 ≤ actionOf b then
      pure { a with
        oldPids := Function.update a.oldPids (serviceOf b) (u32 b 56)
        oldBirths := Function.update a.oldBirths (serviceOf b) (u64 b 64)
        restoreDone := Function.update a.restoreDone (serviceOf b) sequence }
    else pure a

def applyAction (a : Applied) (kind : UInt32) (sequence : Nat) (b : Bytes) : Except Win32Error Applied := do
  actionChecked c a kind b
  if kind = 100 ∨ kind = 104 then actionIntent a kind sequence b
  else if kind = 106 then actionAbandon a b
  else actionDone a kind sequence b

def referenceOf (b : Bytes) : Nat := u64 b 0
def directionOf (b : Bytes) : Nat := u32 b 8

def applyConfig (a : Applied) (kind : UInt32) (sequence : Nat) (b : Bytes) : Except Win32Error Applied := do
  require (b.length = 12 ∧ a.pending.isNone = true) .invalidData
  let i := c.plan.configs.findIdx (· = referenceOf b)
  require ((i < c.plan.configs.length ∧ directionOf b ≤ 1) ∧ (directionOf b = 1 ↔ a.restoring = false) ∧
    (directionOf b = 0 ∨ a.active.window = (if i = 1 ∨ i = 2 then 1 else 2))) .invalidData
  if kind = 21 then do
    require (a.configPending.isNone = true) .invalidState
    pure { a with configPending := some ⟨sequence, referenceOf b, directionOf b⟩ }
  else do
    let p ← demand a.configPending .invalidState
    require (referenceOf b = p.reference ∧ directionOf b = p.direction) .invalidState
    pure { a with
      configPending := none
      configCandidate := Function.update a.configCandidate i (decide (directionOf b ≠ 0)) }

def configAbandonMagic : Bytes := [0x4c, 0x34, 0x43, 0x46, 0x47, 0x30, 0x30, 0x31]

/-- Record 107. -/
def applyConfigAbandon (a : Applied) (b : Bytes) : Except Win32Error Applied := do
  let p ← demand a.configPending .invalidData
  require ((b.length = 112 ∧ part b 0 8 = configAbandonMagic ∧ u32 b 8 = 1 ∧ 1 ≤ u32 b 12 ∧ u32 b 12 ≤ 2) ∧
    (u32 b 16 = 0 ∧ u32 b 60 = 0 ∧ zeroed b 84 28 ∧ a.pending.isNone = true) ∧
    (u32 b 20 = a.active.window ∧ u64 b 24 = a.active.generation ∧ u64 b 32 = a.active.deadlineUtc ∧
      u64 b 40 = c.planSequence ∧ u64 b 48 = p.reference) ∧
    (u32 b 56 = c.recovery.workerPid ∧ part b 64 8 = c.recovery.workerCreated ∧ u64 b 72 = p.sequence ∧
      u32 b 80 = p.direction)) .invalidData
  pure { a with configPending := none, restoring := true }

def commitMagic : Bytes := [0x4c, 0x34, 0x53, 0x43, 0x4d, 0x54, 0x30, 0x31]
def restoredMagic : Bytes := [0x4c, 0x34, 0x52, 0x4f, 0x4c, 0x44, 0x30, 0x31]

def serviceNames : List String := ["Leo4Proxy", "mosquitto", "L4Con", "L4Superv"]

/-- One service in record 102: its process is the one that was started and its command the
one that the plan switches to. -/
def completionService (a : Applied) (b : Bytes) (i : Nat) : Except Win32Error Unit := do
  let v := b.drop (511 + i * 4112)
  require (a.forward i = 3 ∧ a.forwardDone i ≠ 0 ∧ u32 v 4 = a.pids i ∧ u64 v 8 = a.births i) .revisionMismatch
  let raw ← demand (readerFind j 10 ((c.plan.switches.getD (c.plan.hops - 1) []).getD i 0)) .revisionMismatch
  let sw ← demand (codecs.switchDecode c.original raw) .invalidData
  require (sw.service = serviceNames.getD i "" ∧ sw.account = "LocalSystem" ∧ (sw.startType = 2 ∨ sw.startType = 3) ∧
    u32 v 0 = sw.startType ∧ part v 16 4096 = sw.after ++ List.replicate (4096 - sw.after.length) 0) .revisionMismatch

/-- Record 102. -/
def completionCommitted (a : Applied) (sequence : Nat) (b : Bytes) : Except Win32Error Proof := do
  require ((a.restoring = false ∧ a.active.window = 2 ∧ b.length = 16959 ∧ part b 0 8 = commitMagic) ∧
    (u64 b 8 = c.planSequence ∧ part b 16 32 = c.operationHash ∧ part b 48 37 = j.operationId) ∧
    (applyUuid (part b 85 37) ∧ applyUuid (part b 122 37) ∧ part b 48 37 ≠ part b 85 37) ∧
    (applyVersion (part b 159 32) ∧ applyVersion (part b 191 32) ∧ isArch (part b 223 8)) ∧
    (¬ zeroed b 231 32 ∧ ¬ zeroed b 263 32 ∧ applyString (part b 295 40) ∧ cString (part b 295 40) = setupName) ∧
    (u64 b 335 ≠ 0 ∧ ¬ zeroed b 343 32 ∧ ¬ zeroed b 375 32 ∧ u64 b 407 ≠ 0)) .invalidData
  require (∀ i ∈ List.range 12, a.configCandidate i = true ∧ u64 b (415 + i * 8) = c.plan.configs.getD i 0)
    .revisionMismatch
  (List.range 4).forM (completionService codecs j c a b)
  pure ⟨sequence, 102, (storeHash sha256 b []).bytes, part b 159 32, part b 223 8, part b 191 32, part b 231 32,
    u64 b 407⟩

/-- Record 108. -/
def completionRestored (a : Applied) (sequence : Nat) (b : Bytes) : Except Win32Error Proof := do
  require ((a.restoring = true ∧ b.length = 384 ∧ part b 0 8 = restoredMagic ∧ u32 b 8 = 1) ∧
    (u32 b 12 = a.active.window ∧ u64 b 16 = a.active.generation ∧ u64 b 24 = a.active.deadlineUtc) ∧
    (u64 b 32 = c.planSequence ∧ part b 40 32 = c.operationHash ∧ part b 72 37 = j.operationId) ∧
    (applyVersion (part b 109 32) ∧ isArch (part b 141 8) ∧ ¬ zeroed b 149 32 ∧ u64 b 181 ≠ 0) ∧
    (u32 b 189 = c.recovery.workerPid ∧ part b 193 8 = c.recovery.workerCreated ∧ u32 b 377 = a.active.window ∧
      zeroed b 381 3)) .invalidData
  require (∀ i ∈ List.range 12, u64 b (249 + i * 8) = c.plan.configs.getD i 0) .revisionMismatch
  require (∀ i ∈ List.range 4, 3 ≤ a.restored i ∧ a.restoreDone i ≠ 0 ∧ u32 b (201 + i * 4) = a.oldPids i ∧
    u64 b (217 + i * 8) = a.oldBirths i ∧ u64 b (345 + i * 8) = a.restoreDone i) .revisionMismatch
  pure ⟨sequence, 108, (storeHash sha256 b []).bytes, part b 109 32, part b 141 8, List.replicate 32 0, part b 149 32,
    u64 b 181⟩

def applyCompletion (a : Applied) (kind : UInt32) (sequence : Nat) (b : Bytes) : Except Win32Error Applied := do
  require (a.proof.isNone = true ∧ a.pending.isNone = true ∧ a.configPending.isNone = true) .invalidState
  let proof ← if kind = 102 then completionCommitted sha256 codecs j c a sequence b
    else completionRestored sha256 j c a sequence b
  require (c.acceptedUtc ≤ proof.finished ∧ proof.finished < a.active.deadlineUtc) .invalidData
  pure { a with proof := some proof }

def errorCancelled : Nat := 1223
def errorGenFailure : Nat := 31
def resultMagic : Bytes := [0x4c, 0x34, 0x52, 0x53, 0x4c, 0x54, 0x30, 0x31]
def outcomeMagic : Bytes := [0x4c, 0x34, 0x52, 0x4f, 0x55, 0x54, 0x30, 0x31]

def identityResult (error : Nat) : Nat := if error = errorCancelled then 2 else 1

def outcomeValid (o : Outcome) : Prop :=
  (o.planSequence ≠ 0 ∧ o.planHash ≠ List.replicate 32 0 ∧ o.result.resolvedVersion ≠ []) ∧
    (outcomeSuccess ≤ o.result.result ∧ o.result.result ≤ outcomeRecoveryRequired) ∧
    (o.result.result = outcomeSuccess ↔ o.result.error = 0) ∧
    if o.result.result = outcomeRecoveryRequired then o.proofSequence = 0 ∧ o.proofHash = List.replicate 32 0
    else o.planSequence < o.proofSequence ∧ o.proofHash ≠ List.replicate 32 0

instance (o : Outcome) : Decidable (outcomeValid o) := by
  unfold outcomeValid
  infer_instance

def outcomeEncode (o : Outcome) : Option Bytes :=
  if outcomeValid o then
    let error := if o.result.error = 0 then errorGenFailure else o.result.error
    (codecs.resultEncode { o.result with error := error, result := identityResult error }).map fun bytes =>
      outcomeMagic ++ part bytes 8 8 ++ storeU32 o.result.result ++ storeU32 o.result.error ++ part bytes 24 176 ++
        storeU64 o.planSequence ++ o.planHash ++ storeU64 o.proofSequence ++ o.proofHash
  else none

def outcomeDecode (b : Bytes) : Option Outcome :=
  if b.length = 280 ∧ part b 0 8 = outcomeMagic then
    let error := u32 b 20
    let identity := resultMagic ++ part b 8 8 ++ storeU32 (identityResult error) ++
      storeU32 (if error = 0 then errorGenFailure else error) ++ part b 24 176
    (codecs.resultDecode identity).bind fun value =>
      let o : Outcome :=
        ⟨{ value with result := u32 b 16, error := error }, u64 b 200, part b 208 32, u64 b 240, part b 248 32⟩
      if outcomeEncode codecs o = some b then some o else none
  else none

def proves (o : Outcome) (p : Proof) : Bool :=
  o.proofSequence = p.sequence ∧ o.proofHash = p.hash ∧
    p.kind = (if o.result.result = outcomeSuccess then 102 else 108) ∧ p.finished ≤ o.result.finishedAt

def applyOutcome (a : Applied) (b : Bytes) : Except Win32Error Applied := do
  let o ← demand (outcomeDecode codecs b) .invalidData
  require (o.planSequence = c.planSequence ∧ o.planHash = c.operationHash) .invalidData
  require (o.result.result ≠ outcomeRecoveryRequired ∨ a.proof.isNone = true) .invalidState
  require (o.result.result = outcomeRecoveryRequired ∨ a.proof.any (proves o) = true) .revisionMismatch
  pure { a with outcome := some o }

def applyVisit (a : Applied) (kind : UInt32) (sequence : Nat) (b : Bytes) : Except Win32Error Applied :=
  if kind = 65 then applyState sha256 j c a b
  else do
    require (a.active.window ≠ 0 ∧ a.outcome = none) .invalidState
    require (a.proof.isNone = true ∨ kind = 103) .invalidState
    if kind = 21 ∨ kind = 22 then applyConfig c a kind sequence b
    else if kind = 107 then applyConfigAbandon c a b
    else if kind = 102 ∨ kind = 108 then applyCompletion sha256 codecs j c a kind sequence b
    else if kind = 103 then applyOutcome codecs c a b
    else applyAction c a kind sequence b

end Reducer

section Visit

variable {L : Type} (sha256 : Bytes → Digest) (codecs : Codecs L) (j : Journaled L)

/-- Everything that the records of the update refer to, for a typed plan of one hop whose
worker has its ticket confirmed. -/
def contextOf (s : Scan L) : Option (Context L) :=
  match s.original, s.request, s.planSequence, s.typedPlan, s.recovery, s.communication with
  | some original, some request, some planSequence, some plan, some recovery, some communication =>
    if s.receipt = true ∧ plan.hops = 1 then
      some ⟨original, request.acceptedUtc, planSequence, s.operationHash, plan, recovery, communication⟩
    else none
  | _, _, _, _, _, _ => none

def isApplied (kind : UInt32) : Prop := kind = 21 ∨ kind = 22 ∨ kind = 65 ∨ (100 ≤ kind ∧ kind ≤ 108)

instance (kind : UInt32) : Decidable (isApplied kind) := by
  unfold isApplied
  infer_instance

def visitOpen (s : Scan L) (kind : UInt32) : Prop :=
  s.terminal = false ∨ (kind = 65 ∧ s.applied.clear = none ∧
    s.applied.outcome.any (fun o => o.result.result ≠ outcomeRecoveryRequired) = true)

instance (s : Scan L) (kind : UInt32) : Decidable (visitOpen s kind) := by
  unfold visitOpen
  infer_instance

def handMagic : Bytes := [0x4c, 0x34, 0x48, 0x41, 0x4e, 0x44, 0x30, 0x31]

def hasNul : Bytes → Bool
  | low :: high :: rest => (low = 0 ∧ high = 0) || hasNul rest
  | _ => false

/-- The records before the update itself. -/
def visitPreparation (s : Scan L) (r : Record) : Except Win32Error (Scan L) :=
  let b := r.bytes
  if r.kind = 92 then do
    require (s.request.isNone = true ∧ r.sequence = 1) .invalidData
    let request ← demand (codecs.requestDecode j.roots b) .invalidData
    require (request.target = 1) .notSupported
    pure { s with request := some request }
  else if r.kind = 93 then do
    require (s.request.isSome = true ∧ s.original.isNone = true ∧ r.sequence = 2 ∧
      ((b.length = 112 ∧ u32 b 8 = 1) ∨ (b.length = 144 ∧ u32 b 8 = 2)) ∧ 0 ∈ part b 72 32) .invalidData
    let original ← demand (codecs.versionLayout j.roots (cString (part b 72 32))) .invalidData
    pure { s with original := some original }
  else if r.kind = 60 then do
    require (s.original.isSome = true ∧ s.route.isNone = true) .invalidData
    pure { s with route := some b }
  else if r.kind = 61 then do
    require (s.route.isSome = true ∧ s.packagesSequence.isNone = true) .invalidData
    pure s
  else if r.kind = 62 then do
    require (s.route.isSome = true ∧ s.packagesSequence.isNone = true) .invalidData
    pure { s with packagesSequence := some r.sequence }
  else if r.kind = 20 ∨ r.kind = 63 ∨ r.kind = 10 then do
    require (s.packagesSequence.isSome = true ∧ s.planSequence.isNone = true) .invalidState
    pure s
  else if r.kind = 64 then do
    let packages ← demand s.packagesSequence .invalidData
    require (s.planSequence.isNone = true) .invalidData
    let typed ← applyPlan j packages r.sequence b
    pure { s with
      planSequence := some r.sequence, operationHash := (storeHash sha256 b []).bytes, typedPlan := typed }
  else if r.kind = 94 then do
    require (s.original.isSome = true ∧ s.recovery.isNone = true) .invalidData
    let result ← demand (codecs.resultDecode b) .invalidData
    pure { s with terminal := true, result := some result }
  else if r.kind = 66 then do
    let original ← demand s.original .invalidData
    require (s.planSequence.isSome = true ∧ s.recovery.isNone = true) .invalidData
    let recovery ← demand (codecs.recoveryDecode original b) .invalidData
    require (recovery.operation = j.operation ∧ s.planSequence = some recovery.sequence) .invalidData
    pure { s with recovery := some recovery, recoveryHash := b.drop (b.length - 32) }
  else if r.kind = 67 then do
    require ((s.recovery.isSome = true ∧ s.task = false ∧ s.communication.isNone = true ∧ s.ticketHash.isNone = true) ∧
      (2 ≤ b.length ∧ b.length ≤ 65536 ∧ b.length % 2 = 0) ∧ hasNul b = false) .invalidData
    pure { s with task := true }
  else if r.kind = 70 then do
    let original ← demand s.original .invalidData
    let recovery ← demand s.recovery .invalidData
    require (s.task = true ∧ s.communication.isNone = true ∧ s.ticketHash.isNone = true) .invalidData
    let p ← demand (codecs.communicationDecode original b) .invalidData
    require ((p.operation = j.operation ∧ s.planSequence = some p.sequence ∧ p.operationHash = s.operationHash) ∧
      (p.workerPid = recovery.workerPid ∧ p.workerCreated = recovery.workerCreated) ∧
      (p.supervisorPid = recovery.supervisorPid ∧ p.supervisorCreated = recovery.supervisorCreated) ∧
      p.armedUtc = recovery.armedUtc ∧ p.deadlineUtc < recovery.deadlineUtc) .invalidData
    pure { s with communication := some p }
  else if r.kind = 68 then do
    let recovery ← demand s.recovery .invalidData
    let communication ← demand s.communication .invalidData
    require ((s.ticketHash.isNone = true ∧ b.length = 144 ∧ part b 0 8 = handMagic ∧ part b 8 16 = j.operation) ∧
      (s.planSequence = some (u64 b 24) ∧ u32 b 32 = recovery.workerPid ∧ part b 36 8 = recovery.workerCreated) ∧
      (part b 56 32 = s.recoveryHash ∧ communication.generation = (u64 b 88 + 1) % 2 ^ 64 ∧ u64 b 96 ≠ 0 ∧
        u32 b 140 = 0)) .invalidData
    pure { s with
      ticketHash := some (storeHash sha256 b []).bytes, parentPid := u32 b 44, parentBirth := u64 b 48 }
  else if r.kind = 69 then do
    require (s.ticketHash = some b ∧ s.receipt = false) .invalidData
    pure { s with receipt := true }
  else if r.kind = 95 then do
    require (s.recovery.isSome = true) .invalidData
    let failure ← demand (codecs.launchFailureDecode b) .invalidData
    require (s.planSequence = some failure.planSequence) .invalidData
    pure { s with terminal := true, result := some failure.result }
  else .error .invalidData

def visit (s : Scan L) (r : Record) : Except Win32Error (Scan L) := do
  require (visitOpen s r.kind) .invalidState
  if isApplied r.kind then do
    let c ← demand (contextOf s) .notSupported
    let a ← applyVisit sha256 codecs j c s.applied r.kind r.sequence r.bytes
    pure { s with applied := a, terminal := s.terminal || decide (r.kind = 103) }
  else visitPreparation sha256 codecs j s r

/-- The route that the host accepted, and the version it leads to. -/
def routeBinding (s : Scan L) (host : Host) (request : Request) : Except Win32Error Bytes := do
  let bytes ← demand s.route .invalidData
  let route ← demand (codecs.routeDecode bytes) .invalidData
  let source ← demand route.source .revisionMismatch
  let steps ← demand route.steps .revisionMismatch
  require (route.ownerTrusted = true ∧ source.version = host.sourceVersion ∧ route.requested = request.version ∧
    route.arch = host.arch ∧ steps.length ≤ maxReleases) .revisionMismatch
  let target := (steps.getLast?).getD source
  require (target.version.length < 32) .invalidData
  match s.applied.proof with
  | none => pure target.version
  | some p => do
    let expected := if p.kind = 102 then target else source
    require (cString p.version = expected.version ∧ cString p.arch = host.arch ∧ p.root = expected.manifest)
      .revisionMismatch
    pure target.version

/-- The checks behind the replay. -/
def statusBinding (s : Scan L) : Except Win32Error Unit := do
  let request ← demand s.request .invalidData
  let host ← match s.original with
    | none => pure none
    | some original => do
      let host ← demand (codecs.hostSnapshot original j.records) .invalidData
      require (host.request = request) .revisionMismatch
      pure (some host)
  require (s.ticketHash.isNone = true ∨
    host.any (fun h => s.parentPid = h.pid ∧ s.parentBirth = h.birth) = true) .revisionMismatch
  require (¬ s.applied.proof.any (fun p => p.kind = 102 ∧ ¬ host.any (fun h => cString p.updater = h.updaterVersion)) = true)
    .revisionMismatch
  let resolved ← match s.route, host with
    | none, _ => pure []
    | some _, none => .error .invalidData
    | some _, some h => routeBinding codecs s h request
  let reported := (s.applied.outcome.map Outcome.result).orElse fun _ => s.result
  require (s.terminal = false ∨ reported.any (fun r => (r.operationId = j.operationId ∧ r.target = request.target ∧
    r.startedAt = request.acceptedUtc ∧ r.requestedVersion = request.version) ∧
    r.previousVersion = ((host.map Host.sourceVersion).getD []) ∧ r.resolvedVersion = resolved) = true) .revisionMismatch

def remoteStatusSnapshot : Except Win32Error (Scan L) := do
  let s ← j.records.foldlM (visit sha256 codecs j) (freshScan L)
  statusBinding codecs j s
  pure s

def journalRecords (file : Bytes) : List Record := measured file.length (file.drop headerSize)

def statusOf (header : Bytes) (live grown : Bool) (file : Bytes) : Except Win32Error (Scan L) := do
  let reader ← JournalReader.readerOpen sha256 header live grown file
  remoteStatusSnapshot sha256 codecs { j with records := journalRecords reader.snapshot }

end Visit

end EtranProcessing.Deployment.RemoteStatus
