import EtranProcessing.Deployment.UpdateMarker

namespace EtranProcessing.Deployment.CommunicationRecovery

open UpdateMarker

structure Budget where
  verifyMs : UInt32
  workerMs : UInt32
  lockMs : UInt32
  proxyMs : UInt32
  brokerPrepareMs : UInt32
  mosquittoMs : UInt32
  channelMs : UInt32
  totalMs : UInt32
  deriving DecidableEq

inductive Step where
  | stopProxy
  | restoreProxy
  | startProxy
  | probeProxy
  | proxyChannels
  | stopMosquitto
  | restoreMosquitto
  | startMosquitto
  | probeMosquitto
  | finalBarrier
  deriving DecidableEq

def Step.all : List Step :=
  [.stopProxy, .restoreProxy, .startProxy, .probeProxy, .proxyChannels, .stopMosquitto, .restoreMosquitto, .startMosquitto,
    .probeMosquitto, .finalBarrier]

inductive Callback where
  | verify
  | workerExit
  | lock
  | step (s : Step)
  deriving DecidableEq

/-- A call of a callback: the end of its phase, the time it has, its answer, and the clock before and after it. -/
structure Called where
  callback : Callback
  deadline : UInt64
  before : UInt64
  remaining : UInt32
  answered : Bool
  after : UInt64
  deriving DecidableEq

structure Ops where
  monotonic : Nat → UInt64
  utc : UInt64
  answer : Nat → Bool × UInt32

structure Progress where
  readings : Nat
  calls : List Called

inductive Outcome where
  | failed
  | verified
  | connectivityUnconfirmed
  deriving DecidableEq

structure Result where
  outcome : Outcome
  error : UInt32
  completed : Nat
  deriving DecidableEq

inductive Event where
  | called (c : Called)
  | unlock
  deriving DecidableEq

def success : UInt32 := 0
def notReady : UInt32 := 21
def invalidParameter : UInt32 := 87
def alreadyExists : UInt32 := 183
def arithmeticOverflow : UInt32 := 534
def timeout : UInt32 := 1460

def small (value : UInt32) : Bool := 100 ≤ value && value ≤ 300000

def budgetValid (b : Budget) : Bool :=
  small b.verifyMs && small b.workerMs && small b.lockMs && small b.proxyMs && small b.brokerPrepareMs &&
    b.mosquittoMs = 300000 && small b.channelMs &&
    2 * b.verifyMs.toNat + b.workerMs.toNat + b.lockMs.toNat + b.proxyMs.toNat + b.brokerPrepareMs.toNat + b.mosquittoMs.toNat +
      2 * b.channelMs.toNat ≤ b.totalMs.toNat && b.totalMs ≤ 3600000

def valid (s : UpdateState) : Bool :=
  s.window = 1 && s.generation ≠ 0 && s.planSequence ≠ 0 && s.deadlineUtc ≠ 0 && ownerValid s.owner

def left (now deadline : UInt64) : UInt32 := if now < deadline then (deadline - now).toUInt32 else 0

def phase (ops : Ops) (total : UInt64) (ms : UInt32) (p : Progress) : UInt64 × Progress :=
  let now := ops.monotonic p.readings
  let finish := now + ms.toUInt64
  (if finish < now ∨ total < finish then total else finish, { p with readings := p.readings + 1 })

structure Checked where
  ok : Bool
  returned : Bool
  error : UInt32
  progress : Progress

/-- `checked` behind a callback that has been called with the time that was left. -/
def invoke (ops : Ops) (callback : Callback) (deadline : UInt64) (p : Progress) : Checked :=
  let before := ops.monotonic p.readings
  let (answered, code) := ops.answer p.calls.length
  let after := ops.monotonic (p.readings + 1)
  let calls := p.calls ++ [⟨callback, deadline, before, left before deadline, answered, after⟩]
  if left after deadline = 0 then ⟨false, answered, timeout, p.readings + 2, calls⟩
  else if answered then ⟨true, true, success, p.readings + 2, calls⟩
  else ⟨false, false, if code ≠ 0 then code else notReady, p.readings + 2, calls⟩

def attempt (ops : Ops) (callback : Callback) (deadline : UInt64) (p : Progress) : Checked :=
  if left (ops.monotonic p.readings) deadline = 0 then
    ⟨false, false, if left (ops.monotonic (p.readings + 1)) deadline = 0 then timeout else notReady, p.readings + 2, p.calls⟩
  else invoke ops callback deadline p

def phased (ops : Ops) (total : UInt64) (callback : Callback) (ms : UInt32) (c : Checked) : Checked :=
  let (deadline, p) := phase ops total ms c.progress
  if c.ok then attempt ops callback deadline p else { c with returned := false, progress := p }

def Step.begins (b : Budget) : Step → Option UInt32
  | .proxyChannels => some b.channelMs
  | .finalBarrier => some b.channelMs
  | .stopMosquitto => some b.brokerPrepareMs
  | .startMosquitto => some b.mosquittoMs
  | _ => none

def entered (ops : Ops) (b : Budget) (total : UInt64) (s : Step) (deadline : UInt64) (p : Progress) : UInt64 × Progress :=
  match s.begins b with
  | some ms => phase ops total ms p
  | none => (deadline, p)

structure Stepped where
  ok : Bool
  error : UInt32
  completed : Nat
  unconfirmed : Bool
  progress : Progress

def steps (ops : Ops) (b : Budget) (total : UInt64) : List Step → UInt64 → Progress → Nat → Stepped
  | [], _, p, completed => ⟨true, success, completed, false, p⟩
  | s :: rest, deadline, p, completed =>
      let (deadline, p) := entered ops b total s deadline p
      if left (ops.monotonic p.readings) deadline = 0 then
        ⟨false, timeout, completed, s = .finalBarrier, { p with readings := p.readings + 1 }⟩
      else
        let c := invoke ops (.step s) deadline p
        if c.ok then steps ops b total rest deadline c.progress (completed + 1)
        else ⟨false, c.error, completed, s = .finalBarrier, c.progress⟩

structure Recovery where
  ok : Bool
  result : Result
  events : List Event

def finished (done : Stepped) (locked : Bool) : Recovery :=
  ⟨done.ok,
    ⟨if done.ok then .verified else if done.unconfirmed then .connectivityUnconfirmed else .failed,
      if done.ok then success else done.error, done.completed⟩,
    done.progress.calls.map .called ++ if locked then [.unlock] else []⟩

/-- What follows once the attempt has been taken. -/
def execute (ops : Ops) (b : Budget) : Recovery :=
  let now := ops.monotonic 0
  let total := now + b.totalMs.toUInt64
  let started : Checked := ⟨now ≤ total, false, if now ≤ total then success else arithmeticOverflow, 1, []⟩
  let verified := phased ops total .verify b.verifyMs started
  let exited := phased ops total .workerExit b.workerMs verified
  let locked := phased ops total .lock b.lockMs exited
  let owned := phased ops total .verify b.verifyMs locked
  let (deadline, p) := phase ops total b.proxyMs owned.progress
  finished (if owned.ok then steps ops b total Step.all deadline p 0 else ⟨false, owned.error, 0, false, p⟩) locked.returned

def refused (error : UInt32) : Recovery := ⟨false, ⟨.failed, error, 0⟩, []⟩

def communicationRecover (spent : Bool) (input : UpdateState) (b : Budget) (ops : Ops) (bootReconciled : Bool) : Recovery × Bool :=
  if valid input = false ∨ budgetValid b = false then (refused invalidParameter, spent)
  else if bootReconciled = false ∧ ops.utc < input.deadlineUtc then (refused notReady, spent)
  else if spent then (refused alreadyExists, spent)
  else (execute ops b, true)

end EtranProcessing.Deployment.CommunicationRecovery
