import EtranProcessing.Capture.IpcProtocol

namespace EtranProcessing.Desk.CaptureAdapter

open Library.LittleEndian Capture Capture.IpcProtocol

abbrev CString := { s : List UInt8 // 0 ∉ s }

def empty : CString := ⟨[], by simp⟩

def idSize : Nat := 64
def maxRestarts : Nat := 5
def restartWindowMs : UInt64 := 600000
def maxBackoffMs : Nat := 16000
def jitterMaxMs : Nat := 500

inductive State
  | idle | starting | running | stopping | restarting | failed
  deriving DecidableEq

structure StreamParams where
  leaseId : Option CString
  streamId : Option CString
  profile : Option CString
  sourceRect : IpcProtocol.Rect
  geometryGen : UInt64
  rtpPort : UInt16
  rtcpPort : UInt16
  deadlineTickMs : UInt64

/-- What is left of the parameters after the call: of the strings only pointers are saved. -/
structure SavedParams where
  sourceRect : IpcProtocol.Rect
  geometryGen : UInt64
  rtpPort : UInt16
  rtcpPort : UInt16
  deadlineTickMs : UInt64

def StreamParams.save (params : StreamParams) : SavedParams :=
  ⟨params.sourceRect, params.geometryGen, params.rtpPort, params.rtcpPort, params.deadlineTickMs⟩

/-- Children are named by numbers; the handles are those of the child that was launched last. -/
structure Adapter where
  process : Option Nat
  stdinWrite : Option Nat
  state : State
  leaseId : CString
  streamId : CString
  currentDeadlineTickMs : UInt64
  requestSeq : UInt64
  recoveryCount : UInt32
  restartTimestamps : Vector UInt64 maxRestarts
  restartTimestampIdx : UInt32
  nextRestartTick : UInt64
  restartPending : Bool
  savedParams : SavedParams
  hasSavedParams : Bool

def Adapter.init : Adapter where
  process := none
  stdinWrite := none
  state := .idle
  leaseId := empty
  streamId := empty
  currentDeadlineTickMs := 0
  requestSeq := 0
  recoveryCount := 0
  restartTimestamps := Vector.replicate maxRestarts 0
  restartTimestampIdx := 0
  nextRestartTick := 0
  restartPending := false
  savedParams := ⟨⟨0, 0, 0, 0⟩, 0, 0, 0, 0⟩
  hasSavedParams := false

/-- The answers of the system during one call; those asked for more than once are numbered. -/
structure Os where
  tick : Nat → UInt64
  random : Nat
  launched : Option Nat
  writes : Nat → Bool
  exits : Nat → Bool
  died : Bool
  /-- EVENT_READY arrives in time, from a child that read its command at this tick. -/
  ready : Option Nat
  /-- What the saved pointer to the profile shows at a restart. -/
  savedProfile : Option CString

inductive Call
  | start | renewLease | forceIdr | stop | destroy | restart
  deriving DecidableEq

def strToId16 (str : CString) : Id :=
  let out := copied 16 (str.val.take 16)
  if out.toList.all (· = 0) then out.set 0 0x01 else out

def ipcSend (type : UInt16) (payload : Bytes) (seq : UInt64) : Option Bytes :=
  if ipcMaxPayload < payload.length then none
  else some (store16 ipcVersion ++ store16 type ++ toBytes 4 payload.length ++ store64 seq ++ payload)

def lower (b : UInt8) : UInt8 := if 0x41 ≤ b ∧ b ≤ 0x5a then b + 0x20 else b

def stricmp (s : CString) (word : String) : Bool := s.val.map lower == word.toList.map fun c => UInt8.ofNat c.toNat

def profileToId (profile : Option CString) : UInt16 :=
  match profile with
  | none => 3
  | some profile => if stricmp profile "low" || stricmp profile "480p" then 1 else if stricmp profile "540p" then 2 else 3

def Call.type : Call → UInt16
  | .start | .restart => cmdStart
  | .renewLease => cmdRenewLease
  | .forceIdr => cmdForceIdr
  | .stop | .destroy => cmdStop

def rectBytes (rect : IpcProtocol.Rect) : Bytes :=
  store32 rect.left.toUInt32 ++ store32 rect.top.toUInt32 ++ store32 rect.right.toUInt32 ++ store32 rect.bottom.toUInt32

/-- The payload that each call builds by hand. -/
def Adapter.payload (ctx : Adapter) (profile : Option CString) : Call → Bytes
  | .start =>
      let params := ctx.savedParams
      (strToId16 ctx.leaseId).toList ++ (strToId16 ctx.streamId).toList ++ rectBytes params.sourceRect ++
        store64 params.geometryGen ++ store16 (profileToId profile) ++ store16 params.rtpPort ++ store16 params.rtcpPort ++
        store64 params.deadlineTickMs
  | .restart =>
      -- both identifiers cleared, and two bytes more before the deadline
      let params := ctx.savedParams
      List.replicate 16 0 ++ List.replicate 16 0 ++ rectBytes params.sourceRect ++ store64 params.geometryGen ++
        store16 (profileToId profile) ++ store16 params.rtpPort ++ store16 params.rtcpPort ++ store16 0 ++
        store64 params.deadlineTickMs
  | .renewLease => (strToId16 ctx.leaseId).toList ++ store64 ctx.currentDeadlineTickMs
  | .forceIdr => (strToId16 ctx.streamId).toList
  | .stop => (strToId16 ctx.streamId).toList
  | .destroy => List.replicate 16 0

/-- A frame with the call and the adapter that wrote it. -/
structure Written where
  call : Call
  ctx : Adapter
  profile : Option CString
  frame : Bytes
  sent : ipcSend call.type (ctx.payload profile call) ctx.requestSeq = some frame

inductive Effect
  | launched (child : Nat)
  | ended (child : Nat)
  | wrote (child : Nat) (written : Written)
  | ready (child : Nat) (tick : Nat)

abbrev Outcome := Bool × Adapter × List Effect

def after (effects : List Effect) (o : Outcome) : Outcome := (o.1, o.2.1, effects ++ o.2.2)

def Adapter.send (ctx : Adapter) (call : Call) (profile : Option CString) (writes : Bool) : Outcome :=
  let ctx := { ctx with requestSeq := ctx.requestSeq + 1 }
  match ctx.stdinWrite, hsent : ipcSend call.type (ctx.payload profile call) ctx.requestSeq with
  | some child, some frame => if writes then (true, ctx, [.wrote child ⟨call, ctx, profile, frame, hsent⟩]) else (false, ctx, [])
  | _, _ => (false, ctx, [])

def calcBackoffMs (attempt : UInt32) (random : Nat) : Nat :=
  min (1000 * 2 ^ min attempt.toNat 4) maxBackoffMs + random % (jitterMaxMs + 1)

def Adapter.recordRestartTimestamp (ctx : Adapter) (now : UInt64) : Adapter :=
  { ctx with
    restartTimestamps := ctx.restartTimestamps.set (ctx.restartTimestampIdx.toNat % maxRestarts) now (Nat.mod_lt _ (by decide))
    restartTimestampIdx := ctx.restartTimestampIdx + 1
    recoveryCount := ctx.recoveryCount + 1 }

def Adapter.isRestartBudgetAvailable (ctx : Adapter) (now : UInt64) : Bool :=
  ((List.range maxRestarts).filter fun i =>
    i < ctx.restartTimestampIdx.toNat &&
      now - ctx.restartTimestamps.toList.getD ((ctx.restartTimestampIdx - 1 - UInt32.ofNat i).toNat % maxRestarts) 0 <
        restartWindowMs).length < maxRestarts

def strcpyS (src : CString) : Option CString := if src.val.length < idSize then some src else none

def Adapter.cleanupProcess (ctx : Adapter) (exited : Bool) : Outcome :=
  let ctx := { ctx with stdinWrite := none }
  match ctx.process with
  | none => (true, ctx, [])
  | some child => if exited then (true, { ctx with process := none }, [.ended child]) else (false, ctx, [])

def Adapter.launchProcess (ctx : Adapter) (launched : Option Nat) : Outcome :=
  match launched with
  | none => (false, ctx, [])
  | some child => (true, { ctx with process := some child, stdinWrite := some child }, [.launched child])

def Adapter.failed (ctx : Adapter) (exited : Bool) : Outcome :=
  let (_, ctx, effects) := ctx.cleanupProcess exited
  (false, { ctx with state := .failed }, effects)

def Adapter.waitForReady (ctx : Adapter) (ready : Option Nat) : Option (List Effect) := do
  let child ← ctx.stdinWrite
  let tick ← ready
  some [.ready child tick]

/-- A START, and the wait for its answer. -/
def Adapter.open (ctx : Adapter) (call : Call) (profile : Option CString) (write exit : Nat) (os : Os) : Outcome :=
  let (sent, ctx, effects) := { ctx with requestSeq := 0 }.send call profile (os.writes write)
  if sent = false then after effects (ctx.failed (os.exits exit))
  else
    match ctx.waitForReady os.ready with
    | none => after effects (ctx.failed (os.exits exit))
    | some heard => (true, { ctx with state := .running }, effects ++ heard)

def Adapter.launchAndOpen (ctx : Adapter) (call : Call) (profile : Option CString) (write exit : Nat) (os : Os) : Outcome :=
  match ctx.launchProcess os.launched with
  | (false, ctx, effects) => (false, { ctx with state := .failed }, effects)
  | (true, ctx, effects) => after effects (ctx.open call profile write exit os)

def Adapter.farewell (ctx : Adapter) (call : Call) (writes : Bool) : Adapter × List Effect :=
  if ctx.stdinWrite.isSome ∧ ctx.streamId.val ≠ [] then (ctx.send call none writes).2 else (ctx, [])

/-- The end of a stop: without an exit of the process the state stays. -/
def Adapter.settle (ctx : Adapter) (exited : Bool) : Outcome :=
  let (exited, ctx, effects) := ctx.cleanupProcess exited
  (exited,
    if exited then
      { ctx with state := .idle, streamId := empty, leaseId := empty, currentDeadlineTickMs := 0, hasSavedParams := false }
    else ctx,
    effects)

def Adapter.stop (ctx : Adapter) (os : Os) : Outcome :=
  if ctx.state = .idle then (true, ctx, [])
  else if ctx.state = .stopping then ctx.settle (os.exits 0)
  else
    let (ctx, sent) := { ctx with restartPending := false, state := .stopping }.farewell .stop (os.writes 0)
    after sent (ctx.settle (os.exits 0))

def Adapter.accept (ctx : Adapter) (params : StreamParams) (leaseId streamId : CString) : Adapter :=
  { ctx with
    savedParams := params.save, hasSavedParams := true
    leaseId := leaseId, streamId := streamId
    currentDeadlineTickMs := params.deadlineTickMs
    state := .starting, requestSeq := 0 }

def Adapter.begin (ctx : Adapter) (params : StreamParams) (os : Os) : Option Outcome := do
  let leaseId ← params.leaseId.elim (some ctx.leaseId) strcpyS
  let streamId ← params.streamId.elim (some ctx.streamId) strcpyS
  some ((ctx.accept params leaseId streamId).launchAndOpen .start params.profile 1 1 os)

def Adapter.start (ctx : Adapter) (params : StreamParams) (os : Os) : Option Outcome :=
  if ctx.state = .running ∨ ctx.state = .starting then
    if params.streamId = some ctx.streamId ∧ ctx.streamId.val ≠ [] then some (true, ctx, [])
    else
      -- the stop may fail, which is not looked at
      let (_, ctx, effects) := ctx.stop os
      (ctx.begin params os).map (after effects)
  else ctx.begin params os

def Adapter.renewLease (ctx : Adapter) (leaseId : Option CString) (newDeadlineTickMs : UInt64) (os : Os) : Outcome :=
  if ctx.state ≠ .running then (false, ctx, [])
  else if leaseId.isSome ∧ ctx.leaseId.val ≠ [] ∧ leaseId ≠ some ctx.leaseId then (false, ctx, [])
  else if newDeadlineTickMs = ctx.currentDeadlineTickMs then (true, ctx, [])
  else if ctx.stdinWrite.isSome then
    (true, ({ ctx with currentDeadlineTickMs := newDeadlineTickMs }.send .renewLease none (os.writes 0)).2)
  else (true, { ctx with currentDeadlineTickMs := newDeadlineTickMs }, [])

def Adapter.forceIdr (ctx : Adapter) (os : Os) : Outcome :=
  if ctx.state ≠ .running then (false, ctx, [])
  else if ctx.stdinWrite.isNone then (false, ctx, [])
  else ctx.send .forceIdr none (os.writes 0)

/-- The check of a poll for a child that has exited. -/
def Adapter.checkExit (ctx : Adapter) (os : Os) : Adapter × List Effect :=
  match ctx.process with
  | none => (ctx, [])
  | some child =>
      if ctx.state = .running ∧ os.died then
        if ctx.hasSavedParams ∧ os.tick 1 < ctx.currentDeadlineTickMs ∧ ctx.isRestartBudgetAvailable (os.tick 2) then
          ({ ctx with
              process := none, stdinWrite := none
              nextRestartTick := os.tick 3 + UInt64.ofNat (calcBackoffMs ctx.recoveryCount os.random)
              restartPending := true, state := .restarting }, [.ended child])
        else ({ ctx with process := none, stdinWrite := none, state := .failed }, [.ended child])
      else (ctx, [])

def Adapter.executeRestart (ctx : Adapter) (os : Os) : Adapter × List Effect :=
  if ctx.state = .restarting ∧ ctx.restartPending then
    if 0 < ctx.currentDeadlineTickMs ∧ ctx.currentDeadlineTickMs ≤ os.tick 4 then
      ({ ctx with restartPending := false, state := .idle }, [])
    else if ctx.nextRestartTick ≤ os.tick 5 then
      (({ ctx with restartPending := false }.recordRestartTimestamp (os.tick 6)).launchAndOpen .restart os.savedProfile 0 0 os).2
    else (ctx, [])
  else (ctx, [])

def Adapter.poll (ctx : Adapter) (os : Os) : Adapter × List Effect :=
  if ctx.state = .idle then (ctx, [])
  else if ctx.state = .running ∧ 0 < ctx.currentDeadlineTickMs ∧ ctx.currentDeadlineTickMs ≤ os.tick 0 then (ctx.stop os).2
  else
    let (ctx, ended) := ctx.checkExit os
    let (ctx, effects) := ctx.executeRestart os
    (ctx, ended ++ effects)

def Adapter.isRunning (ctx : Adapter) : Bool := ctx.state = .running

def Adapter.destroy (ctx : Adapter) (os : Os) : List Effect :=
  if ctx.state ≠ .idle then
    let (ctx, sent) := ctx.farewell .destroy (os.writes 0)
    sent ++ (ctx.cleanupProcess (os.exits 0)).2.2
  else []

end EtranProcessing.Desk.CaptureAdapter
