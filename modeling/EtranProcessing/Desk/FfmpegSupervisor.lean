import EtranProcessing.Desk.Inventory

namespace EtranProcessing.Desk.FfmpegSupervisor

open Capture CaptureAdapter Inventory

inductive StreamState
  | stopped | starting | running | restarting | stopping | failed | sourceUnavailable | sessionUnavailable
  deriving DecidableEq

structure Supervisor where
  streamInstanceId : CString
  leaseId : CString
  mode : CString
  sourceId : CString
  profile : CString
  cameraDevicePath : CString
  cameraName : CString
  desktopRect : IpcProtocol.Rect
  state : StreamState
  restartCount : Nat
  restartWindowStart : Int
  lastProgressTime : Int
  nextRestartTime : Nat
  leaseExpiresAtMs : Nat
  process : Option Nat
  mediaBackend : CString
  backend : Option Adapter

def Supervisor.init (mediaBackend : CString) : Supervisor where
  streamInstanceId := empty
  leaseId := empty
  mode := empty
  sourceId := empty
  profile := empty
  cameraDevicePath := empty
  cameraName := empty
  desktopRect := ⟨0, 0, 0, 0⟩
  state := .stopped
  restartCount := 0
  restartWindowStart := 0
  lastProgressTime := 0
  nextRestartTime := 0
  leaseExpiresAtMs := 0
  process := none
  mediaBackend := mediaBackend
  backend := none

/-- The answers of the system during one call; the calls of the adapter inside it are numbered. -/
structure World where
  nowMs : Nat
  nowTick : UInt64
  time : Int
  random : Nat
  fastBackoff : Bool
  interactive : Bool
  ffmpegPresent : Bool
  cmdlineBuilt : Bool
  ffmpegLaunched : Option Nat
  ffmpegDied : Bool
  backendCreated : Bool
  adapter : Nat → Os

abbrev Result := Bool × Supervisor × List Effect

def isDesktop (mode : CString) : Bool := stricmp mode "desktop"
def isCamera (mode : CString) : Bool := stricmp mode "usb-camera"

def calculateRestartDelayMs (count random : Nat) (fastBackoff : Bool) : Nat :=
  if fastBackoff then 50 else min (2 ^ max (min count 5) 1) 30 * 1000 + random % 1000

def fits (size : Nat) (s : CString) : Option Unit := if s.val.length < size then some () else none

def Supervisor.cleanupProcessHandles (s : Supervisor) : Supervisor × List Effect :=
  match s.process with
  | none => (s, [])
  | some child => ({ s with process := none }, [.ended child])

def Supervisor.cleared (s : Supervisor) : Supervisor :=
  { s with
    state := .stopped
    streamInstanceId := empty, leaseId := empty, mode := empty, sourceId := empty, profile := empty
    cameraDevicePath := empty, cameraName := empty
    nextRestartTime := 0, leaseExpiresAtMs := 0 }

def Supervisor.stopActiveStream (s : Supervisor) (w : World) : Result :=
  let s := if s.streamInstanceId.val ≠ [] then { s with state := .stopping } else s
  match s.backend with
  | none =>
      let (s, effects) := s.cleanupProcessHandles
      (true, s.cleared, effects)
  | some ctx =>
      let (exited, ctx, sent) := ctx.stop (w.adapter 0)
      let s := { s with backend := some ctx }
      if exited = false then (false, s, sent)
      else
        let (s, effects) := s.cleanupProcessHandles
        (true, s.cleared, sent ++ effects)

def Supervisor.launchFfmpegProcess (s : Supervisor) (w : World) : Result :=
  match w.ffmpegLaunched with
  | none => (false, s, [])
  | some child => (true, { s with process := some child, lastProgressTime := w.time, state := .running }, [.launched child])

/-- The recovery of a stream, by FFmpeg in any mode. -/
def Supervisor.restartFfmpegProcess (s : Supervisor) (inv : Option SystemInventory) (w : World) : Result :=
  if w.ffmpegPresent = false then (false, s, [])
  else if isDesktop s.mode then
    let display := inv.bind fun inv => inv.findDisplay s.sourceId
    if display.any fun display => stricmp display.policy "denied" then (false, s, [])
    else
      let s := { s with desktopRect := display.elim s.desktopRect (·.rect) }
      if w.interactive = false ∨ w.cmdlineBuilt = false then (false, s, []) else s.launchFfmpegProcess w
  else if isCamera s.mode then
    let camera := inv.bind fun inv => inv.findCamera s.sourceId
    if camera.any fun camera => camera.available = false then (false, s, [])
    else if (camera.elim s.cameraDevicePath (·.devicePath)).val = [] ∨ w.cmdlineBuilt = false then (false, s, [])
    else s.launchFfmpegProcess w
  else (false, s, [])

/-- What a start finds in the inventory; no value when it refuses. -/
inductive Source
  | display (display : DisplayInfo)
  | camera (camera : CameraInfo)

def findSource (mode sourceId : CString) (inv : SystemInventory) (w : World) : Option Source :=
  if isDesktop mode then do
    let display ← inv.findDisplay sourceId
    if stricmp display.policy "denied" || !w.interactive then none else some (.display display)
  else if isCamera mode then do
    let camera ← inv.findCamera sourceId
    if camera.available then some (.camera camera) else none
  else none

/-- The stream that a start has admitted, before anything is launched. -/
def Supervisor.admitted (s : Supervisor) (streamInstanceId leaseId mode profile : CString) (source : Source) : Supervisor :=
  { s with
    streamInstanceId := streamInstanceId, leaseId := leaseId, mode := mode, profile := profile
    sourceId := match source with
      | .display display => display.desktopId
      | .camera camera => camera.cameraId
    cameraDevicePath := match source with
      | .display _ => empty
      | .camera camera => camera.devicePath
    cameraName := match source with
      | .display _ => empty
      | .camera camera => camera.name
    desktopRect := match source with
      | .display display => display.rect
      | .camera _ => ⟨0, 0, 0, 0⟩
    restartCount := 0, restartWindowStart := 0, nextRestartTime := 0, leaseExpiresAtMs := 0
    state := .starting }

def Supervisor.launchFfmpeg (s : Supervisor) (w : World) : Result :=
  if w.ffmpegPresent = false ∨ w.cmdlineBuilt = false then (false, { s with state := .failed }, [])
  else
    match s.launchFfmpegProcess w with
    | (false, s, effects) => (false, { s with state := .failed }, effects)
    | (true, s, effects) => (true, s, effects)

/-- The lease of the stream was cleared before, so the deadline is always the later one. -/
def Supervisor.captureParams (s : Supervisor) (w : World) : StreamParams where
  leaseId := some s.leaseId
  streamId := some s.streamInstanceId
  profile := some s.profile
  sourceRect := s.desktopRect
  geometryGen := 0
  rtpPort := 5004
  rtcpPort := 5005
  deadlineTickMs :=
    if 0 < s.leaseExpiresAtMs ∧ w.nowMs < s.leaseExpiresAtMs then w.nowTick + UInt64.ofNat (s.leaseExpiresAtMs - w.nowMs)
    else w.nowTick + 120000

/-- A start by l4capture, with FFmpeg when that fails. -/
def Supervisor.launchCapture (s : Supervisor) (w : World) : Option Result :=
  match s.backend.or (if w.backendCreated then some Adapter.init else none) with
  | none => some (s.launchFfmpeg w)
  | some ctx => do
      let (started, ctx, effects) ← ctx.start (s.captureParams w) (w.adapter 0)
      if started then some (true, { s with backend := some ctx, state := .running }, effects)
      else
        let (launched, s, more) := { s with backend := none }.launchFfmpeg w
        some (launched, s, effects ++ ctx.destroy (w.adapter 1) ++ more)

def Supervisor.launch (s : Supervisor) (w : World) : Option Result :=
  if stricmp s.mediaBackend "l4capture" && isDesktop s.mode then s.launchCapture w else some (s.launchFfmpeg w)

def Supervisor.controlledSwitch (s : Supervisor) : Supervisor × List Effect :=
  if s.state = .running ∨ s.state = .restarting then
    let (s, ended) := s.cleanupProcessHandles
    ({ s with state := .stopped }, ended)
  else (s, [])

/-- No value where a copy aborts the process. -/
def Supervisor.start (s : Supervisor) (streamInstanceId leaseId mode sourceId profile : CString) (inv : SystemInventory) (w : World) :
    Option Result :=
  if s.state = .starting ∨ s.state = .stopping then some (false, s, [])
  else if inv.isProfileAllowed profile = false then some (false, s, [])
  else
    match findSource mode sourceId inv w with
    | none => some (false, s, [])
    | some source =>
        if s.state = .running ∧ s.sourceId = sourceId ∧ s.streamInstanceId = streamInstanceId then some (true, s, [])
        else do
          let (s, ended) := s.controlledSwitch
          fits 64 streamInstanceId
          fits 64 leaseId
          fits 32 mode
          fits 32 profile
          let (launched, s, effects) ← (s.admitted streamInstanceId leaseId mode profile source).launch w
          some (launched, s, ended ++ effects)

def Supervisor.stop (s : Supervisor) (streamInstanceId leaseId : CString) (w : World) : Result :=
  if s.state = .stopped then (true, s, [])
  else if s.leaseId.val ≠ [] ∧ leaseId.val ≠ [] ∧ s.leaseId ≠ leaseId then (false, s, [])
  else if streamInstanceId.val ≠ [] ∧ s.streamInstanceId ≠ streamInstanceId then (false, s, [])
  else s.stopActiveStream w

def Supervisor.stopWithReason (s : Supervisor) (w : World) : Result :=
  if s.state = .stopped then (true, s, []) else s.stopActiveStream w

def Supervisor.updateLease (s : Supervisor) (leaseId : CString) (expiresAtMs : Nat) (w : World) : Supervisor × List Effect :=
  if s.leaseId.val = [] ∨ leaseId.val ≠ [] ∧ s.leaseId = leaseId then
    if s.leaseExpiresAtMs < expiresAtMs then
      let s := { s with leaseExpiresAtMs := expiresAtMs }
      match s.backend with
      | none => (s, [])
      | some ctx =>
          let (_, ctx, effects) := ctx.renewLease (some leaseId) (w.nowTick + UInt64.ofNat (expiresAtMs - w.nowMs)) (w.adapter 0)
          ({ s with backend := some ctx }, effects)
    else (s, [])
  else (s, [])

/-- One more restart in the window of ten minutes: another try, or the end of them. -/
def Supervisor.countRestart (s : Supervisor) (w : World) : Supervisor :=
  let s :=
    if s.restartWindowStart = 0 ∨ 600 < w.time - s.restartWindowStart then
      { s with restartWindowStart := w.time, restartCount := 0 }
    else s
  let s := { s with restartCount := s.restartCount + 1 }
  if 5 < s.restartCount then { s with state := .failed, nextRestartTime := 0 }
  else
    { s with
      nextRestartTime := w.nowMs + calculateRestartDelayMs s.restartCount w.random w.fastBackoff
      state := .restarting }

def Supervisor.pollBackend (s : Supervisor) (w : World) : Supervisor × List Effect :=
  match s.backend with
  | none => (s, [])
  | some ctx =>
      let (ctx, effects) := ctx.poll (w.adapter 0)
      let s := { s with backend := some ctx }
      (if s.state = .running ∧ ctx.isRunning = false then { s with state := .failed } else s, effects)

def Supervisor.leaseOver (s : Supervisor) (w : World) : Prop :=
  (s.state = .running ∨ s.state = .restarting) ∧ 0 < s.leaseExpiresAtMs ∧ s.leaseExpiresAtMs + 5000 < w.nowMs

instance (s : Supervisor) (w : World) : Decidable (s.leaseOver w) := inferInstanceAs (Decidable (_ ∧ _))

def Supervisor.recover (s : Supervisor) (inv : Option SystemInventory) (w : World) : Supervisor × List Effect :=
  if 0 < s.nextRestartTime ∧ s.nextRestartTime ≤ w.nowMs then
    let (s, ended) := s.cleanupProcessHandles
    match s.restartFfmpegProcess inv w with
    | (true, s, effects) => ({ s with state := .running, nextRestartTime := 0 }, ended ++ effects)
    | (false, s, effects) => (s.countRestart w, ended ++ effects)
  else (s, [])

def Supervisor.sourceGone (s : Supervisor) (inv : Option SystemInventory) : Bool :=
  inv.any fun inv =>
    if isDesktop s.mode then (inv.findDisplay s.sourceId).isNone
    else if isCamera s.mode then !(inv.findCamera s.sourceId).any (·.available)
    else false

def Supervisor.stalled (s : Supervisor) (w : World) : Prop := 0 < s.lastProgressTime ∧ 10 < w.time - s.lastProgressTime

instance (s : Supervisor) (w : World) : Decidable (s.stalled w) := inferInstanceAs (Decidable (_ ∧ _))

/-- The checks of a stream that runs. -/
def Supervisor.watch (s : Supervisor) (inv : Option SystemInventory) (w : World) : Supervisor × List Effect :=
  if s.process.isSome ∧ w.ffmpegDied then
    let (s, ended) := s.cleanupProcessHandles
    (s.countRestart w, ended)
  else if isDesktop s.mode ∧ w.interactive = false then
    let (s, ended) := s.cleanupProcessHandles
    ({ s with state := .sessionUnavailable, nextRestartTime := 0 }, ended)
  else if s.sourceGone inv then
    let (s, ended) := s.cleanupProcessHandles
    ({ s with state := .sourceUnavailable, nextRestartTime := 0 }, ended)
  else if s.stalled w then
    let (s, ended) := s.cleanupProcessHandles
    (s.countRestart w, ended)
  else (s, [])

def Supervisor.tick (s : Supervisor) (inv : Option SystemInventory) (w : World) : Supervisor × List Effect :=
  let (s, polled) := s.pollBackend w
  if s.leaseOver w then
    let (s, ended) := s.cleanupProcessHandles
    (s.cleared, polled ++ ended)
  else if s.state = .restarting then
    let (s, effects) := s.recover inv w
    (s, polled ++ effects)
  else if s.state = .running then
    let (s, effects) := s.watch inv w
    (s, polled ++ effects)
  else (s, polled)

end EtranProcessing.Desk.FfmpegSupervisor
