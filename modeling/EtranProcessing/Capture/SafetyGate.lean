import EtranProcessing.Capture.Limits

namespace EtranProcessing.Capture.SafetyGate

open Limits

abbrev Id := Vector UInt8 16

def nonzeroId (id : Id) : Bool := id.toList.any (· ≠ 0)

structure Deadline where
  deadlineTickMs : Nat
  lastSeq : Nat
  lastTickMs : Nat
  active : Bool
  expired : Bool
  deriving DecidableEq, Repr

def Deadline.check (lease : Deadline) (now : Nat) : Status × Deadline :=
  if lease.active = false then (.invalidArg, lease)
  else if lease.expired = true ∨ now < lease.lastTickMs ∨ lease.deadlineTickMs ≤ now then
    (.deadlineExpired, { lease with expired := true })
  else (.ok, { lease with lastTickMs := now })

def Deadline.start (lease : Deadline) (deadline seq now : Nat) : Status × Deadline :=
  if seq = 0 then (.invalidArg, lease)
  else if lease.active = true ∨ lease.expired = true then (.protocol, lease)
  else Deadline.check { lease with deadlineTickMs := deadline, lastSeq := seq, lastTickMs := now, active := true } now

def Deadline.renew (lease : Deadline) (deadline seq now : Nat) : Status × Deadline × Bool :=
  match lease.check now with
  | (.ok, lease) =>
      if seq ≤ lease.lastSeq ∨ deadline ≤ lease.deadlineTickMs then (.ok, lease, false)
      else (.ok, { lease with deadlineTickMs := deadline, lastSeq := seq }, true)
  | (status, lease) => (status, lease, false)

structure Pipeline where
  processing : Bool
  pending : Bool
  stopped : Bool
  deriving DecidableEq, Repr

def Pipeline.stop (_ : Pipeline) : Pipeline := ⟨false, false, true⟩

structure Start where
  leaseId : Id
  streamId : Id
  sourceRect : Rect
  geometryGen : Nat
  profileId : Nat
  rtpPort : Nat
  rtcpPort : Nat
  deadlineTickMs : Nat
  deriving DecidableEq, Repr

inductive Body
  | start (start : Start)
  | renewLease (leaseId : Id) (newDeadlineTickMs : Nat)
  | stop (streamId : Id)
  | forceIdr (streamId : Id)
  | other (type : Nat)
  deriving DecidableEq, Repr

structure Message where
  requestSeq : Nat
  body : Body
  deriving DecidableEq, Repr

structure Gate where
  stopEvent : Bool
  lease : Deadline
  pipeline : Pipeline
  leaseId : Id
  streamId : Id
  started : Bool
  stopped : Bool
  idrPending : Bool
  idrSent : Bool
  lastIdrMs : Nat
  lastCommandSeq : Nat
  reason : Status
  lastStart : Option Start
  deriving DecidableEq, Repr

def Gate.init : Gate where
  stopEvent := false
  lease := ⟨0, 0, 0, false, false⟩
  pipeline := ⟨false, false, false⟩
  leaseId := Vector.replicate 16 0
  streamId := Vector.replicate 16 0
  started := false
  stopped := false
  idrPending := false
  idrSent := false
  lastIdrMs := 0
  lastCommandSeq := 0
  reason := .ok
  lastStart := none

def Gate.stopLocked (g : Gate) (reason : Status) : Gate :=
  if g.stopped then g
  else { g with stopped := true, reason := reason, idrPending := false, pipeline := g.pipeline.stop, stopEvent := true }

def Gate.checkLocked (g : Gate) (now : Nat) : Status × Gate :=
  if g.stopped then (g.reason, g)
  else if g.started then
    -- a caller may have read its tick before another one that took the lock first
    let (status, lease) := g.lease.check (if now < g.lease.lastTickMs then g.lease.lastTickMs else now)
    let g := { g with lease := lease }
    (status, if status ≠ .ok then g.stopLocked status else g)
  else (.ok, g)

def Gate.stop (g : Gate) (reason : Status) : Gate := g.stopLocked reason

def Gate.check (g : Gate) (now : Nat) (desktopAvailable : Bool) : Status × Gate :=
  (if desktopAvailable then g else g.stopLocked .sessionUnavailable).checkLocked now

def Start.refused (start : Start) : Bool :=
  !nonzeroId start.leaseId || !nonzeroId start.streamId || start.profileId < 1 || 3 < start.profileId ||
    start.rtpPort != 5004 || start.rtcpPort != 5005

def Gate.apply (g : Gate) (m : Message) (now : Nat) : Status × Gate :=
  match m.body with
  | .start start =>
      if g.started || start.refused then (.protocol, g)
      else match rectLayout start.sourceRect with
        | .error status => (status, g)
        | .ok _ =>
            let (status, lease) := g.lease.start start.deadlineTickMs m.requestSeq now
            let g := { g with lease := lease }
            if status ≠ .ok then (status, g)
            else
              (.ok, { g with
                leaseId := start.leaseId, streamId := start.streamId, started := true
                lastCommandSeq := m.requestSeq, lastStart := some start })
  | .renewLease leaseId newDeadlineTickMs =>
      if g.started = false then (.protocol, g)
      else if leaseId ≠ g.leaseId then (.protocol, g)
      else if m.requestSeq ≤ g.lastCommandSeq then (.ok, g)
      else
        let (status, lease, applied) := g.lease.renew newDeadlineTickMs m.requestSeq now
        (status, { g with lease := lease, lastCommandSeq := if applied then m.requestSeq else g.lastCommandSeq })
  | .stop streamId =>
      if g.started = false then (.protocol, g)
      else if streamId ≠ g.streamId then (.protocol, g)
      else (.ok, g.stopLocked .ok)
  | .forceIdr streamId =>
      if g.started = false then (.protocol, g)
      else if streamId ≠ g.streamId then (.protocol, g)
      else if g.lastCommandSeq < m.requestSeq then
        (.ok, { g with lastCommandSeq := m.requestSeq, idrPending := true })
      else (.ok, g)
  | .other _ => (.protocol, g)

def Gate.done (status : Status) (g : Gate) : Status × Gate :=
  (status, if status ≠ .ok then g.stopLocked status else g)

def Gate.stopsStream (g : Gate) (m : Message) : Bool :=
  match m.body with
  | .stop streamId => g.started && streamId == g.streamId
  | _ => false

def Gate.command (g : Gate) (message : Option Message) (now : Nat) : Status × Gate :=
  match message with
  | none => (.invalidArg, g)
  | some m =>
      if g.stopped then Gate.done (if g.stopsStream m then g.reason else .protocol) g
      else
        let (status, g) := g.checkLocked now
        if status ≠ .ok then Gate.done status g
        else
          let now := if g.started ∧ now < g.lease.lastTickMs then g.lease.lastTickMs else now
          if m.requestSeq = 0 then Gate.done .protocol g
          else
            let (status, g) := g.apply m now
            Gate.done status g

def Gate.canSend (g : Gate) (now : Nat) (desktopAvailable : Bool) : Bool × Gate :=
  let g := ((if desktopAvailable then g else g.stopLocked .sessionUnavailable).checkLocked now).2
  (g.started && !g.stopped, g)

def Gate.takeIdr (g : Gate) (now : Nat) : Bool × Gate :=
  let g := (g.checkLocked now).2
  if g.stopped = false ∧ g.started = true ∧ g.idrPending = true ∧
      (g.idrSent = false ∨ g.lastIdrMs ≤ now ∧ forceIdrMinIntervalMs ≤ now - g.lastIdrMs) then
    (true, { g with idrSent := true, idrPending := false, lastIdrMs := now })
  else (false, g)

inductive Event
  | command (message : Option Message) (now : Nat)
  | check (now : Nat) (desktopAvailable : Bool)
  | canSend (now : Nat) (desktopAvailable : Bool)
  | takeIdr (now : Nat)
  | stop (reason : Status)
  deriving DecidableEq, Repr

def step (g : Gate) : Event → Gate
  | .command message now => (g.command message now).2
  | .check now desktopAvailable => (g.check now desktopAvailable).2
  | .canSend now desktopAvailable => (g.canSend now desktopAvailable).2
  | .takeIdr now => (g.takeIdr now).2
  | .stop reason => g.stop reason

def grants (g : Gate) : Event → Bool
  | .canSend now desktopAvailable => (g.canSend now desktopAvailable).1
  | .takeIdr now => (g.takeIdr now).1
  | _ => false

def Event.tick : Event → Option Nat
  | .command (some _) now => some now
  | .check now _ => some now
  | .canSend now _ => some now
  | .takeIdr now => some now
  | _ => none

end EtranProcessing.Capture.SafetyGate
