import EtranProcessing.Capture.IpcFraming
import EtranProcessing.Desk.CaptureAdapter

namespace EtranProcessing.Desk.CaptureLink

open Capture Limits SafetyGate CaptureAdapter

def toRect (rect : IpcProtocol.Rect) : Limits.Rect :=
  ⟨rect.left.toInt, rect.top.toInt, rect.right.toInt, rect.bottom.toInt⟩

def toStart (start : IpcProtocol.Start) : Start where
  leaseId := start.leaseId
  streamId := start.streamId
  sourceRect := toRect start.sourceRect
  geometryGen := start.geometryGen.toNat
  profileId := start.profileId.toNat
  rtpPort := start.rtpPort.toNat
  rtcpPort := start.rtcpPort.toNat
  deadlineTickMs := start.deadlineTickMs.toNat

def toBody : IpcProtocol.Body → Body
  | .start start => .start (toStart start)
  | .renewLease leaseId newDeadlineTickMs => .renewLease leaseId newDeadlineTickMs.toNat
  | .stop streamId => .stop streamId
  | .forceIdr streamId => .forceIdr streamId
  | body => .other body.type.toNat

def toMessage (m : IpcProtocol.Message) : Message := ⟨m.requestSeq.toNat, toBody m.body⟩

structure Child where
  gate : Gate
  pipe : List Written

abbrev Children := Nat → Option Child

def put (c : Children) (n : Nat) (child : Option Child) : Children := Function.update c n child

def hear (g : Gate) (frame : IpcProtocol.Bytes) (now : Nat) : Gate :=
  match IpcProtocol.ipcDecode frame with
  | .ok m => (g.command (some (toMessage m)) now).2
  | .error status => g.stop status

def deliver (c : Children) (n now : Nat) : Option Children :=
  match c n with
  | some ⟨gate, w :: rest⟩ => if gate.stopped then none else some (put c n (some ⟨hear gate w.frame now, rest⟩))
  | _ => none

def apply (c : Children) : Effect → Option Children
  | .launched n => if (c n).isSome then none else some (put c n (some ⟨Gate.init, []⟩))
  | .ended n => some (put c n none)
  | .wrote n written =>
      match c n with
      | some ⟨gate, pipe⟩ => some (put c n (some ⟨gate, pipe ++ [written]⟩))
      | none => some c
  | .ready n tick => do
      -- a child says that it is ready only after it took its START
      let c ← deliver c n tick
      let child ← c n
      if child.gate.started then some c else none

structure Link where
  ctx : Adapter
  children : Children

def Link.init : Link := ⟨Adapter.init, fun _ => none⟩

inductive Event
  | start (params : StreamParams) (os : Os)
  | renewLease (leaseId : Option CString) (newDeadlineTickMs : UInt64) (os : Os)
  | forceIdr (os : Os)
  | stop (os : Os)
  | poll (os : Os)
  | destroy (os : Os)
  | deliver (child now : Nat)
  | check (child now : Nat) (desktopAvailable : Bool)
  | canSend (child now : Nat) (desktopAvailable : Bool)
  | takeIdr (child now : Nat)
  | stopChild (child : Nat) (reason : Status)
  | exit (child : Nat)

/-- What a call of the adapter does; a destroyed adapter is followed by a new one. -/
def call (ctx : Adapter) : Event → Option (Adapter × List Effect)
  | .start params os => (ctx.start params os).map (·.2)
  | .renewLease leaseId deadline os => some (ctx.renewLease leaseId deadline os).2
  | .forceIdr os => some (ctx.forceIdr os).2
  | .stop os => some (ctx.stop os).2
  | .poll os => some (ctx.poll os)
  | .destroy os => some (Adapter.init, ctx.destroy os)
  | _ => some (ctx, [])

def acts (c : Children) (n : Nat) (event : SafetyGate.Event) : Option Children :=
  (c n).map fun child => put c n (some { child with gate := SafetyGate.step child.gate event })

def Link.step? (s : Link) : Event → Option Link
  | .deliver n now => (deliver s.children n now).map (⟨s.ctx, ·⟩)
  | .check n now desktopAvailable => (acts s.children n (.check now desktopAvailable)).map (⟨s.ctx, ·⟩)
  | .canSend n now desktopAvailable => (acts s.children n (.canSend now desktopAvailable)).map (⟨s.ctx, ·⟩)
  | .takeIdr n now => (acts s.children n (.takeIdr now)).map (⟨s.ctx, ·⟩)
  | .stopChild n reason => (acts s.children n (.stop reason)).map (⟨s.ctx, ·⟩)
  | .exit n => some ⟨s.ctx, put s.children n none⟩
  | e => do
      let (ctx, effects) ← call s.ctx e
      let children ← effects.foldlM apply s.children
      some ⟨ctx, children⟩

def step (s : Link) (e : Event) : Link := (s.step? e).getD s

end EtranProcessing.Desk.CaptureLink
