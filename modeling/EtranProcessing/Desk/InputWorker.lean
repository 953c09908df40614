import EtranProcessing.Desk.ControlCommands

namespace EtranProcessing.Desk.InputWorker

open CaptureAdapter Inventory FfmpegSupervisor JsonMin ControlCommands

deriving instance DecidableEq for StreamStateInfo

def getInfo (s : Supervisor) : StreamStateInfo := ⟨s.streamInstanceId, s.leaseId, s.mode, s.sourceId, s.state⟩

inductive Thread
  | mqtt | worker
  deriving DecidableEq

/-- Where a thread is with its command; the answers it already has are in the delivery. -/
inductive Stage
  | idle
  | taken (d : Delivery)
  | admitted (d : Delivery)
  /-- The stream has been copied. -/
  | looked (d : Delivery)
  /-- Everything is checked, and the actions of the answer are left. -/
  | acting (d : Delivery) (left : List Action)

structure Agent where
  sup : Supervisor
  inv : SystemInventory
  queue : List Delivery
  mqtt : Stage
  worker : Stage

def Agent.start (sup : Supervisor) (inv : SystemInventory) : Agent := ⟨sup, inv, [], .idle, .idle⟩

def Agent.stage (a : Agent) : Thread → Stage
  | .mqtt => a.mqtt
  | .worker => a.worker

def Agent.goto (a : Agent) (t : Thread) (stage : Stage) : Agent :=
  match t with
  | .mqtt => { a with mqtt := stage }
  | .worker => { a with worker := stage }

/-- What one of the threads does next, up to its next look at what they share. -/
inductive Event
  | receive (d : Delivery) (nowMs : Nat)
  | take (nowMs : Nat)
  /-- The checks before the cache, and what the cache says. -/
  | check (t : Thread) (found : Bool)
  | look (t : Thread)
  | gate (t : Thread) (access : DesktopAccess)
  | act (t : Thread) (w : World)
  | done (t : Thread)
  | tick (w : World)
  | shutdown (w : World)
  | refresh (inv : SystemInventory)

def queueDepth : Nat := 2

theorem type_holds : 0 < 64 := by decide

def isInputCmd (d : Delivery) : Bool :=
  ["mouse_click", "shortcut_action", "key_event"].any fun word => (extractStr d.payload "type" 64 type_holds).val = text word

def expired (d : Delivery) (nowMs : Nat) : Prop := 0 < d.expiresAtMs ∧ d.expiresAtMs ≤ nowMs

instance (d : Delivery) (nowMs : Nat) : Decidable (expired d nowMs) := inferInstanceAs (Decidable (_ ∧ _))

def Action.injects : Action → Bool
  | .start .. | .stop .. | .updateLease .. => false
  | .move | .click .. | .drag .. | .wheel .. | .key .. | .shortcut .. => true

def looks (d : Delivery) : Bool := d.is "lease_renew" || d.is "stream_renew" || isInput d

section Steps

variable (ownSn : Field 64) (a : Agent)

def Agent.mqttIdle : Option Unit :=
  match a.mqtt with
  | .idle => some ()
  | _ => none

def Agent.receive (d : Delivery) (nowMs : Nat) : Agent :=
  if isInputCmd d then
    if expired d nowMs ∨ queueDepth ≤ a.queue.length then a else { a with queue := a.queue ++ [d] }
  else { a with mqtt := .taken d }

def Agent.take (nowMs : Nat) : Option Agent :=
  match a.worker, a.queue with
  | .idle, d :: queue => some { a with queue := queue, worker := if expired d nowMs then .idle else .taken d }
  | _, _ => none

def Agent.check (t : Thread) (found : Bool) : Option Agent :=
  match a.stage t with
  | .taken d =>
      some <| a.goto t <|
        if (refused ownSn d).isSome || found then .idle
        else if looks d then .admitted d
        else .acting d (respond ownSn d).executed
  | _ => none

def Agent.look (t : Thread) : Option Agent :=
  match a.stage t with
  | .admitted d =>
      let d := { d with stream := getInfo a.sup }
      some (a.goto t (if isInput d then .looked d else .acting d (respond ownSn d).executed))
  | _ => none

def Agent.gate (t : Thread) (access : DesktopAccess) : Option Agent :=
  match a.stage t with
  | .looked d =>
      let d := { d with inv := a.inv, access := access }
      some (a.goto t (.acting d (respond ownSn d).executed))
  | _ => none

/-- An action, answered as the delivery has it. -/
def perform (sup : Supervisor) (inv : SystemInventory) (d : Delivery) (w : World) : Action → Option Supervisor
  | .start streamInstanceId leaseId mode sourceId profile => do
      let (started, sup, _) ← sup.start streamInstanceId leaseId mode sourceId profile inv w
      if started = d.start.isOk then some sup else none
  | .stop streamInstanceId leaseId =>
      let (stopped, sup, _) := sup.stop streamInstanceId leaseId w
      if stopped = d.stop.isOk then some sup else none
  | .updateLease leaseId expiresAtMs => some (sup.updateLease leaseId expiresAtMs.toNat w).1
  | .move | .click .. | .drag .. | .wheel .. | .key .. | .shortcut .. => some sup

def Agent.act (t : Thread) (w : World) : Option Agent :=
  match a.stage t with
  | .acting d (action :: left) => do
      let sup ← perform a.sup a.inv d w action
      some ({ a with sup := sup }.goto t (.acting d left))
  | _ => none

def Agent.done (t : Thread) : Option Agent :=
  match a.stage t with
  | .acting _ [] => some (a.goto t .idle)
  | _ => none

/-- No value where the thread is elsewhere, or where a copy aborts the process. -/
def Agent.step? : Event → Option Agent
  | .receive d nowMs => a.mqttIdle.map fun () => a.receive d nowMs
  | .take nowMs => a.take nowMs
  | .check t found => a.check ownSn t found
  | .look t => a.look ownSn t
  | .gate t access => a.gate ownSn t access
  | .act t w => a.act t w
  | .done t => a.done t
  | .tick w => a.mqttIdle.map fun () => { a with sup := (a.sup.tick (some a.inv) w).1 }
  | .shutdown w => a.mqttIdle.map fun () => { a with sup := (a.sup.stop empty empty w).2.1 }
  | .refresh inv => a.mqttIdle.map fun () => { a with inv := inv }

end Steps

def step (ownSn : Field 64) (a : Agent) (e : Event) : Agent := (a.step? ownSn e).getD a

end EtranProcessing.Desk.InputWorker
