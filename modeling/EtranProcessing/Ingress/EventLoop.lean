import EtranProcessing.Ingress.Control
import EtranProcessing.Library.Runs

namespace EtranProcessing.Ingress.EventLoop

open Library State Feedback Routes Lifecycle MediaV2 Framing Control

/-- What the event loop can be woken up by. A probe result and a change of the
Redis store come from outside; everything else runs the code above. -/
inductive Event
  | accept
  | readable (epoch : Nat) (recvs : List Recv)
  | writable (epoch : Nat) (sends : List SendOutcome)
  | feedback (epoch : Nat) (reads : List RecvOutcome) (sends : List SendOutcome)
  | hangup (epoch : Nat)
  | idleSweep
  | expirySweep
  | reconcile
  | v1 (method : Method) (path body : CString)
  | start (cameraNegotiated : Bool) (request : AdmittedStart)
  | update (cameraNegotiated : Bool) (request : MediaUpdate)
  | putRoute (sn : CString) (rtp rtcp : Int)
  | deleteRoute (sn : CString)
  | probe (evidence : FormatEvidence)
  | store (redis : Option (List (RedisKey × RedisValue × Int)))

def step (w : World) : Event → World
  | .accept => addIngressClient w
  | .readable e recvs => ifCurrent w e fun w => processIngressData w e recvs
  | .writable e sends => ifCurrent w e fun w => flushFeedback w e sends
  | .feedback e reads sends => ifCurrent w e fun w => receiveFeedback w e reads sends
  | .hangup e => ifCurrent w e fun w => removeIngressClient w e
  | .idleSweep => Framing.idleSweep (advance w) (now w)
  | .expirySweep => Framing.expirySweep (advance w) (now w)
  | .reconcile => (reconcileResources w).2
  | .v1 method path body => (handleV1Request w method path body).2
  | .start negotiated request => (mediaV2Start w negotiated request.1).2
  | .update negotiated request => (mvUpdate w request negotiated).2
  | .putRoute sn rtp rtcp => (handlePutRoute w sn rtp rtcp).2
  | .deleteRoute sn => (handleDeleteRoute w sn).2
  | .probe evidence => { w with evidence := evidence }
  | .store redis => { w with redis := redis }

def run (w : World) (events : List Event) : World := Runs.run step w events

theorem run_then (w : World) (first second : List Event) : run w (first ++ second) = run (run w first) second :=
  Runs.run_append step w first second

/-- The process after it has read its route file: no session, no connection,
and static routes only. -/
structure Initial (w : World) : Prop where
  sessions : w.sessions = []
  clients : w.clients = []
  nextEpoch : w.nextEpoch = 1
  forwarded : w.forwarded = []
  routes : ∀ r ∈ w.routes, r.isStatic = true

end EtranProcessing.Ingress.EventLoop
