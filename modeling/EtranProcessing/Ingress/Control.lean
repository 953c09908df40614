import EtranProcessing.Ingress.Framing

namespace EtranProcessing.Ingress.Control

open State JsonText Routes Lifecycle MediaV2

inductive Method
  | get | post | put | delete | other
  deriving DecidableEq

def sessionsPrefix : CString := bytes "/api/v1/media/sessions/"

def sessionPath (path : CString) : Option CString :=
  if sessionsPrefix.isPrefixOf path then some (path.drop sessionsPrefix.length) else none

def pathId (path : CString) : CString :=
  match sessionPath path with
  | none => []
  | some rest => (safeStrcpy 64 rest).takeWhile fun c => c != 47 && c != 63

def ownedByModern (w : World) (i : Option Nat) : Bool := (i.map fun i => modern (session w i)).getD false

/-- The guard in front of the legacy endpoints. The device is looked up only if
the id of the body names nothing. -/
def mediaV1Conflicts (w : World) (path body : CString) : Bool :=
  ownedByModern w (findSessionById w (pathId path)) ||
    let byId := findSessionById w (jsonGetString body "session_id" 64)
    ownedByModern w (if byId.isSome then byId else findActiveSessionForSn w (jsonGetString body "sn" 128))

def splitAt? (keyword text : CString) : Option (CString × CString) :=
  (strstr keyword text).map fun rest => (text.take (text.length - rest.length), rest)

inductive Endpoint
  | start
  | stopBySn
  | renewBySn
  | renew (id : CString)
  | health (id : CString)
  | stop (id : CString)
  | reconcile
  | metrics
  | unknown

def postEndpoint (path : CString) : Endpoint :=
  if path = sessionsPrefix ++ bytes "start" then .start
  else if path = sessionsPrefix ++ bytes "stop" then .stopBySn
  else if path = sessionsPrefix ++ bytes "renew" then .renewBySn
  else
    match sessionPath path with
    | none => if path = bytes "/api/v1/media/reconcile" then .reconcile else .unknown
    | some rest =>
        match splitAt? (bytes "/renew") rest with
        | some (id, tail) =>
            if tail = bytes "/renew" then .renew (safeStrcpy 64 id)
            else match splitAt? (bytes "/stop") rest with
              | some (id, _) => .stop (safeStrcpy 64 id)
              | none => .unknown
        | none =>
            match splitAt? (bytes "/stop") rest with
            | some (id, _) => .stop (safeStrcpy 64 id)
            | none => .unknown

def getEndpoint (path : CString) : Endpoint :=
  match sessionPath path with
  | some rest => .health ((safeStrcpy 64 rest).takeWhile fun c => c != 63)
  | none => if path = bytes "/api/v1/media/metrics" then .metrics else .unknown

def endpoint (method : Method) (path : CString) : Endpoint :=
  match method with
  | .post => postEndpoint path
  | .get => getEndpoint path
  | _ => .unknown

def serve (w : World) (body : CString) : Endpoint → Reply × World
  | .start => handleMediaSessionStart w body
  | .stopBySn => stopMediaSessionForSn w body
  | .renewBySn => renewMediaSessionForSn w body
  | .renew id => renewMediaSession w id body
  | .health id => getMediaSessionHealth w id
  | .stop id => stopMediaSession w id (jsonGetString body "reason" 64)
  | .reconcile => reconcileResources w
  | .metrics => handleMediaMetrics w
  | .unknown => (failure 404 .endpointNotFound, w)

def handleV1Request (w : World) (method : Method) (path body : CString) : Reply × World :=
  if mediaV1Conflicts w path body then (failure 409 .sessionBusy, w)
  else serve w body (endpoint method path)

def handlePutRoute (w : World) (sn : CString) (rtp rtcp : Int) : Reply × World :=
  if sn = [] ∨ rtp ≤ 0 ∨ rtcp ≤ 0 then (failure 400 .invalidParameters, w)
  else
    match upsertRoute w sn rtp rtcp with
    | none => (failure 500 .routeTableFull, w)
    | some w => (⟨200, .routed (w.clients.countP fun c => c.sn == sn)⟩, w)

def handleDeleteRoute (w : World) (sn : CString) : Reply × World :=
  match deleteRoute w (.outside sn) with
  | (true, w) => (⟨200, .routed (w.clients.countP fun c => c.sn == sn)⟩, w)
  | (false, w) => (failure 404 .routeNotFound, w)

end EtranProcessing.Ingress.Control
