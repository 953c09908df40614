import EtranProcessing.Ingress.Feedback

namespace EtranProcessing.Ingress.Routes

open State Feedback

/-- The per-client part of update_client_targets_for_sn. A connection that was
bound to a camera route is never pointed at another one. -/
def updateTargets (rtp rtcp : Int) (c : IngressClient) : IngressClient :=
  if c.cameraRouteGeneration ≠ 0 ∨ c.cameraRouteRevoked = true then
    { resetFeedback c with cameraRouteRevoked := true, rtpPort := 0, rtcpPort := 0 }
  else { resetFeedback c with rtpPort := rtp, rtcpPort := rtcp }

def updateClientTargetsForSn (w : World) (sn : CString) (rtp rtcp : Int) : World :=
  { w with clients := w.clients.map fun c => if c.sn = sn then updateTargets rtp rtcp c else c }

def lookupRoute (routes : List RouteEntry) (sn : CString) : Option RouteEntry :=
  routes.find? fun r => r.sn == sn

def findRoute (w : World) (sn : CString) : Option RouteEntry := lookupRoute w.routes sn

/-- Give the first entry of a serial number new ports; a static entry stays
static. -/
def overwriteFirst (sn : CString) (rtp rtcp : Int) : List RouteEntry → List RouteEntry
  | [] => []
  | r :: rs =>
      if r.sn = sn then { r with rtpPort := rtp, rtcpPort := rtcp } :: rs
      else r :: overwriteFirst sn rtp rtcp rs

/-- None when the route table is full. -/
def upsertRoute (w : World) (sn : CString) (rtp rtcp : Int) : Option World :=
  if (findRoute w sn).isSome then
    some (updateClientTargetsForSn { w with routes := overwriteFirst sn rtp rtcp w.routes } sn rtp rtcp)
  else if w.routes.length < maxRoutes then
    some (updateClientTargetsForSn
      { w with routes := w.routes ++ [⟨safeStrcpy 128 sn, rtp, rtcp, false⟩] } sn rtp rtcp)
  else none

/-- The argument of delete_route is a pointer: into some other record, or into
an entry of the table that the call is about to shift. -/
inductive SnPointer
  | outside (sn : CString)
  | entry (i : Nat)

def deref (table : List RouteEntry) : SnPointer → CString
  | .outside sn => sn
  | .entry i => (table.getD i ⟨[], 0, 0, false⟩).sn

/-- The entries after the deletion, followed by the slot that fell out of the
count: shifting leaves the old last entry in place. -/
def shifted (routes : List RouteEntry) (sn : CString) : List RouteEntry :=
  routes.eraseP (fun r => r.sn == sn) ++ routes.getLast?.toList

/-- The serial number is read before the shift to find the entry and after it
to notify the clients. -/
def deleteRoute (w : World) (p : SnPointer) : Bool × World :=
  let sn := deref w.routes p
  if (findRoute w sn).isSome then
    (true, updateClientTargetsForSn { w with routes := w.routes.eraseP fun r => r.sn == sn }
      (deref (shifted w.routes sn) p) 0 0)
  else (false, w)

end EtranProcessing.Ingress.Routes
