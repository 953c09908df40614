import EtranProcessing.Ingress.Clock
import EtranProcessing.Ingress.JsonText
import EtranProcessing.Ingress.Routes
import EtranProcessing.Ingress.Stores

namespace EtranProcessing.Ingress.Lifecycle

open State Clock JsonText Routes Stores

def findSessionById (w : World) (id : CString) : Option Nat :=
  if id = [] then none else w.sessions.findIdx? fun s => s.sessionId == id

def findActiveSessionForSn (w : World) (sn : CString) : Option Nat :=
  if sn = [] then none else w.sessions.findIdx? fun s => live s && s.sn == sn

def findSnForMountpoint (w : World) (mid : Nat) : Option CString :=
  (w.sessions.find? fun s => s.mountpointId == mid && !s.sn.isEmpty).map fun s => s.sn

def rtpIsFreshForSn (w : World) (sn : CString) (now : Int) : Bool :=
  !sn.isEmpty && w.clients.any fun c =>
    c.sn == sn && decide (0 < c.lastRtpTime) && decide (now - c.lastRtpTime ≤ rtpFreshReconcileSec)

def mediaActiveSessionCount (w : World) : Nat := w.sessions.countP live

def takesPort (p rtp rtcp : Int) : Bool := rtp == p || rtcp == p + 1 || rtp == p + 1 || rtcp == p

def portPool : List Int :=
  (List.range ((defaultPortMax - defaultPortBase).toNat / 2 + 1)).map fun k => defaultPortBase + 2 * k

def allocatePortPair (w : World) : Option (Int × Int) :=
  (portPool.find? fun p =>
    !(w.routes.any fun r => takesPort p r.rtpPort r.rtcpPort) &&
    !(w.sessions.any fun s => live s && takesPort p s.rtpPort s.rtcpPort)).map fun p => (p, p + 1)

def finished (s : MediaSession) : Bool := s.state == .stopped || s.state == .failed

/-- The first of the finished records with the smallest stop time. -/
def oldestFinished : List MediaSession → Nat → Option (Nat × Int) → Option Nat
  | [], _, best => best.map fun b => b.1
  | s :: rest, i, best =>
      oldestFinished rest (i + 1) <|
        if finished s then
          match best with
          | none => some (i, s.stoppedAt)
          | some (j, t) => if s.stoppedAt < t then some (i, s.stoppedAt) else some (j, t)
        else best

/-- An EMPTY slot, else a new one, else the slot of the oldest finished record,
zeroed. -/
def allocateSessionSlot (w : World) : Option (Nat × World) :=
  match w.sessions.findIdx? fun s => s.state == .empty with
  | some i => some (i, w)
  | none =>
      if w.sessions.length < maxMediaSessions then
        some (w.sessions.length, { w with sessions := w.sessions ++ [{}] })
      else (oldestFinished w.sessions 0 none).map fun i => (i, setSession w i {})

def harvest (w : World) (s : MediaSession) : MediaSession :=
  match w.clients.find? fun c => c.sn == s.sn with
  | none => s
  | some c => { s with finalRtpPackets := c.rtpPackets, finalBytes := c.totalBytes, lastRtpAt := c.lastRtpTime }

def countStarted (w : World) : World :=
  { w with metrics := { w.metrics with sessionsStarted := w.metrics.sessionsStarted + 1 } }

def countStopped (w : World) : World :=
  { w with metrics := { w.metrics with sessionsStopped := w.metrics.sessionsStopped + 1 } }

def countFailed (w : World) : World :=
  { w with metrics := { w.metrics with sessionsFailed := w.metrics.sessionsFailed + 1 } }

def countOrphanMountpoint (w : World) : World :=
  { w with metrics := { w.metrics with orphansMountpoints := w.metrics.orphansMountpoints + 1 } }

def countOrphanRoute (w : World) : World :=
  { w with metrics := { w.metrics with orphansRoutes := w.metrics.orphansRoutes + 1 } }

/-- The body of stop_media_session once a record that is not STOPPED is found:
its route, its mountpoint and its Redis keys go. -/
def teardown (w : World) (i : Nat) (reason : CString) : World :=
  let stoppedAt := now w
  let w := advance w
  let s := { harvest w (session w i) with state := .stopping }
  let w := setSession w i s
  let w := (deleteRoute w (.outside s.sn)).2
  let w := janusDestroyMountpoint w s.mountpointId
  let s := { s with
    state := .stopped
    stoppedAt := stoppedAt
    stopReason := safeStrcpy 64 (if reason = [] then bytes "user_closed" else reason) }
  let w := setSession w i s
  countStopped (mvPersist (mediaRedisDropSession w s) s)

/-- Sessions are resolved by id, the first record with it wins. -/
def stopMediaSession (w : World) (sessionId reason : CString) : Reply × World :=
  match findSessionById w sessionId with
  | none => (⟨200, .alreadyStopped sessionId⟩, w)
  | some i =>
      if (session w i).state = .stopped then (⟨200, .alreadyStopped sessionId⟩, w)
      else
        let w := teardown w i reason
        (⟨200, .stopped (session w i)⟩, w)

/-- Whether the lease of a live record is over at this wall time and at the
monotonic sample the process takes next. -/
def leaseOver (w : World) (s : MediaSession) (now : Int) : Bool :=
  if s.contractVersion = 3 then
    match mediaMonotonicMs w with
    | none => true
    | some t => s.monotonicDeadlineMs == 0 || decide (s.monotonicDeadlineMs ≤ t)
  else decide (0 < s.ttlSec) && decide (s.ttlSec ≤ now - leaseStart s)

def expireMediaSession (w : World) (i : Nat) (now : Int) : World :=
  let s := session w i
  if live s = false then w
  else
    let w' := if s.contractVersion = 3 then readMonotonic w else w
    if leaseOver w s now then (stopMediaSession w' s.sessionId (bytes "ttl_expired")).2 else w'

structure StartFields where
  sessionId : CString
  operationId : CString
  sn : CString
  deviceId : Nat
  pin : CString
  rtpPort : Int
  rtcpPort : Int
  ttlSec : Int

def startFields (body : CString) : StartFields where
  sessionId := jsonGetString body "session_id" 64
  operationId := jsonGetString body "operation_id" 64
  sn := jsonGetString body "sn" 128
  deviceId := jsonGetUint32 body "device_id" 0
  pin := jsonGetString body "pin" 64
  rtpPort := jsonGetInt body "rtp_port" 0
  rtcpPort := jsonGetInt body "rtcp_port" 0
  ttlSec := jsonGetInt body "ttl_sec" 600

def clampTtl (ttl : Int) : Int := min 7200 (max 10 (if ttl ≤ 0 then 600 else ttl))

/-- What a legacy start knows once its request is read: the fields, the lease,
and the time it was received. -/
structure StartRequest where
  fields : StartFields
  ttlSec : Int
  leaseBound : Bool
  requestAt : Int

def renewed (s : MediaSession) (ttlSec renewedAt : Int) : MediaSession :=
  { s with ttlSec := ttlSec, renewedAt := renewedAt }

/-- A start for a record that is live: reuse it if it is the same operation. -/
def startExisting (w : World) (i : Nat) (r : StartRequest) : Reply × World :=
  let s := session w i
  if s.sn ≠ r.fields.sn ∨ (r.fields.operationId ≠ [] ∧ s.operationId ≠ r.fields.operationId) then
    (failure 409 .sessionBusy, w)
  else
    match janusMountpointEnsure w s.mountpointId s.rtpPort s.rtcpPort s.pin with
    | (.conflict, w) => (failure 409 .janusError, w)
    | (.unavailable, w) => (failure 502 .janusError, w)
    | (.ready, w) =>
        let s := if r.leaseBound then renewed s r.ttlSec r.requestAt else s
        let w := setSession w i s
        let w := (upsertRoute w s.sn s.rtpPort s.rtcpPort).getD w
        let w := mediaRedisSaveRoute (mediaRedisSaveSession w s (leaseStart s)) s
        (⟨200, .session s⟩, w)

def activated (s : MediaSession) (startedAt renewedAt : Int) : MediaSession :=
  { s with state := .active, startedAt := startedAt, renewedAt := renewedAt }

def startChecked (w : World) (i : Nat) : Reply × World :=
  let w := expireMediaSession (advance w) i (now w)
  let s := session w i
  if s.state = .stopped then (failure 409 .leaseExpired, w)
  else (⟨201, .session s⟩, mediaRedisSaveRoute (mediaRedisSaveSession w s s.renewedAt) s)

def startActivate (w : World) (i : Nat) (r : StartRequest) : Reply × World :=
  let startedAt := now w
  let renewedAt := if r.leaseBound then r.requestAt else startedAt
  startChecked (countStarted (setSession (advance w) i (activated (session w i) startedAt renewedAt))) i

def failedRecord (s : MediaSession) (reason : CString) : MediaSession :=
  { s with state := .failed, stopReason := reason }

def startFailed (w : World) (i : Nat) (reason : CString) : World :=
  countFailed (setSession w i (failedRecord (session w i) reason))

/-- The record a legacy start writes into its slot before it talks to Janus. -/
def startRecord (slot : MediaSession) (r : StartRequest) (rtp rtcp createdAt : Int) : MediaSession :=
  { slot with
    sessionId := safeStrcpy 64 r.fields.sessionId
    operationId := safeStrcpy 64 r.fields.operationId
    sn := safeStrcpy 128 r.fields.sn
    deviceId := r.fields.deviceId
    mountpointId := if 0 < r.fields.deviceId then r.fields.deviceId else rtp.toNat
    rtpPort := rtp
    rtcpPort := rtcp
    pin := safeStrcpy 513 r.fields.pin
    ttlSec := r.ttlSec
    state := .starting
    createdAt := createdAt }

def startSlot (w : World) (r : StartRequest) (rtp rtcp : Int) : Reply × World :=
  match allocateSessionSlot w with
  | none => (failure 503 .maxSessionsExceeded, w)
  | some (i, w) =>
      let s := startRecord (session w i) r rtp rtcp (now w)
      let w := setSession (advance w) i s
      match janusMountpointEnsure w s.mountpointId rtp rtcp r.fields.pin with
      | (.ready, w) =>
          match upsertRoute w r.fields.sn rtp rtcp with
          | none =>
              let w := janusDestroyMountpoint w s.mountpointId
              (failure 500 .routeCreationFailed, startFailed w i (bytes "route_upsert_failed"))
          | some w => startActivate w i r
      | (_, w) => (failure 502 .janusError, startFailed w i (bytes "janus_create_failed"))

def startPorts (w : World) (r : StartRequest) : Reply × World :=
  if r.fields.rtpPort ≤ 0 ∨ r.fields.rtcpPort ≤ 0 then
    match allocatePortPair w with
    | none => (failure 503 .portExhaustion, w)
    | some (rtp, rtcp) => startSlot w r rtp rtcp
  else startSlot w r r.fields.rtpPort r.fields.rtcpPort

def expireOptional (w : World) (i : Option Nat) (now : Int) : World :=
  match i with
  | none => w
  | some i => expireMediaSession w i now

def startFresh (w : World) (r : StartRequest) : Reply × World :=
  let w := expireOptional w (findActiveSessionForSn w r.fields.sn) r.requestAt
  match findActiveSessionForSn w r.fields.sn with
  | some i => if (session w i).sessionId ≠ r.fields.sessionId then (failure 409 .sessionBusy, w) else startPorts w r
  | none => startPorts w r

/-- The idempotency check on the session id. A FAILED record falls through. -/
def startLookup (w : World) (r : StartRequest) : Reply × World :=
  match findSessionById w r.fields.sessionId with
  | none => startFresh w r
  | some i =>
      let w := expireMediaSession w i r.requestAt
      let s := session w i
      if modern s then (failure 409 .sessionBusy, w)
      else if live s then startExisting w i r
      else if s.state = .stopped then
        if r.fields.operationId ≠ [] ∧ s.operationId = r.fields.operationId then
          (⟨200, .stopped s⟩, w)
        else (failure 409 .sessionTerminated, w)
      else startFresh w r

def handleMediaSessionStart (w : World) (body : CString) : Reply × World :=
  if body = [] then (failure 400 .invalidRequest, w)
  else
    let fields := startFields body
    if fields.sessionId = [] ∨ fields.sn = [] then (failure 400 .invalidRequest, w)
    else
      let requestAt := now w
      let w := advance w
      match mediaLeaseTtl body requestAt (clampTtl fields.ttlSec) with
      | none => (failure 409 .invalidLeaseDeadline, w)
      | some (ttl, bound) => startLookup w ⟨fields, ttl, bound, requestAt⟩

/-- The renewal of a legacy record that has been found and is in time. -/
def renewRecord (w : World) (i : Nat) (body : CString) (now : Int) : Reply × World :=
  let s := session w i
  match mediaLeaseTtl body now s.ttlSec with
  | none => (failure 409 .invalidLeaseDeadline, w)
  | some (ttl, bound) =>
      if bound = true ∧ s.sessionId ≠ jsonGetString body "lease_id" 64 ∧
          s.sessionId ≠ jsonGetString body "stream_instance_id" 64 then
        (failure 409 .sessionMismatch, w)
      else
        let s := renewed s ttl now
        let w := setSession w i s
        (⟨200, .session s⟩, mediaRedisSaveRoute (mediaRedisSaveSession w s s.renewedAt) s)

def renewMediaSession (w : World) (sessionId body : CString) : Reply × World :=
  let now := now w
  let sn := jsonGetString body "sn" 128
  match findSessionById w sessionId with
  | none => (failure 404 .activeSessionNotFound, advance w)
  | some i =>
      let s := session w i
      if s.state ≠ .active ∨ sn = [] ∨ s.sn ≠ sn ∨ s.ttlSec ≤ now - leaseStart s then
        (failure 404 .activeSessionNotFound, advance w)
      else renewRecord (advance w) i body now

def stopMediaSessionForSn (w : World) (body : CString) : Reply × World :=
  let sn := jsonGetString body "sn" 128
  let leaseId := jsonGetString body "lease_id" 64
  let streamInstanceId := jsonGetString body "stream_instance_id" 64
  if sn = [] ∨ leaseId = [] then (failure 400 .missingSnOrLeaseId, w)
  else
    match findActiveSessionForSn w sn with
    | none => (⟨200, .alreadyStopped []⟩, w)
    | some i =>
        let s := session w i
        if s.sessionId ≠ leaseId ∧ (streamInstanceId = [] ∨ s.sessionId ≠ streamInstanceId) then
          (failure 409 .sessionMismatch, w)
        else stopMediaSession w s.sessionId (jsonGetString body "reason" 64)

def renewMediaSessionForSn (w : World) (body : CString) : Reply × World :=
  match findActiveSessionForSn w (jsonGetString body "sn" 128) with
  | none => (failure 404 .activeSessionNotFound, w)
  | some i => renewMediaSession w (session w i).sessionId body

/-- What a legacy health answer says about the connection of the device. -/
def transportOf (w : World) (s : MediaSession) (now : Int) : Transport :=
  match w.clients.find? fun c => c.sn == s.sn with
  | none => ⟨false, false, s.finalRtpPackets, s.finalBytes, s.lastRtpAt⟩
  | some c =>
      let idle := if 0 < c.lastRtpTime then now - c.lastRtpTime else -1
      ⟨true, decide (0 < c.rtpPackets ∧ 0 ≤ idle ∧ idle ≤ rtpStaleDeadlineSec),
        c.rtpPackets, c.totalBytes, c.lastRtpTime⟩

def getMediaSessionHealth (w : World) (sessionId : CString) : Reply × World :=
  match findSessionById w sessionId with
  | none => (failure 404 .sessionNotFound, w)
  | some i =>
      let at_ := now w
      let w := expireMediaSession (advance w) i at_
      (⟨200, .health (session w i) (transportOf w (session w i) at_)⟩, w)

def hasActiveMountpoint (w : World) (mid : Nat) : Bool :=
  w.sessions.any fun s => live s && s.mountpointId == mid

/-- A mountpoint with no live session is spared while the device that last
owned it still sends RTP or is owned in Redis. -/
def reconcileMountpoint (now : Int) (w : World) (mid : Nat) : World :=
  if mid = 1 ∨ hasActiveMountpoint w mid = true then w
  else
    let spared := match findSnForMountpoint w mid with
      | none => false
      | some sn => rtpIsFreshForSn w sn now || mediaRedisOwnsSn w sn
    if spared then w
    else
      countOrphanMountpoint (janusDestroyMountpoint w mid)

def hasActiveSn (w : World) (sn : CString) : Bool := w.sessions.any fun s => live s && s.sn == sn

def orphanRoute (w : World) (r : RouteEntry) (now : Int) : Bool :=
  !r.isStatic && !hasActiveSn w r.sn && !rtpIsFreshForSn w r.sn now && !mediaRedisOwnsSn w r.sn

/-- The loop over the route table. A deletion shifts the rest down and the
index stays, so every turn looks at one of the original entries. -/
def reconcileRoutes (now : Int) : Nat → Nat → World → World
  | 0, _, w => w
  | fuel + 1, i, w =>
      if i < w.routes.length then
        if orphanRoute w (w.routes.getD i ⟨[], 0, 0, false⟩) now then
          reconcileRoutes now fuel i (countOrphanRoute (deleteRoute w (.entry i)).2)
        else reconcileRoutes now fuel (i + 1) w
      else w

def reconcileMountpoints (now : Int) (w : World) : World :=
  match janusListMountpoints w with
  | (none, w) => w
  | (some ids, w) => ids.foldl (reconcileMountpoint now) w

def reconcileResources (w : World) : Reply × World :=
  let before := w.metrics
  let at_ := now w
  let w := reconcileMountpoints at_ (advance w)
  let w := reconcileRoutes at_ w.routes.length 0 w
  (⟨200, .reconciled (mediaActiveSessionCount w) (w.metrics.orphansMountpoints - before.orphansMountpoints)
    (w.metrics.orphansRoutes - before.orphansRoutes)⟩, w)

def handleMediaMetrics (w : World) : Reply × World :=
  (⟨200, .metrics w.metrics (mediaActiveSessionCount w)⟩, advance w)

end EtranProcessing.Ingress.Lifecycle
