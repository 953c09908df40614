import EtranProcessing.Ingress.Lifecycle

namespace EtranProcessing.Ingress.MediaV2

open State Clock Routes Stores Lifecycle

def isHexDigit (c : UInt8) : Bool := (48 ≤ c && c ≤ 57) || (65 ≤ c && c ≤ 70) || (97 ≤ c && c ≤ 102)

def msUuid (value : CString) : Bool :=
  value.length == 36 && value.zipIdx.all fun (c, i) =>
    if i = 8 ∨ i = 13 ∨ i = 18 ∨ i = 23 then c == 45 else isHexDigit c

def msPatternSn (value : CString) : Bool :=
  !value.isEmpty && value.all fun c => (65 ≤ c && c ≤ 90) || (97 ≤ c && c ≤ 122) || (48 ≤ c && c ≤ 57) ||
    c == 46 || c == 95 || c == 45

/-- What the frozen schemas promise about the members of a media_start that
the handlers read. -/
structure Admitted (r : MediaStart) : Prop where
  contract : r.contractVersion = 2 ∨ r.contractVersion = 3
  sessionId : msUuid r.sessionId = true
  operationId : msUuid r.operationId = true
  leaseId : msUuid r.leaseId = true
  streamInstanceId : msUuid r.streamInstanceId = true
  sn : msPatternSn r.sn = true
  snLength : r.sn.length ≤ 64
  expiry : 1 ≤ r.leaseExpiresAt ∧ r.leaseExpiresAt ≤ 5000000000
  pin : ∀ pin, r.pin = some pin → pin ≠ []

instance (r : MediaStart) : Decidable (Admitted r) :=
  decidable_of_iff
    ((r.contractVersion = 2 ∨ r.contractVersion = 3) ∧ msUuid r.sessionId = true ∧ msUuid r.operationId = true ∧
      msUuid r.leaseId = true ∧ msUuid r.streamInstanceId = true ∧ msPatternSn r.sn = true ∧ r.sn.length ≤ 64 ∧
      (1 ≤ r.leaseExpiresAt ∧ r.leaseExpiresAt ≤ 5000000000) ∧ r.pin ≠ some [])
    ⟨fun ⟨h1, h2, h3, h4, h5, h6, h7, h8, h9⟩ =>
        ⟨h1, h2, h3, h4, h5, h6, h7, h8, fun _ hp he => h9 (he ▸ hp)⟩,
      fun h => ⟨h.contract, h.sessionId, h.operationId, h.leaseId, h.streamInstanceId, h.sn, h.snLength, h.expiry,
        fun hp => h.pin [] hp rfl⟩⟩

def AdmittedStart : Type := { r : MediaStart // Admitted r }

def toInt (n : Int) : Int := n.bmod (2 ^ 32)

def filled (r : MediaStart) : MediaSession where
  contractVersion := r.contractVersion
  cameraSource := r.contractVersion == 3 && r.descriptor.sourceType == bytes "camera"
  sessionId := safeStrcpy 64 r.sessionId
  operationId := safeStrcpy 64 r.operationId
  leaseId := safeStrcpy 37 r.leaseId
  sn := safeStrcpy 128 r.sn
  streamInstanceId := safeStrcpy 37 r.streamInstanceId
  pin := safeStrcpy 513 (r.pin.getD [])
  descriptor := some r.descriptor
  v2Request := some r

def mvFill (w : World) (r : MediaStart) : Option MediaSession :=
  if 4096 ≤ r.descriptor.dump.length ∨ 8192 ≤ (w.env.requestDump r).length then none else some (filled r)

def mvFmtp (t : Track) : CString :=
  if t.codec = bytes "h265" then
    bytes "profile-space=0;profile-id=1;tier-flag=0;level-id=" ++ decimal t.levelId ++
      bytes ";sprop-max-don-diff=0"
  else bytes "profile-level-id=" ++ t.profileLevelId ++ bytes ";packetization-mode=1"

def mvEnsure (w : World) (s : MediaSession) : Ensure × World :=
  match s.descriptor with
  | none => (.unavailable, w)
  | some d =>
      janusEnsureFormat w s.mountpointId s.rtpPort s.rtcpPort s.pin d.track.codec d.track.payloadType
        (safeStrcpy 256 (mvFmtp d.track)) true

def profileBit (profile : CString) : Option Nat :=
  if profile = bytes "baseline" then some 0
  else if profile = bytes "main" then some 1
  else if profile = bytes "high" then some 2
  else none

def trackReady (e : FormatEvidence) (gate h265Verified : Bool) (h264Profiles : Nat) (t : Track) : Bool :=
  if gate = false ∨ e.dependenciesReady = false then false
  else if t.codec = bytes "h265" then e.hevcEnabled && e.hevcVerified && h265Verified
  else match profileBit t.codecProfile with
    | none => false
    | some bit => h264Profiles.testBit bit

def mcTrackReady (e : FormatEvidence) : Track → Bool :=
  trackReady e e.cameraEnabled e.cameraH265Verified e.cameraH264Profiles

def m3TrackReady (e : FormatEvidence) : Track → Bool := trackReady e true e.v3H265Verified e.v3H264Profiles

def mcExtended (d : Descriptor) : Bool := d.cameraContractRevision.isSome

def mcSessionExtended (s : MediaSession) : Bool :=
  s.contractVersion == 2 && (s.descriptor.map mcExtended).getD false

def mediaRevokeCameraClients (w : World) (sn : CString) : World :=
  { w with clients := w.clients.map fun c => if c.sn = sn then { c with cameraRouteRevoked := true } else c }

def limitKeyframes (w : World) (sn : CString) : World :=
  { w with clients := w.clients.map fun c => if c.sn = sn then { c with keyframeFeedbackIntervalMs := 500 } else c }

def coordinatesTaken (w : World) (c : MediaSession) : Bool :=
  w.sessions.any fun s => modern s && s.sessionId != c.sessionId &&
    (s.operationId == c.operationId || s.streamInstanceId == c.streamInstanceId)

def sameStart (s c : MediaSession) (r : MediaStart) : Bool :=
  s.contractVersion == c.contractVersion && s.sn == c.sn && s.leaseId == c.leaseId &&
    s.streamInstanceId == c.streamInstanceId && s.operationId == c.operationId &&
    s.descriptor.map (fun d => d.dump) == c.descriptor.map (fun d => d.dump) && (r.pin.isNone || s.pin == c.pin)

/-- A start for a session id that is already in the table. -/
def mvReplay (w : World) (i : Nat) (c : MediaSession) (r : MediaStart) (now : Int) : Reply × World :=
  if sameStart (session w i) c r = false then (failure 409 .conflict, w)
  else
    let w := expireMediaSession w i now
    if live (session w i) then
      match mvEnsure w (session w i) with
      | (.ready, w) => (⟨200, .session (session w i)⟩, w)
      | (.conflict, w) => (failure 409 .conflict, w)
      | (.unavailable, w) => (failure 502 .janusUnavailable, w)
    else (⟨200, .session (session w i)⟩, w)

/-- The fence of a camera session: connections older than the next epoch are
not let in. -/
def fenced (c : MediaSession) (epoch : Nat) : MediaSession :=
  if c.cameraSource then { c with minimumCameraConnectionEpoch := epoch } else c

def takeOver (w : World) (c : MediaSession) : World :=
  if c.cameraSource then mediaRevokeCameraClients w c.sn else w

def mvChecked (w : World) (i : Nat) : Reply × World :=
  let w := expireMediaSession (advance w) i (now w)
  let s := session w i
  if s.state = .stopped then (failure 410 .expired, w)
  else (⟨201, .session s⟩, countStarted (mvPersist w s))

def mvCommit (w : World) (i : Nat) (c : MediaSession) : Reply × World :=
  let c := fenced c w.nextEpoch
  let w := takeOver w c
  match upsertRoute w c.sn c.rtpPort c.rtcpPort with
  | none => (failure 503 .capacityExhausted, janusDestroyMountpoint w c.mountpointId)
  | some w => mvChecked (limitKeyframes (setSession w i c) c.sn) i

/-- What Janus made of the mountpoint is read back before anything depends on
it. -/
def mvReadBack (w : World) (i : Nat) (c : MediaSession) : Reply × World :=
  match mvEnsure w c with
  | (.ready, w) => mvCommit w i c
  | (_, w) => (failure 409 .descriptorMismatch, janusDestroyMountpoint w c.mountpointId)

/-- The mountpoint of a start: its id must be absent. -/
def mvCreate (w : World) (i : Nat) (c : MediaSession) (t : Track) : Reply × World :=
  let info := w.env.janusInfo w.tick
  let w := janusSend w (.info c.mountpointId)
  match info with
  | none => (failure 502 .janusUnavailable, w)
  | some info =>
      if info.found then (failure 409 .conflict, w)
      else
        let (created, w) := janusCreateFormat w c.mountpointId c.rtpPort c.rtcpPort c.pin t.codec t.payloadType
          (safeStrcpy 256 (mvFmtp t))
        if created then mvReadBack w i c else (failure 502 .janusUnavailable, w)

/-- The record of a start with what the server chose for it. -/
def mvRecord (c : MediaSession) (rtp rtcp : Int) (generation : Nat) (now deadline : Int) : MediaSession :=
  { c with
    rtpPort := rtp
    rtcpPort := rtcp
    mountpointId := rtp.toNat
    routeGeneration := generation
    createdAt := now
    startedAt := now
    renewedAt := now
    ttlSec := toInt (deadline - now)
    state := .starting }

def nextRouteGeneration (w : World) : World := { w with routeGeneration := w.routeGeneration + 1 }

def mvAllocate (w : World) (c : MediaSession) (r : MediaStart) (now : Int) : Reply × World :=
  match allocatePortPair w with
  | none => (failure 503 .capacityExhausted, w)
  | some (rtp, rtcp) =>
      match allocateSessionSlot w with
      | none => (failure 503 .capacityExhausted, w)
      | some (i, w) =>
          if int32Max ≤ w.routeGeneration then (failure 503 .capacityExhausted, w)
          else
            let w := nextRouteGeneration w
            mvCreate w i (mvRecord c rtp rtcp w.routeGeneration now r.leaseExpiresAt) r.descriptor.track

def hexDigit (n : UInt8) : UInt8 := if n < 10 then 48 + n else 87 + n

def mvRandomPin (w : World) : Option CString :=
  (w.env.random w.tick).map fun random => (List.ofFn random).flatMap fun b => [hexDigit (b / 16), hexDigit (b % 16)]

def mvPin (w : World) (c : MediaSession) (r : MediaStart) (now : Int) : Reply × World :=
  if c.pin ≠ [] then mvAllocate w c r now
  else
    match mvRandomPin w with
    | none => (failure 503 .capacityExhausted, advance w)
    | some pin => mvAllocate (advance w) { c with pin := pin } r now

def supported (e : FormatEvidence) (r : MediaStart) : Bool :=
  (r.contractVersion != 3 || m3TrackReady e r.descriptor.track) &&
    (!mcExtended r.descriptor || mcTrackReady e r.descriptor.track) &&
    (r.descriptor.track.codec != bytes "h265" || (e.hevcEnabled && e.hevcVerified))

def mvAdmit (w : World) (c : MediaSession) (r : MediaStart) (now : Int) : Reply × World :=
  let w := expireOptional w (findActiveSessionForSn w c.sn) now
  if (findActiveSessionForSn w c.sn).isSome then (failure 409 .conflict, w)
  else if supported w.evidence r = false then (failure 422 .unsupported, w)
  else mvPin w c r now

def mvFresh (w : World) (c : MediaSession) (r : MediaStart) (now : Int) : Reply × World :=
  if c.contractVersion = 3 then
    match mediaV3BeginDeadline w c r.leaseExpiresAt with
    | (none, w) => (failure 410 .expired, w)
    | (some c, w) => mvAdmit w c r now
  else mvAdmit w c r now

def mvStart (w : World) (r : MediaStart) : Reply × World :=
  let at_ := now w
  let w := advance w
  match mvFill w r with
  | none => (failure 400 .invalidPayload, w)
  | some c =>
      if c.contractVersion ≠ 3 ∧ (r.leaseExpiresAt ≤ at_ ∨ 7200 < r.leaseExpiresAt - at_) then
        (failure 410 .expired, w)
      else if coordinatesTaken w c then (failure 409 .conflict, w)
      else
        match findSessionById w c.sessionId with
        | some i => mvReplay w i c r at_
        | none => mvFresh w c r at_

/-- A request of contract 2 or 3 about an existing session. -/
inductive UpdateKind
  | stop (reason : CString)
  | renew (leaseExpiresAt : Int)
  | health

structure MediaUpdate where
  contractVersion : Int
  sn : CString
  sessionId : CString
  leaseId : CString
  streamInstanceId : CString
  descriptorRevision : CString
  kind : UpdateKind

def mvIdentity (s : MediaSession) (r : MediaUpdate) : Bool :=
  modern s && s.contractVersion == r.contractVersion && s.sn == r.sn && s.sessionId == r.sessionId &&
    s.leaseId == r.leaseId && s.streamInstanceId == r.streamInstanceId &&
    s.descriptor.map (fun d => d.descriptorRevision) == some r.descriptorRevision

def mvPublisher (w : World) (s : MediaSession) : Option IngressClient :=
  if s.state = .stopped then none
  else w.clients.find? fun c => c.sn == s.sn && !(s.cameraSource && (c.cameraRouteRevoked ||
    c.cameraRouteGeneration != s.routeGeneration || decide (c.epoch < s.minimumCameraConnectionEpoch)))

/-- Freshness is judged by the monotonic clock for contract 3 and by wall time
for contract 2; a connection without packets asks neither. -/
def mvHealth (w : World) (s : MediaSession) : Reply × World :=
  match mvPublisher w s with
  | none => (⟨200, .health s ⟨false, false, s.finalRtpPackets, s.finalBytes, s.lastRtpAt⟩⟩, w)
  | some c =>
      let answer (fresh : Bool) : Reply := ⟨200, .health s ⟨true, fresh, c.rtpPackets, c.totalBytes, c.lastRtpTime⟩⟩
      if c.rtpPackets = 0 then (answer false, w)
      else if s.contractVersion = 3 then
        let fresh := match mediaMonotonicMs w with
          | none => false
          | some t => decide (c.lastRtpMonotonicMs ≤ t ∧ t - c.lastRtpMonotonicMs ≤ rtpStaleDeadlineSec.toNat * 1000)
        (answer fresh, readMonotonic w)
      else if c.lastRtpTime = 0 then (answer false, w)
      else (answer (decide (now w - c.lastRtpTime ≤ rtpStaleDeadlineSec)), advance w)

def mvRenewed (w : World) (i : Nat) (s : MediaSession) (now : Int) : Reply × World :=
  let s := renewed s s.ttlSec now
  (⟨200, .session s⟩, mvPersist (setSession w i s) s)

def mvRenew (w : World) (i : Nat) (deadline : Int) : Reply × World :=
  let at_ := now w
  let w := advance w
  let s := session w i
  if live s = false then (failure 410 .expired, w)
  else if s.contractVersion = 3 then
    match mediaV3RenewDeadline w s deadline with
    | (none, w) => (failure 410 .expired, w)
    | (some s, w) => mvRenewed w i s at_
  else if deadline ≤ at_ ∨ 7200 < deadline - at_ then (failure 410 .expired, w)
  else mvRenewed w i (renewed s (toInt (deadline - at_)) s.renewedAt) at_

/-- The session is resolved by id once; the stop resolves it again. -/
def mvUpdate (w : World) (r : MediaUpdate) (cameraNegotiated : Bool) : Reply × World :=
  match findSessionById w r.sessionId with
  | none => (failure 409 .leaseMismatch, w)
  | some i =>
      if mvIdentity (session w i) r = false then (failure 409 .leaseMismatch, w)
      else if mcSessionExtended (session w i) = true ∧ cameraNegotiated = false then (failure 422 .unsupported, w)
      else
        let w := expireMediaSession (advance w) i (now w)
        match r.kind with
        | .stop reason =>
            let w := (stopMediaSession w (session w i).sessionId reason).2
            (⟨200, .session (session w i)⟩, mvPersist w (session w i))
        | .renew deadline => mvRenew w i deadline
        | .health => mvHealth w (session w i)

def mediaV2Start (w : World) (cameraNegotiated : Bool) (r : MediaStart) : Reply × World :=
  if cameraNegotiated = false ∧ mcExtended r.descriptor = true then (failure 422 .unsupported, w)
  else mvStart w r

end EtranProcessing.Ingress.MediaV2
