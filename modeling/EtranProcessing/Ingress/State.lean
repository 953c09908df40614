import Mathlib

namespace EtranProcessing.Ingress.State

abbrev CString := List UInt8

def bytes (s : String) : CString := s.toList.map fun c => UInt8.ofNat c.toNat

def untilNul (s : List UInt8) : CString := s.takeWhile (· != 0)

def safeStrcpy (size : Nat) (src : CString) : CString := src.take (size - 1)

def decimal (n : Int) : CString := bytes (toString n)

def int64Max : Nat := 9223372036854775807
def int32Max : Nat := 2147483647

def maxMediaSessions : Nat := 128
def maxRoutes : Nat := 512
def maxClients : Nat := 128
def rxBufferSize : Nat := 131072
def feedbackQueueSize : Nat := 131072
def feedbackBatchLimit : Nat := 32
def maxRtpPayloadSize : Nat := 65507
def clientIdleTimeoutSec : Int := 120
def rtpStaleDeadlineSec : Int := 10
def rtpFreshReconcileSec : Int := 20
def defaultPortBase : Int := 6010
def defaultPortMax : Int := 6200

inductive MediaState
  | empty | starting | active | stopping | stopped | failed
  deriving DecidableEq

def MediaState.code : MediaState → Int
  | .empty => 0
  | .starting => 1
  | .active => 2
  | .stopping => 3
  | .stopped => 4
  | .failed => 5

/-- The members of the first video track that the service reads. -/
structure Track where
  codec : CString
  payloadType : Int
  levelId : Int
  codecProfile : CString
  profileLevelId : CString
  deriving DecidableEq

/-- A descriptor together with its compact serialisation, which is what the
session record stores and what a replayed start is compared by. -/
structure Descriptor where
  dump : CString
  descriptorRevision : CString
  sourceType : CString
  cameraContractRevision : Option CString
  track : Track
  deriving DecidableEq

/-- A media_start request of contract 2 or 3, as the schema admits it. -/
structure MediaStart where
  contractVersion : Int
  sessionId : CString
  operationId : CString
  leaseId : CString
  sn : CString
  streamInstanceId : CString
  leaseExpiresAt : Int
  descriptor : Descriptor
  pin : Option CString
  deriving DecidableEq

structure MediaSession where
  sessionId : CString := []
  operationId : CString := []
  sn : CString := []
  deviceId : Nat := 0
  mountpointId : Nat := 0
  rtpPort : Int := 0
  rtcpPort : Int := 0
  pin : CString := []
  contractVersion : Int := 0
  leaseId : CString := []
  streamInstanceId : CString := []
  descriptor : Option Descriptor := none
  v2Request : Option MediaStart := none
  routeGeneration : Nat := 0
  cameraSource : Bool := false
  minimumCameraConnectionEpoch : Nat := 0
  state : MediaState := .empty
  ttlSec : Int := 0
  monotonicDeadlineMs : Nat := 0
  issuerExpiryUtc : Int := 0
  createdAt : Int := 0
  startedAt : Int := 0
  renewedAt : Int := 0
  stoppedAt : Int := 0
  stopReason : CString := []
  finalRtpPackets : Nat := 0
  finalBytes : Nat := 0
  lastRtpAt : Int := 0
  deriving DecidableEq

def live (s : MediaSession) : Bool := s.state == .active || s.state == .starting

def modern (s : MediaSession) : Bool := s.contractVersion == 2 || s.contractVersion == 3

def leaseStart (s : MediaSession) : Int := if s.renewedAt ≠ 0 then s.renewedAt else s.startedAt

structure RouteEntry where
  sn : CString
  rtpPort : Int
  rtcpPort : Int
  isStatic : Bool
  deriving DecidableEq

inductive ClientState
  | preamble | framing
  deriving DecidableEq

/-- One ingress connection. The epoch is its identity: it is never reused.
The bytes written back to the peer are kept in sent, after the fact. -/
structure IngressClient where
  epoch : Nat
  state : ClientState := .preamble
  sn : CString := []
  cameraRouteGeneration : Nat := 0
  cameraRouteRevoked : Bool := false
  rxBuf : List UInt8 := []
  rtpPort : Int := 0
  rtcpPort : Int := 0
  rtcpOpen : Bool := false
  rtcpGeneration : Nat := 0
  txBuf : List UInt8 := []
  txOff : Nat := 0
  txFirstEnd : Nat := 0
  feedbackDropped : Nat := 0
  keyframeFeedbackAtMs : Nat := 0
  keyframeFeedbackIntervalMs : Nat := 0
  rtpPackets : Nat := 0
  rtcpPackets : Nat := 0
  unroutedPackets : Nat := 0
  keepalivePackets : Nat := 0
  totalBytes : Nat := 0
  connectTime : Int := 0
  lastActivity : Int := 0
  lastActivityMonotonicMs : Nat := 0
  lastRtpMonotonicMs : Nat := 0
  lastRtpTime : Int := 0
  lastRtcpTime : Int := 0
  sent : List UInt8 := []
  deriving DecidableEq

inductive JanusRequest
  | info (id : Nat)
  | create (id : Nat) (rtp rtcp : Int) (pin codec : CString) (pt : Int) (fmtp : CString)
  | destroy (id : Nat)
  | list
  deriving DecidableEq

structure JanusMountpointInfo where
  found : Bool := false
  videoport : Int := 0
  videortcpport : Int := 0
  payloadType : Int := 0
  pin : CString := []
  codec : CString := []
  fmtp : CString := []
  deriving DecidableEq

inductive RedisKey
  | session (id : CString)
  | sessionBySn (sn : CString)
  | route (sn : CString)
  | mountpoint (id : Nat)
  deriving DecidableEq

/-- The JSON record of a contract 2 or 3 session. -/
structure PersistedSession where
  formatVersion : Int
  request : MediaStart
  mountpointId : Nat
  rtpPort : Int
  rtcpPort : Int
  state : MediaState
  routeGeneration : Nat
  createdAt : Int
  startedAt : Int
  renewedAt : Int
  stopReason : CString
  monotonicDeadlineMs : Option Nat
  monotonicBootId : Option CString
  deriving DecidableEq

inductive RedisValue
  | text (value : CString)
  | record (value : PersistedSession)
  deriving DecidableEq

structure Timespec where
  sec : Int
  nsec : Int
  deriving DecidableEq

/-- Everything the process learns from outside, one answer for every instant
at which it may ask, and the JSON printer it is linked with. No relation
between the answers is assumed. -/
structure Env where
  time : Nat → Int
  monotonic : Nat → Option Timespec
  realtime : Nat → Option Timespec
  bootId : Option CString
  janusInfo : Nat → Option JanusMountpointInfo
  janusCreated : Nat → Bool
  janusDestroyed : Nat → Bool
  janusList : Nat → Option (List Int)
  random : Nat → Option (Fin 24 → UInt8)
  socketReady : Nat → Bool
  requestDump : MediaStart → CString

def bootIdShape (value : CString) : Bool :=
  value.length == 36 && value.zipIdx.all fun (c, i) =>
    if i = 8 ∨ i = 13 ∨ i = 18 ∨ i = 23 then c == 45 else (48 ≤ c && c ≤ 57) || (97 ≤ c && c ≤ 102)

def mediaMonotonicBootId (e : Env) : Option CString := e.bootId.filter bootIdShape

/-- Runtime evidence collected by the capability probes. -/
structure FormatEvidence where
  hevcEnabled : Bool := false
  hevcVerified : Bool := false
  dependenciesReady : Bool := false
  cameraEnabled : Bool := false
  cameraH264Profiles : Nat := 0
  cameraH265Verified : Bool := false
  v3H264Profiles : Nat := 0
  v3H265Verified : Bool := false
  deriving DecidableEq

structure Metrics where
  sessionsStarted : Nat := 0
  sessionsStopped : Nat := 0
  sessionsFailed : Nat := 0
  orphansMountpoints : Nat := 0
  orphansRoutes : Nat := 0
  deriving DecidableEq

inductive Channel
  | rtp | rtcp
  deriving DecidableEq

/-- One payload handed to Janus, with the connection and the session table as
they stood when it was sent. -/
structure Forward where
  client : IngressClient
  sessions : List MediaSession
  channel : Channel
  payload : List UInt8
  deriving DecidableEq

structure Dispatch where
  epoch : Nat
  type : UInt8
  payload : List UInt8
  deriving DecidableEq

/-- The globals of the process, and the log of what it has sent out. -/
structure World where
  env : Env
  tick : Nat := 0
  sessions : List MediaSession := []
  routes : List RouteEntry := []
  clients : List IngressClient := []
  nextEpoch : Nat := 1
  nextRtcpGeneration : Nat := 1
  routeGeneration : Nat := 0
  monotonicLast : Nat := 0
  monotonicFailed : Bool := false
  redis : Option (List (RedisKey × RedisValue × Int)) := none
  evidence : FormatEvidence := {}
  metrics : Metrics := {}
  janus : List JanusRequest := []
  dispatched : List Dispatch := []
  forwarded : List Forward := []

def advance (w : World) : World := { w with tick := w.tick + 1 }

def now (w : World) : Int := w.env.time w.tick

def session (w : World) (i : Nat) : MediaSession := w.sessions.getD i {}

def setSession (w : World) (i : Nat) (s : MediaSession) : World :=
  { w with sessions := w.sessions.set i s }

def findClient (w : World) (e : Nat) : Option IngressClient :=
  w.clients.find? fun c => c.epoch == e

def updateClient (w : World) (e : Nat) (f : IngressClient → IngressClient) : World :=
  { w with clients := w.clients.map fun c => if c.epoch = e then f c else c }

inductive ErrorCode
  | invalidRequest | invalidLeaseDeadline | sessionBusy | janusError | sessionTerminated
  | portExhaustion | maxSessionsExceeded | routeCreationFailed | leaseExpired
  | activeSessionNotFound | sessionMismatch | missingSnOrLeaseId | sessionNotFound
  | endpointNotFound | invalidPayload | expired | conflict | janusUnavailable | unsupported
  | capacityExhausted | descriptorMismatch | leaseMismatch | routeNotFound | routeTableFull
  | invalidParameters
  deriving DecidableEq

/-- The media part of a health answer. -/
structure Transport where
  connected : Bool
  fresh : Bool
  rtpPackets : Nat
  totalBytes : Nat
  lastRtpAt : Int
  deriving DecidableEq

inductive Body
  | error (code : ErrorCode)
  | session (s : MediaSession)
  | stopped (s : MediaSession)
  | alreadyStopped (sessionId : CString)
  | health (s : MediaSession) (t : Transport)
  | reconciled (activeSessions cleanedMountpoints cleanedRoutes : Nat)
  | routed (clientsUpdated : Nat)
  | metrics (m : Metrics) (activeSessions : Nat)
  deriving DecidableEq

structure Reply where
  status : Nat
  body : Body
  deriving DecidableEq

def failure (status : Nat) (code : ErrorCode) : Reply := ⟨status, .error code⟩

end EtranProcessing.Ingress.State
