import EtranProcessing.Ingress.State

namespace EtranProcessing.Ingress.Stores

open State

/-! The two services the process talks to: Janus, through its admin API, and
the Redis ownership store. -/

def janusSend (w : World) (request : JanusRequest) : World :=
  { advance w with janus := w.janus ++ [request] }

def legacyVideoFmtp : CString := bytes "profile-level-id=42e01f;packetization-mode=1"

def lower (c : UInt8) : UInt8 := if 65 ≤ c ∧ c ≤ 90 then c + 32 else c

def equalIgnoringCase (a b : CString) : Bool := a.map lower == b.map lower

inductive Ensure
  | ready | unavailable | conflict
  deriving DecidableEq

def janusCreateFormat (w : World) (id : Nat) (rtp rtcp : Int) (pin codec : CString) (pt : Int)
    (fmtp : CString) : Bool × World :=
  (w.env.janusCreated w.tick, janusSend w (.create id rtp rtcp pin codec pt fmtp))

/-- Adopt a mountpoint that agrees in ports, pin and format, create one that is
absent, and never touch one that disagrees. -/
def janusEnsureFormat (w : World) (id : Nat) (rtp rtcp : Int) (pin codec : CString) (pt : Int)
    (fmtp : CString) (strict : Bool) : Ensure × World :=
  match w.env.janusInfo w.tick with
  | none => (.unavailable, janusSend w (.info id))
  | some info =>
      let w := janusSend w (.info id)
      if info.found then
        let format := (equalIgnoringCase info.codec codec && info.payloadType == pt && info.fmtp == fmtp) ||
          (!strict && info.codec.isEmpty && info.fmtp.isEmpty)
        if info.videoport ≠ rtp ∨ info.videortcpport ≠ rtcp ∨ info.pin ≠ pin ∨ format = false then
          (.conflict, w)
        else (.ready, w)
      else
        let (created, w) := janusCreateFormat w id rtp rtcp pin codec pt fmtp
        (if created then .ready else .unavailable, w)

def janusMountpointEnsure (w : World) (id : Nat) (rtp rtcp : Int) (pin : CString) : Ensure × World :=
  janusEnsureFormat w id rtp rtcp pin (bytes "h264") 96 legacyVideoFmtp false

def janusDestroyMountpoint (w : World) (id : Nat) : World := janusSend w (.destroy id)

/-- The ids of a list answer, when every one of them is a positive int32 and
they fit the caller's array. -/
def janusListMountpoints (w : World) : Option (List Nat) × World :=
  let ids := (w.env.janusList w.tick).bind fun ids =>
    if ids.length ≤ 2 * maxMediaSessions ∧ ∀ id ∈ ids, 0 < id ∧ id ≤ int32Max then some (ids.map Int.toNat)
    else none
  (ids, janusSend w .list)

def redisGet (w : World) (key : RedisKey) : Option RedisValue :=
  (w.redis.bind fun store => store.find? fun entry => entry.1 == key).map fun entry => entry.2.1

def redisSetEx (w : World) (key : RedisKey) (value : RedisValue) (ttl : Int) : World :=
  { w with redis := w.redis.map fun store => (key, value, ttl) :: store.filter fun entry => entry.1 != key }

def redisDel (w : World) (key : RedisKey) : World :=
  { w with redis := w.redis.map fun store => store.filter fun entry => entry.1 != key }

def mediaRedisTtlFor (ttl : Int) : Int := max 60 (ttl + 60)

def legacyRecord (s : MediaSession) (renewedAt : Int) : CString :=
  let fields := [s.sessionId, s.operationId, s.sn, decimal s.deviceId, decimal s.mountpointId,
    decimal s.rtpPort, decimal s.rtcpPort, if s.pin.isEmpty then bytes "-" else s.pin,
    decimal s.state.code, decimal s.ttlSec, decimal s.createdAt, decimal s.startedAt, decimal renewedAt]
  safeStrcpy 2048 (List.intercalate (bytes "|") fields)

def mediaRedisSaveSession (w : World) (s : MediaSession) (renewedAt : Int) : World :=
  if s.sessionId = [] then w
  else
    let ttl := mediaRedisTtlFor s.ttlSec
    let w := redisSetEx w (.session s.sessionId) (.text (legacyRecord s renewedAt)) ttl
    let w := if s.sn = [] then w else redisSetEx w (.sessionBySn s.sn) (.text s.sessionId) ttl
    redisSetEx w (.mountpoint s.mountpointId) (.text s.sessionId) ttl

def mediaRedisSaveRoute (w : World) (s : MediaSession) : World :=
  if s.sn = [] then w
  else
    let value := List.intercalate (bytes ":") [decimal s.rtpPort, decimal s.rtcpPort, decimal s.mountpointId]
    redisSetEx w (.route s.sn) (.text value) (mediaRedisTtlFor s.ttlSec)

def mediaRedisDropSession (w : World) (s : MediaSession) : World :=
  let w := if s.sessionId = [] then w else redisDel w (.session s.sessionId)
  let w := if s.sn = [] then w else redisDel (redisDel w (.sessionBySn s.sn)) (.route s.sn)
  redisDel w (.mountpoint s.mountpointId)

def mediaRedisOwnsSn (w : World) (sn : CString) : Bool :=
  !sn.isEmpty && ((redisGet w (.route sn)).isSome || (redisGet w (.sessionBySn sn)).isSome)

/-- The record of a contract 2 or 3 session: the original request with the
current lease end and pin written into it, and the server's own choices. -/
def persistedSession (w : World) (s : MediaSession) (request : MediaStart) : PersistedSession where
  formatVersion := s.contractVersion
  request := { request with
    leaseExpiresAt := if s.contractVersion = 3 then s.issuerExpiryUtc else s.renewedAt + s.ttlSec
    pin := some s.pin }
  mountpointId := s.mountpointId
  rtpPort := s.rtpPort
  rtcpPort := s.rtcpPort
  state := s.state
  routeGeneration := s.routeGeneration
  createdAt := s.createdAt
  startedAt := s.startedAt
  renewedAt := s.renewedAt
  stopReason := s.stopReason
  monotonicDeadlineMs := if s.contractVersion = 3 then some s.monotonicDeadlineMs else none
  monotonicBootId := if s.contractVersion = 3 then mediaMonotonicBootId w.env else none

def mvPersist (w : World) (s : MediaSession) : World :=
  match modern s, s.v2Request with
  | true, some request =>
      let ttl := mediaRedisTtlFor s.ttlSec
      let w := redisSetEx w (.session s.sessionId) (.record (persistedSession w s request)) ttl
      if live s then
        let w := redisSetEx w (.sessionBySn s.sn) (.text s.sessionId) ttl
        let w := redisSetEx w (.mountpoint s.mountpointId) (.text s.sessionId) ttl
        mediaRedisSaveRoute w s
      else w
  | _, _ => w

end EtranProcessing.Ingress.Stores
