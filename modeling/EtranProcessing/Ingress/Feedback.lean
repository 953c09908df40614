import EtranProcessing.Ingress.State

namespace EtranProcessing.Ingress.Feedback

open State

def frameRtp : UInt8 := 1
def frameRtcp : UInt8 := 2
def frameKeepalive : UInt8 := 3

def be16 (hi lo : UInt8) : Nat := hi.toNat * 256 + lo.toNat

def frame (payload : List UInt8) : List UInt8 :=
  frameRtcp :: 0 :: UInt8.ofNat (payload.length / 256) :: UInt8.ofNat payload.length :: payload

inductive SendOutcome
  | wrote (n : Nat)
  | wouldBlock
  | interrupted
  | failed

inductive RecvOutcome
  | packet (data : List UInt8) (nowMs : Nat)
  | oversized
  | interrupted
  | stopped

/-- The epoll registration is not part of the record; the per-stream UDP socket
is closed, the queue keeps at most the frame that is being sent. -/
def resetFeedback (c : IngressClient) : IngressClient :=
  let c := { c with keyframeFeedbackAtMs := 0, keyframeFeedbackIntervalMs := 0, rtcpOpen := false }
  if c.txOff ≠ 0 ∧ c.txOff < c.txFirstEnd then { c with txBuf := c.txBuf.take c.txFirstEnd }
  else { c with txBuf := [], txOff := 0, txFirstEnd := 0 }

/-- The scan of valid_rtcp from the current offset. The fuel is the number of
bytes: every packet has at least four. -/
def validPackets : Nat → List UInt8 → Bool
  | 0, rest => rest.isEmpty
  | fuel + 1, rest =>
      if rest.isEmpty then true
      else if rest.length < 4 ∨ rest.getD 0 0 >>> 6 ≠ 2 ∨ rest.getD 1 0 < 192 ∨ 223 < rest.getD 1 0 then false
      else
        let size := (be16 (rest.getD 2 0) (rest.getD 3 0) + 1) * 4
        if rest.length < size then false
        else if rest.getD 0 0 &&& 0x20 ≠ 0 ∧ (size ≠ rest.length ∨ rest.getD (size - 1) 0 = 0 ∨
            size - 4 < (rest.getD (size - 1) 0).toNat) then false
        else validPackets fuel (rest.drop size)

def validRtcp (data : List UInt8) : Bool := validPackets data.length data && decide (4 ≤ data.length)

/-- The keyframe limiter over the packets of one datagram. The time difference
is an unsigned 64-bit one. -/
def coalesceLoop : Nat → IngressClient → List UInt8 → Nat → IngressClient × List UInt8
  | 0, c, _, _ => (c, [])
  | fuel + 1, c, rest, nowMs =>
      if rest.isEmpty then (c, [])
      else
        let size := (be16 (rest.getD 2 0) (rest.getD 3 0) + 1) * 4
        let fmt := rest.getD 0 0 &&& 31
        let keyframe := rest.getD 1 0 == 206 && (fmt == 1 || fmt == 4)
        let limited := keyframe && c.keyframeFeedbackAtMs != 0 &&
          decide ((nowMs + 2 ^ 64 - c.keyframeFeedbackAtMs) % 2 ^ 64 < c.keyframeFeedbackIntervalMs)
        if limited then
          coalesceLoop fuel { c with feedbackDropped := c.feedbackDropped + 1 } (rest.drop size) nowMs
        else
          let c := if keyframe then { c with keyframeFeedbackAtMs := nowMs } else c
          let (c, out) := coalesceLoop fuel c (rest.drop size) nowMs
          (c, rest.take size ++ out)

def coalesceFeedback (c : IngressClient) (packet : List UInt8) (nowMs : Nat) : IngressClient × List UInt8 :=
  if c.keyframeFeedbackIntervalMs = 0 then (c, packet) else coalesceLoop packet.length c packet nowMs

/-- One datagram of receive_feedback, up to the append at the end of the queue. -/
def queueDatagram (c : IngressClient) (data : List UInt8) (nowMs : Nat) : IngressClient :=
  if maxRtpPayloadSize < data.length ∨ validRtcp data = false then c
  else if feedbackQueueSize - c.txBuf.length < data.length + 4 then
    { c with feedbackDropped := c.feedbackDropped + 1 }
  else
    let (c, out) := coalesceFeedback c data nowMs
    if out = [] then c else { c with txBuf := c.txBuf ++ frame out }

/-- The batch loop: an interrupted read does not count against the limit, any
other read error ends it. -/
def queueBatch : Nat → IngressClient → List RecvOutcome → IngressClient
  | 0, c, _ => c
  | _, c, [] => c
  | limit + 1, c, .packet data nowMs :: rest => queueBatch limit (queueDatagram c data nowMs) rest
  | limit + 1, c, .oversized :: rest => queueBatch limit c rest
  | limit + 1, c, .interrupted :: rest => queueBatch (limit + 1) c rest
  | _, c, .stopped :: _ => c

def startFrame (c : IngressClient) : IngressClient :=
  if c.txFirstEnd = 0 then
    { c with txFirstEnd := c.txOff + 4 + be16 (c.txBuf.getD (c.txOff + 2) 0) (c.txBuf.getD (c.txOff + 3) 0) }
  else c

def sendBytes (c : IngressClient) (n : Nat) : IngressClient :=
  { c with
    sent := c.sent ++ (c.txBuf.drop c.txOff).take n
    txOff := c.txOff + n
    txFirstEnd := if c.txOff + n = c.txFirstEnd then 0 else c.txFirstEnd }

/-- The write loop of flush_feedback, one outcome of send per turn. It is false
when the connection has to be dropped. -/
def flushLoop : List SendOutcome → IngressClient → Bool × IngressClient
  | [], c => (true, if c.txOff < c.txBuf.length then startFrame c else c)
  | outcome :: rest, c =>
      if c.txOff < c.txBuf.length then
        let c := startFrame c
        match outcome with
        | .wouldBlock => (true, c)
        | .interrupted => flushLoop rest c
        | .failed => (false, c)
        | .wrote n =>
            let n := min n (c.txFirstEnd - c.txOff)
            if n = 0 then (false, c) else flushLoop rest (sendBytes c n)
      else (true, c)

def flushQueue (c : IngressClient) (sends : List SendOutcome) : Bool × IngressClient :=
  match flushLoop sends c with
  | (false, c) => (false, c)
  | (true, c) =>
      if c.txOff = c.txBuf.length then (true, { c with txBuf := [], txOff := 0, txFirstEnd := 0 })
      else (true, c)

end EtranProcessing.Ingress.Feedback
