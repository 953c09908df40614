import EtranProcessing.Ingress.MediaV2

namespace EtranProcessing.Ingress.Framing

open State Clock Feedback Routes Stores Lifecycle MediaV2

/-- Accept a connection. The epoch is spent even if epoll then refuses the
socket. -/
def addIngressClient (w : World) : World :=
  if w.nextEpoch = 0 ∨ 2 ^ 62 - 1 < w.nextEpoch ∨ maxClients ≤ w.clients.length then w
  else
    let at_ := now w
    let w := { advance w with nextEpoch := w.nextEpoch + 1 }
    let mono := (mediaMonotonicMs w).getD 0
    let w := readMonotonic w
    let c : IngressClient :=
      { epoch := w.nextEpoch - 1, connectTime := at_, lastActivity := at_, lastActivityMonotonicMs := mono }
    if w.env.socketReady w.tick then { advance w with clients := w.clients ++ [c] } else advance w

def removeIngressClient (w : World) (e : Nat) : World :=
  { advance w with clients := w.clients.filter fun c => c.epoch != e }

def expireOwner (w : World) (sn : CString) : World :=
  match findActiveSessionForSn w sn with
  | none => w
  | some i => if (session w i).contractVersion = 3 then expireMediaSession (advance w) i (now w) else w

def revokeClient (w : World) (e : Nat) : World := updateClient w e fun c => { c with cameraRouteRevoked := true }

/-- Whether a connection still belongs to the camera session it was bound to.
The owner is resolved before its lease is checked. -/
def cameraConnectionCurrent (w : World) (c : IngressClient) : Bool × World :=
  if c.cameraRouteRevoked then (false, w)
  else if c.cameraRouteGeneration = 0 then (true, w)
  else
    match findActiveSessionForSn w c.sn with
    | none => (false, revokeClient w c.epoch)
    | some i =>
        let w := expireOwner w c.sn
        let s := session w i
        if live s = true ∧ s.cameraSource = true ∧ s.routeGeneration = c.cameraRouteGeneration ∧
            s.minimumCameraConnectionEpoch ≤ c.epoch then (true, w)
        else (false, revokeClient w c.epoch)

def stampRtp (w : World) (e : Nat) : World :=
  let at_ := now w
  let w := updateClient (advance w) e fun c => { c with lastRtpTime := at_ }
  match mediaMonotonicMs w with
  | none => readMonotonic w
  | some t => updateClient (readMonotonic w) e fun c => { c with lastRtpMonotonicMs := t }

def stampActivity (w : World) (e : Nat) : World :=
  let at_ := now w
  let w := updateClient (advance w) e fun c => { c with lastActivity := at_ }
  match mediaMonotonicMs w with
  | none => readMonotonic w
  | some t => updateClient (readMonotonic w) e fun c => { c with lastActivityMonotonicMs := t }

def logForward (w : World) (c : IngressClient) (channel : Channel) (payload : List UInt8) : World :=
  { w with forwarded := w.forwarded ++ [⟨c, w.sessions, channel, payload⟩] }

/-- The first RTP packet of a contract 2 or 3 session makes it ACTIVE. -/
def activateOwner (w : World) (sn : CString) : World :=
  match findActiveSessionForSn w sn with
  | none => w
  | some i =>
      let s := session w i
      if modern s = true ∧ s.state = .starting then
        let s := { s with state := .active }
        mvPersist (setSession w i s) s
      else w

/-- The per-connection RTCP socket: the first answer is for socket and connect,
the second for its registration. -/
def ensureRtcpSocket (w : World) (c : IngressClient) : Bool × World :=
  if c.rtcpOpen then (true, w)
  else if c.rtcpPort ≤ 0 then (false, w)
  else if w.env.socketReady w.tick = false then (false, advance w)
  else
    let generation := w.nextRtcpGeneration
    let w := { advance w with nextRtcpGeneration := generation + 1 }
    if w.env.socketReady w.tick then
      (true, updateClient (advance w) c.epoch fun c => { c with rtcpGeneration := generation, rtcpOpen := true })
    else (false, updateClient (advance w) c.epoch fun c => { c with rtcpGeneration := generation })

def countUnrouted (w : World) (e : Nat) : World :=
  updateClient w e fun c => { c with unroutedPackets := c.unroutedPackets + 1 }

def forwardRtp (w : World) (c : IngressClient) (payload : List UInt8) : World :=
  if 0 < c.rtpPort then
    let w := logForward w c .rtp payload
    let w := updateClient w c.epoch fun c =>
      { c with rtpPackets := c.rtpPackets + 1, totalBytes := c.totalBytes + payload.length }
    activateOwner w c.sn
  else countUnrouted w c.epoch

def forwardRtcp (w : World) (c : IngressClient) (payload : List UInt8) : World :=
  if 0 < c.rtcpPort then
    let (ready, w) := ensureRtcpSocket w c
    let w := if ready then logForward w c .rtcp payload else w
    updateClient w c.epoch fun c =>
      { c with rtcpPackets := c.rtcpPackets + 1, totalBytes := c.totalBytes + payload.length }
  else countUnrouted w c.epoch

def withClient (w : World) (e : Nat) (f : IngressClient → World) : World :=
  match findClient w e with
  | none => w
  | some c => f c

def dispatchFrame (w : World) (e : Nat) (type : UInt8) (payload : List UInt8) : World :=
  let w := { w with dispatched := w.dispatched ++ [⟨e, type, payload⟩] }
  if type = frameRtp then
    let w := stampRtp w e
    withClient w e fun c => forwardRtp w c payload
  else if type = frameRtcp then
    let at_ := now w
    let w := updateClient (advance w) e fun c => { c with lastRtcpTime := at_ }
    withClient w e fun c => forwardRtcp w c payload
  else if type = frameKeepalive then
    updateClient w e fun c => { c with keepalivePackets := c.keepalivePackets + 1 }
  else w

/-- One complete frame: false when the connection was dropped. -/
def handleFrame (w : World) (e : Nat) (type : UInt8) (payload : List UInt8) : Bool × World :=
  match findClient w e with
  | none => (false, w)
  | some c =>
      match cameraConnectionCurrent w c with
      | (false, w) => (false, removeIngressClient w e)
      | (true, w) => (true, dispatchFrame (expireOwner w c.sn) e type payload)

inductive ParsedFrame
  | incomplete
  | oversized
  | frame (type : UInt8) (payload rest : List UInt8)

def nextFrame (buf : List UInt8) : ParsedFrame :=
  if buf.length < 4 then .incomplete
  else
    let payloadLen := be16 (buf.getD 2 0) (buf.getD 3 0)
    if maxRtpPayloadSize < payloadLen then .oversized
    else if buf.length < 4 + payloadLen then .incomplete
    else .frame (buf.getD 0 0) ((buf.drop 4).take payloadLen) (buf.drop (4 + payloadLen))

/-- The batch loop over the frames of the buffer; the fuel is its length. The
partial tail is kept. -/
def frameLoop (e : Nat) : Nat → World → List UInt8 → Bool × World
  | 0, w, buf => (true, updateClient w e fun c => { c with rxBuf := buf })
  | fuel + 1, w, buf =>
      match nextFrame buf with
      | .incomplete => (true, updateClient w e fun c => { c with rxBuf := buf })
      | .oversized => (false, removeIngressClient w e)
      | .frame type payload rest =>
          match handleFrame w e type payload with
          | (false, w) => (false, w)
          | (true, w) => frameLoop e fuel w rest

inductive ParsedPreamble
  | incomplete
  | invalid
  | complete (sn rest : List UInt8)

def preambleMagic : List UInt8 := bytes "L4RT"
def preambleVersion : UInt8 := 1

def parsePreamble (buf : List UInt8) : ParsedPreamble :=
  if buf.length < 8 then .incomplete
  else if buf.take 4 ≠ preambleMagic ∨ buf.getD 4 0 ≠ preambleVersion then .invalid
  else
    let snLen := be16 (buf.getD 6 0) (buf.getD 7 0)
    if snLen = 0 ∨ 127 < snLen then .invalid
    else if buf.length < 8 + snLen then .incomplete
    else .complete ((buf.drop 8).take snLen) (buf.drop (8 + snLen))

/-- A connection is refused if it is older than the camera session of the
device it names. -/
def tooOld (w : World) (e : Nat) (sn : CString) : Bool :=
  match findActiveSessionForSn w sn with
  | none => false
  | some i => (session w i).cameraSource && decide (e < (session w i).minimumCameraConnectionEpoch)

def closeDuplicate (w : World) (e : Nat) (sn : CString) : World :=
  match w.clients.find? fun c => c.epoch != e && c.sn == sn with
  | none => w
  | some old => removeIngressClient w old.epoch

/-- The fields a connection gets when its preamble is complete. -/
def bindClient (w : World) (sn : CString) (c : IngressClient) : IngressClient :=
  let owner := (findActiveSessionForSn w sn).map (session w)
  let route := findRoute w sn
  { c with
    sn := sn
    state := .framing
    keyframeFeedbackIntervalMs := if (owner.map modern).getD false then 500 else 0
    cameraRouteGeneration := match owner with
      | some s => if s.cameraSource then s.routeGeneration else c.cameraRouteGeneration
      | none => c.cameraRouteGeneration
    rtpPort := (route.map fun r => r.rtpPort).getD 0
    rtcpPort := (route.map fun r => r.rtcpPort).getD 0 }

def completePreamble (w : World) (e : Nat) (snBytes : List UInt8) : Bool × World :=
  let sn := untilNul snBytes
  if tooOld w e sn then (false, removeIngressClient w e)
  else
    let w := closeDuplicate w e sn
    (true, updateClient w e (bindClient w sn))

/-- The parser after one successful recv. -/
def parseBuffer (w : World) (c : IngressClient) (buf : List UInt8) : Bool × World :=
  match c.state with
  | .framing => frameLoop c.epoch buf.length w buf
  | .preamble =>
      match parsePreamble buf with
      | .incomplete => (true, updateClient w c.epoch fun c => { c with rxBuf := buf })
      | .invalid => (false, removeIngressClient w c.epoch)
      | .complete sn rest =>
          match completePreamble w c.epoch sn with
          | (false, w) => (false, w)
          | (true, w) => frameLoop c.epoch rest.length w rest

inductive Recv
  | data (chunk : List UInt8)
  | wouldBlock
  | failed
  | closed

/-- One turn of the receive loop: true to go on. At most the free part of the
buffer is read, and reading nothing means the peer has closed. -/
def recvStep (w : World) (e : Nat) (r : Recv) : Bool × World :=
  match findClient w e with
  | none => (false, w)
  | some c =>
      if rxBufferSize ≤ c.rxBuf.length then (false, removeIngressClient w e)
      else
        match r with
        | .wouldBlock => (false, w)
        | .failed => (false, removeIngressClient w e)
        | .closed => (false, removeIngressClient w e)
        | .data chunk =>
            let chunk := chunk.take (rxBufferSize - c.rxBuf.length)
            if chunk = [] then (false, removeIngressClient w e)
            else parseBuffer (stampActivity w e) c (c.rxBuf ++ chunk)

def recvLoop (e : Nat) : List Recv → World → World
  | [], w => w
  | r :: rest, w =>
      match recvStep w e r with
      | (false, w) => w
      | (true, w) => recvLoop e rest w

/-- Go on with a connection if it is current, else drop it. -/
def ifCurrent (w : World) (e : Nat) (f : World → World) : World :=
  match findClient w e with
  | none => w
  | some c =>
      match cameraConnectionCurrent w c with
      | (false, w) => removeIngressClient w e
      | (true, w) => f w

def processIngressData (w : World) (e : Nat) (recvs : List Recv) : World :=
  ifCurrent w e (recvLoop e recvs)

def flushFeedback (w : World) (e : Nat) (sends : List SendOutcome) : World :=
  ifCurrent w e fun w => withClient w e fun c =>
    let w := updateClient w e fun c => (flushQueue c sends).2
    if (flushQueue c sends).1 then w else removeIngressClient w e

def receiveFeedback (w : World) (e : Nat) (reads : List RecvOutcome) (sends : List SendOutcome) : World :=
  ifCurrent w e fun w =>
    flushFeedback (updateClient w e fun c => queueBatch feedbackBatchLimit c reads) e sends

def ingressClientIdle (w : World) (c : IngressClient) (wall : Int) : Bool × World :=
  match findActiveSessionForSn w c.sn with
  | none => (decide (clientIdleTimeoutSec < wall - c.lastActivity), w)
  | some i =>
      if (session w i).contractVersion = 3 then
        (match mediaMonotonicMs w with
          | none => true
          | some t => decide (t < c.lastActivityMonotonicMs) ||
              decide (clientIdleTimeoutSec.toNat * 1000 < t - c.lastActivityMonotonicMs), readMonotonic w)
      else (decide (clientIdleTimeoutSec < wall - c.lastActivity), w)

def sweepClient (wall : Int) (w : World) (e : Nat) : World :=
  ifCurrent w e fun w => withClient w e fun c =>
    match ingressClientIdle w c wall with
    | (true, w) => removeIngressClient w e
    | (false, w) => w

/-- The idle check of the main loop. A removal shifts the array and the index
stays, so every connection that was there is looked at once. -/
def idleSweep (w : World) (wall : Int) : World :=
  (w.clients.map fun c => c.epoch).foldl (sweepClient wall) w

def expirySweep (w : World) (now : Int) : World :=
  (List.range w.sessions.length).foldl (fun w i => expireMediaSession w i now) w

end EtranProcessing.Ingress.Framing
