import Mathlib

namespace EtranProcessing.Proxy.RtpTunnel

def frameRtp : UInt8 := 1
def frameRtcp : UInt8 := 2

def SerialNumber : Type := { sn : List UInt8 // 1 ≤ sn.length ∧ sn.length ≤ 127 ∧ 0 ∉ sn }

def Payload : Type := { p : List UInt8 // 1 ≤ p.length ∧ p.length ≤ 65507 }

structure Datagram where
  isRtcp : Bool
  payload : Payload

inductive TunnelState
  | idle | connecting | streaming | backoff
  deriving DecidableEq

structure ProxyConfig where
  rtpTunnelIdleTimeoutSec : Int
  rtpTunnelReconnectSec : Int

def reconnectMaxSec : Int := 30

def ProxyConfig.baseReconnectSec (config : ProxyConfig) : Int :=
  if 0 < config.rtpTunnelReconnectSec then config.rtpTunnelReconnectSec else 3

/-- The worker between two turns of its loop. -/
structure Tunnel where
  state : TunnelState
  isConnected : Bool
  currentBackoffSec : Int
  lastActivityTime : Nat
  pending : Option Datagram
  /-- The bytes of the last connection, as far as they were sent in full, and the datagrams taken on it. -/
  written : List UInt8
  taken : List Datagram
  /-- What the connection has brought, and what of it went to the local RTCP sender. -/
  arrived : List UInt8
  delivered : List (List UInt8)

def Tunnel.init (config : ProxyConfig) : Tunnel where
  state := .idle
  isConnected := false
  currentBackoffSec := config.baseReconnectSec
  lastActivityTime := 0
  pending := none
  written := []
  taken := []
  arrived := []
  delivered := []

structure Reading where
  payload : Payload
  sent : Bool
  now : Nat

/-- The answers of the system in one turn; the readings end where recvfrom has no more. -/
structure Turn where
  policyMediaAllowed : Bool
  /-- The sockets that are ready, when there are any. -/
  ready : Option (Bool × Bool)
  rtp : List Reading
  rtcp : List Reading
  connected : Bool
  preambleSent : Bool
  firstSent : Bool
  now : Nat
  trafficSeenDuringBackoff : Bool

def be16 (n : Nat) : List UInt8 := [UInt8.ofNat (n >>> 8), UInt8.ofNat n]

def preamble (sn : SerialNumber) : List UInt8 := [0x4c, 0x34, 0x52, 0x54, 1, 0] ++ be16 sn.val.length ++ sn.val

def Datagram.type (d : Datagram) : UInt8 := if d.isRtcp then frameRtcp else frameRtp

def Datagram.frame (d : Datagram) : List UInt8 := [d.type, 0] ++ be16 d.payload.val.length ++ d.payload.val

section Worker

variable (config : ProxyConfig) (sn : SerialNumber) (t : Tunnel)

def Tunnel.close (state : TunnelState) : Tunnel := { t with isConnected := false, state := state }

def Tunnel.send (d : Datagram) : Tunnel := { t with written := t.written ++ d.frame, taken := t.taken ++ [d] }

def Tunnel.await (d : Datagram) : Tunnel := { t with pending := some d, state := .connecting }

def Tunnel.drain (isRtcp : Bool) (t : Tunnel) : List Reading → Tunnel
  | [] => t
  | r :: rest =>
      if r.sent then ({ t.send ⟨isRtcp, r.payload⟩ with lastActivityTime := r.now }).drain isRtcp rest else t.close .backoff

def Tunnel.idle (turn : Turn) : Tunnel :=
  match turn.ready with
  | none => t
  | some (rtpReady, rtcpReady) =>
      if rtpReady then
        match turn.rtp with
        | r :: _ => t.await ⟨false, r.payload⟩
        | [] => t
      else if rtcpReady then
        match turn.rtcp with
        | r :: _ => t.await ⟨true, r.payload⟩
        | [] => t
      else t

def Tunnel.connect (turn : Turn) : Tunnel :=
  if turn.connected = false then { t with pending := none, state := .backoff }
  else if turn.preambleSent = false then { t.close .backoff with pending := none }
  else
    let t :=
      { t with
        isConnected := true, currentBackoffSec := config.baseReconnectSec
        written := preamble sn, taken := [], arrived := [] }
    match t.pending with
    | none => { t with lastActivityTime := turn.now, state := .streaming }
    | some d =>
        let t := { t with pending := none }
        if turn.firstSent then { t.send d with lastActivityTime := turn.now, state := .streaming } else t.close .backoff

def Tunnel.idleTimeout (now : Nat) : Prop :=
  0 < config.rtpTunnelIdleTimeoutSec ∧ config.rtpTunnelIdleTimeoutSec * 1000 ≤ now - t.lastActivityTime

instance (now : Nat) : Decidable (t.idleTimeout config now) := inferInstanceAs (Decidable (_ ∧ _))

def Tunnel.stream (turn : Turn) : Tunnel :=
  if t.idleTimeout config turn.now then t.close .idle
  else
    match turn.ready with
    | none => t
    | some (rtpReady, rtcpReady) =>
        let t := if rtpReady then t.drain false (turn.rtp.take 32) else t
        if t.state = .backoff then t
        else if rtcpReady then t.drain true (turn.rtcp.take 16)
        else t

/-- The wait after a failure; what comes during it is dropped. -/
def Tunnel.waitOut (turn : Turn) : Tunnel :=
  let t := { t with currentBackoffSec := min (t.currentBackoffSec * 2) reconnectMaxSec }
  if turn.trafficSeenDuringBackoff then
    match turn.rtp, turn.rtcp with
    | r :: _, _ => t.await ⟨false, r.payload⟩
    | [], r :: _ => t.await ⟨true, r.payload⟩
    | [], [] => { t with state := .idle }
  else { t with state := .idle }

def Tunnel.turn (turn : Turn) : Tunnel :=
  if turn.policyMediaAllowed = false then { t.close .idle with pending := none }
  else
    match t.state with
    | .idle => t.idle turn
    | .connecting => t.connect config sn turn
    | .streaming => t.stream config turn
    | .backoff => t.waitOut turn

end Worker

/-- A turn of the worker, or bytes that come in on its connection. -/
inductive Event
  | turn (turn : Turn)
  | arrives (bytes : List UInt8)

def step (config : ProxyConfig) (sn : SerialNumber) (t : Tunnel) : Event → Tunnel
  | .turn turn => t.turn config sn turn
  | .arrives bytes => if t.isConnected then { t with arrived := t.arrived ++ bytes } else t

end EtranProcessing.Proxy.RtpTunnel
