import EtranProcessing.Proxy.RtpTunnel
import EtranProcessing.Ingress.FeedbackFraming
import EtranProcessing.Ingress.Publishers
import EtranProcessing.Ingress.Segmentation

namespace EtranProcessing.Proxy.TunnelAgreement

open Ingress Ingress.State Ingress.Framing Ingress.EventLoop Ingress.Moves Ingress.Tokens Ingress.Segmentation Ingress.Publishers
open RtpTunnel Library.Incremental

def stream (sn : SerialNumber) (ds : List Datagram) : List UInt8 := preamble sn ++ ds.flatMap Datagram.frame

section Sender

variable {config : ProxyConfig} {sn : SerialNumber} {t : Tunnel}

structure Intact (sn : SerialNumber) (t : Tunnel) : Prop where
  written : t.isConnected = true → t.written = stream sn t.taken
  delivered : t.delivered = []

theorem stream_append (d : Datagram) (ds : List Datagram) : stream sn (ds ++ [d]) = stream sn ds ++ d.frame := by
  simp [stream]

theorem Intact.close (h : Intact sn t) (state : TunnelState) : Intact sn (t.close state) :=
  ⟨fun hconnected => (by cases hconnected), h.delivered⟩

theorem Intact.send (h : Intact sn t) (d : Datagram) : Intact sn (t.send d) := by
  refine ⟨fun hconnected => ?_, h.delivered⟩
  have hbefore : t.isConnected = true := hconnected
  simp only [Tunnel.send, stream_append, h.written hbefore]

theorem Intact.drain (h : Intact sn t) (isRtcp : Bool) (readings : List Reading) : Intact sn (t.drain isRtcp readings) := by
  induction readings generalizing t with
  | nil => exact h
  | cons r rest ih =>
      unfold Tunnel.drain
      split
      · exact ih ⟨(h.send ⟨isRtcp, r.payload⟩).written, h.delivered⟩
      · exact h.close .backoff

theorem Intact.idle (h : Intact sn t) (turn : Turn) : Intact sn (t.idle turn) := by
  have hawait : ∀ d, Intact sn (t.await d) := fun d => ⟨h.written, h.delivered⟩
  unfold Tunnel.idle
  split
  · exact h
  split
  · split
    · apply hawait
    · exact h
  split
  · split
    · apply hawait
    · exact h
  · exact h

theorem Intact.connect (h : Intact sn t) (turn : Turn) : Intact sn (t.connect config sn turn) := by
  unfold Tunnel.connect
  split
  · exact ⟨h.written, h.delivered⟩
  split
  · exact ⟨(h.close .backoff).written, h.delivered⟩
  · dsimp only
    split
    · refine ⟨fun _ => ?_, h.delivered⟩
      simp [TunnelAgreement.stream]
    · next d _ =>
        split
        · refine ⟨fun _ => ?_, h.delivered⟩
          simp [Tunnel.send, TunnelAgreement.stream]
        · exact ⟨fun hconnected => (by cases hconnected), h.delivered⟩

theorem Intact.stream (h : Intact sn t) (turn : Turn) : Intact sn (t.stream config turn) := by
  unfold Tunnel.stream
  split
  · exact h.close .idle
  split
  · exact h
  · next rtpReady rtcpReady _ =>
      have hrtp : Intact sn (if rtpReady then t.drain false (turn.rtp.take 32) else t) := by
        split
        · exact h.drain false _
        · exact h
      dsimp only
      generalize (if rtpReady then t.drain false (turn.rtp.take 32) else t) = t' at hrtp ⊢
      split
      · exact hrtp
      split
      · exact hrtp.drain true _
      · exact hrtp

theorem Intact.waitOut (h : Intact sn t) (turn : Turn) : Intact sn (t.waitOut turn) := by
  have hsame : ∀ t' : Tunnel, t'.isConnected = t.isConnected → t'.written = t.written → t'.taken = t.taken →
      t'.delivered = t.delivered → Intact sn t' := by
    intro t' hconnected hwritten htaken hdelivered
    refine ⟨fun hnow => ?_, hdelivered.trans h.delivered⟩
    rw [hwritten, htaken]
    exact h.written (hconnected.symm.trans hnow)
  unfold Tunnel.waitOut
  dsimp only
  split
  · split <;> exact hsame _ rfl rfl rfl rfl
  · exact hsame _ rfl rfl rfl rfl

theorem step_intact (h : Intact sn t) (e : RtpTunnel.Event) : Intact sn (RtpTunnel.step config sn t e) := by
  cases e with
  | turn turn =>
      simp only [RtpTunnel.step, Tunnel.turn]
      split
      · exact ⟨(h.close .idle).written, h.delivered⟩
      split
      · exact h.idle turn
      · exact h.connect turn
      · exact h.stream turn
      · exact h.waitOut turn
  | arrives bytes =>
      simp only [RtpTunnel.step]
      split
      · exact ⟨h.written, h.delivered⟩
      · exact h

theorem run_intact (config : ProxyConfig) (sn : SerialNumber) (events : List RtpTunnel.Event) :
    Intact sn (Library.Runs.run (RtpTunnel.step config sn) (Tunnel.init config) events) := by
  have hinit : Intact sn (Tunnel.init config) := ⟨fun hconnected => (by cases hconnected), rfl⟩
  exact Library.Runs.run_kept (p := Intact sn) (fun _ e h => step_intact h e) events _ hinit

end Sender

section Receiver

theorem be16_read {n : Nat} (h : n < 65536) : Feedback.be16 (UInt8.ofNat (n >>> 8)) (UInt8.ofNat n) = n := by
  simp only [Feedback.be16, UInt8.toNat_ofNat', Nat.shiftRight_eq_div_pow]
  omega

theorem parsePreamble_preamble (sn : SerialNumber) (rest : List UInt8) : parsePreamble (preamble sn ++ rest) = .complete sn.val rest := by
  obtain ⟨name, hpos, hmax, hzero⟩ := sn
  have hlen : Feedback.be16 (UInt8.ofNat (name.length >>> 8)) (UInt8.ofNat name.length) = name.length := be16_read (by omega)
  have hmagic : preambleMagic = [0x4c, 0x34, 0x52, 0x54] := by decide
  have hne : name ≠ [] := List.length_pos_iff.mp hpos
  simp [parsePreamble, preamble, be16, hlen, hmagic, preambleVersion, hne, Nat.add_comm 8]
  repeat' split
  all_goals first | omega | rfl

theorem nextFrame_frame (d : Datagram) (rest : List UInt8) : nextFrame (d.frame ++ rest) = .frame d.type d.payload.val rest := by
  obtain ⟨isRtcp, payload, hpos, hmax⟩ := d
  have hlen : Feedback.be16 (UInt8.ofNat (payload.length >>> 8)) (UInt8.ofNat payload.length) = payload.length :=
    be16_read (by omega)
  have hsmall : ¬ maxRtpPayloadSize < payload.length := by
    unfold maxRtpPayloadSize
    omega
  simp [nextFrame, Datagram.frame, be16, hlen, hsmall, Nat.add_comm 4]

def token (d : Datagram) : Token := .frame d.type d.payload.val

theorem parse_frames (welcome : List UInt8 → Bool) (ds : List Datagram) :
    parse (nextToken welcome) .framing (ds.flatMap Datagram.frame) = ⟨ds.map token, some (.framing, [])⟩ := by
  have hlaw := nextToken_prefixed welcome
  induction ds with
  | nil => exact parse_wait (hlaw.empty .framing)
  | cons d ds ih =>
      have hfirst : nextToken welcome .framing (d.frame ++ ds.flatMap Datagram.frame) =
          .token (token d) .framing (ds.flatMap Datagram.frame) := by
        simp only [nextToken, nextFrame_frame, token]
      rw [List.flatMap_cons, parse_token hlaw hfirst, ih]
      rfl

variable {sn : SerialNumber} {ds : List Datagram}

theorem parse_stream {welcome : List UInt8 → Bool} (hwelcome : welcome sn.val = true) (ds : List Datagram) :
    parse (nextToken welcome) .preamble (stream sn ds) = ⟨.hello sn.val :: ds.map token, some (.framing, [])⟩ := by
  have hfirst : nextToken welcome .preamble (stream sn ds) = .token (.hello sn.val) .framing (ds.flatMap Datagram.frame) := by
    simp only [nextToken, stream, parsePreamble_preamble, hwelcome, if_true]
  rw [parse_token (nextToken_prefixed welcome) hfirst, parse_frames]
  rfl

theorem untilNul_name (sn : SerialNumber) : untilNul sn.val = sn.val := by
  have hall : ∀ b ∈ sn.val, (b != 0) = true := by
    intro b hb
    simp only [bne_iff_ne]
    rintro rfl
    exact sn.property.2.2 hb
  exact List.takeWhile_eq_self_iff.mpr hall

def NamedAs (w : World) (e : Nat) (sn : CString) : Prop := ∀ c ∈ w.clients, c.epoch = e → c.state = .framing → c.sn = sn

theorem name_of_prefix {seen more name rest : List UInt8}
    (hstream : seen ++ more = stream sn ds) (hparse : parsePreamble seen = .complete name rest) : name = sn.val := by
  have hwhole := parsePreamble_append seen more
  rw [hparse, hstream, stream, parsePreamble_preamble] at hwhole
  exact (ParsedPreamble.complete.inj hwhole).1.symm

theorem preamble_buffer {welcome : List UInt8 → Bool} {seen buf : List UInt8}
    (h : (parse (nextToken welcome) .preamble seen).left = some (.preamble, buf)) : buf = seen := by
  have hframing : ∀ (fuel : Nat) (buf rest : List UInt8), (drain (nextToken welcome) fuel .framing buf).left ≠ some (.preamble, rest) := by
    intro fuel
    induction fuel with
    | zero => simp [drain]
    | succ fuel ih =>
        intro buf rest
        simp only [drain, nextToken]
        cases nextFrame buf with
        | incomplete => simp
        | oversized => simp
        | frame type payload rest' => exact ih rest' rest
  cases hnext : nextToken welcome .preamble seen with
  | wait =>
      rw [parse_wait hnext] at h
      simpa using h.symm
  | reject =>
      rw [parse_reject (nextToken_prefixed welcome) hnext] at h
      cases h
  | token a s rest =>
      have hs : s = .framing := by
        simp only [nextToken] at hnext
        split at hnext
        · cases hnext
        · cases hnext
        · split at hnext
          · cases hnext
            rfl
          · cases hnext
      subst hs
      rw [parse_token (nextToken_prefixed welcome) hnext] at h
      exact absurd h (hframing _ _ _)

theorem received_data (chunks : List (List UInt8)) : received (chunks.map .data) = chunks.flatten := by
  induction chunks with
  | nil => rfl
  | cons chunk rest ih => simp [received, ih]

theorem processIngressData_meets {w : World} {e : Nat} (hs : Sane (registry w)) (recvs : List Recv) :
    Meets e (Introduces w e recvs) w (processIngressData w e recvs) := by
  apply ifCurrent_meets hs
  intro u hu
  exact recvLoop_meets recvs u hu

theorem processIngressData_named {w₀ w : World} {e : Nat} {seen more : List UInt8}
    {chunks : List (List UInt8)} (hs : Sane (registry w)) (hnamed : NamedAs w e sn.val)
    (htracks : Tracks w₀ e (parse (nextToken (admits w₀ e)) .preamble seen) w)
    (hstream : seen ++ (chunks.flatten ++ more) = stream sn ds) : NamedAs (processIngressData w e (chunks.map .data)) e sn.val := by
  intro d hd hepoch hstate
  rcases (processIngressData_meets hs (chunks.map .data)).source d hd with ⟨c, hc, hpeer⟩ | ⟨-, c, hfind, hpreamble, bytes, rest, hparse, hname⟩
  · rw [hpeer.sn]
    exact hnamed c hc (hpeer.epoch.symm.trans hepoch) (hpeer.state.symm.trans hstate)
  · have hleft := htracks.client
    rw [hfind, Option.map_some, hpreamble] at hleft
    rw [preamble_buffer hleft.symm, received_data] at hparse
    rw [← List.append_assoc] at hstream
    rw [← hname, name_of_prefix hstream hparse, untilNul_name]

theorem deliver_named {w₀ : World} {e : Nat} (calls : List (List (List UInt8))) {w : World}
    {seen : List UInt8} (hs : Sane (registry w)) (hnamed : NamedAs w e sn.val)
    (htracks : Tracks w₀ e (parse (nextToken (admits w₀ e)) .preamble seen) w) (hfit : FitsCalls e w calls)
    (hunexpired : Carriage.Unexpired w₀ (deliver w e calls)) (hstream : seen ++ calls.flatten.flatten = stream sn ds) :
    NamedAs (deliver w e calls) e sn.val := by
  induction calls generalizing w seen with
  | nil => exact hnamed
  | cons chunks rest ih =>
      obtain ⟨hfirst, hrest⟩ := hfit
      rw [List.flatten_cons, List.flatten_append] at hstream
      have hstep := processIngressData_tracks chunks htracks hfirst (hunexpired.before (deliver_ends _ e rest))
      have hsane := (ConnectionPaths.processIngressData_path (p := anything) trivial w e (chunks.map .data) hs).sane hs
      rw [← List.append_assoc] at hstream
      apply ih hsane (processIngressData_named hs hnamed htracks ((List.append_assoc _ _ _).symm.trans hstream)) hstep hrest hunexpired hstream

theorem frames_stream (e : Nat) (sn : List UInt8) (ds : List Datagram) :
    Segmentation.frames e (.hello sn :: ds.map token) = ds.map fun d => ⟨e, d.type, d.payload.val⟩ := by
  have hds : Segmentation.frames e (ds.map token) = ds.map fun d => ⟨e, d.type, d.payload.val⟩ := by
    induction ds with
    | nil => rfl
    | cons d ds ih =>
        rw [List.map_cons, List.map_cons, ← ih]
        rfl
  exact hds

end Receiver

theorem fresh_named {w : World} {e : Nat} {sn : CString} (hs : Sane (registry w)) (hfresh : Fresh w e) : NamedAs w e sn := by
  obtain ⟨c, hfind, hpreamble, -⟩ := hfresh.client
  obtain ⟨hepoch, hmem⟩ := ConnectionPaths.findClient_epoch hfind
  intro d hd hde hstate
  have hsame : d = c := same_epoch hs.doors hd hmem (hde.trans hepoch.symm)
  rw [hsame, hpreamble] at hstate
  cases hstate

/-- What one program writes the other reads, however it is cut; what comes back is not read. -/
theorem tunnel_agreement {w₀ : World} (hstarted : Restart.Started w₀) (history : List EventLoop.Event) (config : ProxyConfig)
    (sn : SerialNumber) (events : List RtpTunnel.Event) (e : Nat) (calls : List (List (List UInt8))) :
    let t := Library.Runs.run (RtpTunnel.step config sn) (Tunnel.init config) events
    let w := EventLoop.run w₀ history
    t.delivered = [] ∧
      (t.isConnected = true → Fresh w e → admits w e sn.val = true → calls.flatten.flatten = t.written → FitsCalls e w calls →
        Carriage.Unexpired w (deliver w e calls) →
        (deliver w e calls).dispatched = w.dispatched ++ t.taken.map (fun d => ⟨e, d.type, d.payload.val⟩) ∧
          ∃ c, findClient (deliver w e calls) e = some c ∧ c.sn = sn.val ∧ c.state = .framing ∧ c.rxBuf = []) := by
  intro t w
  have hintact := run_intact config sn events
  refine ⟨hintact.delivered, fun hconnected hfresh hadmits hbytes hfit hunexpired => ?_⟩
  have hsane : Sane (registry w) := hstarted.run_sane history
  have hwritten : [] ++ calls.flatten.flatten = stream sn t.taken := by
    rw [List.nil_append, hbytes]
    exact hintact.written hconnected
  have htracks := deliver_tracks calls hfresh.tracks hfit hunexpired
  have hnamed := deliver_named calls hsane (fresh_named hsane hfresh) hfresh.tracks hfit hunexpired hwritten
  rw [hwritten, parse_stream hadmits] at htracks
  refine ⟨?_, ?_⟩
  · rw [htracks.dispatched, frames_stream]
  · obtain ⟨c, hfind, hc⟩ := Option.map_eq_some_iff.mp htracks.client
    obtain ⟨hstate, hbuf⟩ := Prod.mk.inj hc
    obtain ⟨hepoch, hmem⟩ := ConnectionPaths.findClient_epoch hfind
    exact ⟨c, hfind, hnamed c hmem hepoch hstate, hstate, hbuf⟩

def tunnelConfig : ProxyConfig := ⟨30, 3⟩

def door : SerialNumber := ⟨bytes "door", by decide⟩

/-- A turn in which one RTP datagram is there and everything is sent. -/
def goodTurn : Turn where
  policyMediaAllowed := true
  ready := some (true, false)
  rtp := [⟨⟨[7, 7], by decide⟩, true, 0⟩]
  rtcp := []
  connected := true
  preambleSent := true
  firstSent := true
  now := 0
  trafficSeenDuringBackoff := false

def firstDatagram : List RtpTunnel.Event := [.turn goodTurn, .turn goodTurn]

def doorTunnel : Tunnel := Library.Runs.run (RtpTunnel.step tunnelConfig door) (Tunnel.init tunnelConfig) firstDatagram

theorem tunnel_agreement_door :
    (deliver acceptedDoor 1 [[doorTunnel.written.take 3, doorTunnel.written.drop 3]]).dispatched = [⟨1, 1, [7, 7]⟩] := by
  have hstarted : Restart.Started SessionTable.goodJanus := Restart.Initial.started (SessionTable.initial_sample _)
  have hfit : FitsCalls 1 acceptedDoor [[doorTunnel.written.take 3, doorTunnel.written.drop 3]] :=
    ⟨⟨by decide, by decide +kernel, by decide, by decide +kernel, trivial⟩, trivial⟩
  obtain ⟨-, hforward⟩ := tunnel_agreement hstarted [SessionTable.startDoor, .accept] tunnelConfig door firstDatagram 1
    [[doorTunnel.written.take 3, doorTunnel.written.drop 3]]
  obtain ⟨hdispatched, -⟩ := hforward (by decide +kernel) acceptedDoor_fresh (by decide +kernel) (by decide +kernel) hfit
    (unexpired_of_all (by decide +kernel))
  exact hdispatched.trans (by decide +kernel)

def lossIndication : List UInt8 := [0x81, 206, 0, 1, 0, 0, 0, 0]

def returned : List FeedbackFraming.FeedbackOp := [.receive [.packet lossIndication 0] [.wrote 100]]

def feedbackSent (ops : List FeedbackFraming.FeedbackOp) : List UInt8 := (ops.foldl FeedbackFraming.feedbackStep { epoch := 1 }).sent

theorem feedback_unread : ¬ ∀ (config : ProxyConfig) (sn : SerialNumber) (events : List RtpTunnel.Event)
    (ops : List FeedbackFraming.FeedbackOp) (payloads : List (List UInt8)),
    let t := Library.Runs.run (RtpTunnel.step config sn) (Tunnel.init config) events
    t.isConnected = true → t.arrived = feedbackSent ops → feedbackSent ops = FeedbackFraming.frames payloads →
      t.delivered = payloads := by
  intro h
  have hread := h tunnelConfig door (firstDatagram ++ [.arrives (feedbackSent returned)]) returned [lossIndication] (by decide +kernel)
    (by decide +kernel) (by decide +kernel)
  exact absurd hread (by decide +kernel)

end EtranProcessing.Proxy.TunnelAgreement
