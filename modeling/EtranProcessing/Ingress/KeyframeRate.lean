import EtranProcessing.Ingress.KeyframeLimiter

namespace EtranProcessing.Ingress.KeyframeRate

open State Feedback KeyframeLimiter Library.RawMemory

def packets : Nat → List UInt8 → List (List UInt8)
  | 0, _ => []
  | fuel + 1, rest =>
      if rest = [] then [] else rest.take (packetSize rest) :: packets fuel (rest.drop (packetSize rest))

def requests (out : List UInt8) : List (List UInt8) := (packets out.length out).filter keyframeRequest

def forward : IngressClient → List (List UInt8 × Nat) → List (Nat × List UInt8)
  | _, [] => []
  | c, (data, nowMs) :: calls =>
      match compactFeedback c data nowMs with
      | .done (c, after, count) => (nowMs, after.take count) :: forward c calls
      | _ => []

/-- A prefix of the datagram is left, the one that is queued. It holds the
packets of the datagram in their order, less some requests for a keyframe. -/
def Filters (c : IngressClient) (data : List UInt8) (nowMs : Nat) : Prop :=
  ∃ (after : List UInt8) (count : Nat) (ps kept : List (List UInt8)),
    compactFeedback c data nowMs = .done ((coalesceFeedback c data nowMs).1, after, count) ∧
    after.take count = (coalesceFeedback c data nowMs).2 ∧
    count ≤ data.length ∧ (count = 0 ∨ validRtcp (after.take count) = true) ∧
    Compound ps ∧ data = ps.flatten ∧ kept.Sublist ps ∧ after.take count = kept.flatten ∧
    kept.filter (fun p => !keyframeRequest p) = ps.filter (fun p => !keyframeRequest p)

structure MonotoneClock (calls : List (List UInt8 × Nat)) : Prop where
  positive : ∀ call ∈ calls, 0 < call.2
  fits : ∀ call ∈ calls, call.2 < 2 ^ 64
  ordered : calls.Pairwise fun a b => a.2 ≤ b.2

def Spaced (interval : Nat) (log : List (Nat × List UInt8)) : Prop :=
  log.Pairwise fun a b => requests a.2 ≠ [] → requests b.2 ≠ [] → a.1 + interval ≤ b.1

variable {c : IngressClient} {ps : List (List UInt8)}

theorem packets_flatten (h : ∀ p ∈ ps, RtcpPacket p) (fuel : Nat)
    (hfuel : ps.flatten.length ≤ fuel) : packets fuel ps.flatten = ps := by
  induction ps generalizing fuel with
  | nil => cases fuel <;> rfl
  | cons p ps ih =>
      have hp := h p List.mem_cons_self
      have hleast := packet_least hp
      rw [List.flatten_cons, List.length_append] at hfuel
      obtain ⟨fuel, rfl⟩ : ∃ n, fuel = n + 1 := ⟨fuel - 1, by omega⟩
      have hne : p ++ ps.flatten ≠ [] := by
        intro hnil
        rw [List.append_eq_nil_iff.mp hnil |>.1] at hleast
        simp at hleast
      rw [List.flatten_cons, packets, if_neg hne, packetSize_append _ hleast, ← hp.exact, List.take_left,
        List.drop_left, ih (fun q hq => h q (List.mem_cons_of_mem p hq)) fuel (by omega)]

theorem requests_flatten (h : ∀ p ∈ ps, RtcpPacket p) :
    requests ps.flatten = ps.filter keyframeRequest := by
  rw [requests, packets_flatten h _ le_rfl]

theorem limit_packets (nowMs : Nat) (h : ∀ p ∈ ps, RtcpPacket p) (c : IngressClient) :
    ∀ p ∈ (limit nowMs c ps).2, RtcpPacket p := by
  intro p hp
  apply h
  exact (limit_sublist nowMs ps c).mem hp

theorem coalesce_filters {data : List UInt8} (nowMs : Nat)
    (hinterval : c.keyframeFeedbackIntervalMs ≠ 0) (h : validRtcp data = true) : Filters c data nowMs := by
  obtain ⟨ps, hps, rfl⟩ := (validRtcp_iff data).mp h
  obtain ⟨after, count, hdone, hafter, hcount, htake⟩ := compactFeedback_packets nowMs hps.packets hinterval
  have hqueued := coalesceFeedback_flatten nowMs hps.packets hinterval
  have hsub := limit_sublist nowMs ps c
  refine ⟨after, count, ps, _, by rw [hqueued]; exact hdone, by rw [hqueued]; exact htake, hcount, ?_, hps, rfl,
    hsub, htake, limit_others nowMs ps c⟩
  rw [htake]
  obtain hnone | hkept := hps.sublist hsub
  · have hempty := congrArg List.length htake
    rw [hnone, List.length_take, hafter] at hempty
    simp only [List.flatten_nil, List.length_nil] at hempty
    omega
  · exact .inr ((validRtcp_iff _).mpr ⟨_, hkept, rfl⟩)

theorem limit_requests {nowMs : Nat} (ps : List (List UInt8)) (c : IngressClient) :
    ((limit nowMs c ps).2.filter keyframeRequest = [] ∧
        (limit nowMs c ps).1.keyframeFeedbackAtMs = c.keyframeFeedbackAtMs) ∨
      ((limit nowMs c ps).1.keyframeFeedbackAtMs = nowMs ∧ tooSoon c nowMs = false) := by
  induction ps generalizing c with
  | nil => exact .inl ⟨rfl, rfl⟩
  | cons p ps ih =>
      simp only [limit]
      split
      · exact ih { c with feedbackDropped := c.feedbackDropped + 1 }
      next hpass =>
        by_cases hkey : keyframeRequest p = true
        · have hlate : tooSoon c nowMs = false := by simpa [hkey] using hpass
          refine .inr ⟨?_, hlate⟩
          obtain ⟨-, hat⟩ | ⟨hat, -⟩ := ih (if keyframeRequest p then { c with keyframeFeedbackAtMs := nowMs } else c)
          · rw [hat, if_pos hkey]
          · exact hat
        · rw [if_neg hkey, List.filter_cons_of_neg (by simpa using hkey)]
          exact ih c

theorem late_enough {nowMs : Nat} (hset : 0 < c.keyframeFeedbackAtMs)
    (hpast : c.keyframeFeedbackAtMs ≤ nowMs) (hnow : nowMs < 2 ^ 64) (h : tooSoon c nowMs = false) :
    c.keyframeFeedbackAtMs + c.keyframeFeedbackIntervalMs ≤ nowMs := by
  have hne : (c.keyframeFeedbackAtMs != 0) = true := by simpa using Nat.ne_of_gt hset
  rw [tooSoon, hne, Bool.true_and, decide_eq_false_iff_not, not_lt] at h
  have hdiff : (nowMs + 2 ^ 64 - c.keyframeFeedbackAtMs) % 2 ^ 64 = nowMs - c.keyframeFeedbackAtMs := by
    rw [Nat.sub_add_comm hpast, Nat.add_mod_right, Nat.mod_eq_of_lt (by omega)]
  omega

theorem forward_cons {data : List UInt8} (nowMs : Nat) (calls : List (List UInt8 × Nat))
    (hinterval : c.keyframeFeedbackIntervalMs ≠ 0) (h : validRtcp data = true) :
    ∃ c' out, forward c ((data, nowMs) :: calls) = (nowMs, out) :: forward c' calls ∧
      c'.keyframeFeedbackIntervalMs = c.keyframeFeedbackIntervalMs ∧
        ((requests out = [] ∧ c'.keyframeFeedbackAtMs = c.keyframeFeedbackAtMs) ∨
          (c'.keyframeFeedbackAtMs = nowMs ∧ tooSoon c nowMs = false)) := by
  obtain ⟨ps, hps, rfl⟩ := (validRtcp_iff data).mp h
  obtain ⟨after, count, hdone, -, -, htake⟩ := compactFeedback_packets nowMs hps.packets hinterval
  refine ⟨(limit nowMs c ps).1, (limit nowMs c ps).2.flatten, ?_, limit_interval nowMs ps c, ?_⟩
  · simp only [forward, hdone, htake]
  · rw [requests_flatten (limit_packets nowMs hps.packets c)]
    exact limit_requests ps c

theorem forward_times (calls : List (List UInt8 × Nat))
    (hinterval : c.keyframeFeedbackIntervalMs ≠ 0) (hvalid : ∀ call ∈ calls, validRtcp call.1 = true) :
    (forward c calls).map Prod.fst = calls.map Prod.snd := by
  induction calls generalizing c with
  | nil => rfl
  | cons call calls ih =>
      obtain ⟨c', out, hcons, hkept, -⟩ := forward_cons call.2 calls hinterval (hvalid call List.mem_cons_self)
      rw [hcons, List.map_cons, List.map_cons,
        ih (hkept ▸ hinterval) fun call hcall => hvalid call (List.mem_cons_of_mem _ hcall)]

theorem MonotoneClock.tail {call : List UInt8 × Nat} {calls : List (List UInt8 × Nat)}
    (h : MonotoneClock (call :: calls)) : MonotoneClock calls :=
  ⟨fun next hnext => h.positive next (List.mem_cons_of_mem call hnext),
    fun next hnext => h.fits next (List.mem_cons_of_mem call hnext), h.ordered.of_cons⟩

theorem forward_waits (calls : List (List UInt8 × Nat))
    (hinterval : c.keyframeFeedbackIntervalMs ≠ 0) (hvalid : ∀ call ∈ calls, validRtcp call.1 = true)
    (hclock : MonotoneClock calls) (hset : 0 < c.keyframeFeedbackAtMs)
    (hpast : ∀ call ∈ calls, c.keyframeFeedbackAtMs ≤ call.2) :
    ∀ entry ∈ forward c calls, requests entry.2 ≠ [] →
      c.keyframeFeedbackAtMs + c.keyframeFeedbackIntervalMs ≤ entry.1 := by
  induction calls generalizing c with
  | nil => simp [forward]
  | cons call calls ih =>
      have hlater := fun next hnext => hvalid next (List.mem_cons_of_mem call hnext)
      have hnow := hpast call List.mem_cons_self
      obtain ⟨c', out, hcons, hkept, hcase⟩ := forward_cons call.2 calls hinterval (hvalid call List.mem_cons_self)
      rw [show (call :: calls) = (call.1, call.2) :: calls from rfl, hcons]
      intro entry hentry hrequest
      obtain rfl | hentry := List.mem_cons.mp hentry
      · obtain ⟨hnone, -⟩ | ⟨-, hlate⟩ := hcase
        · exact absurd hnone hrequest
        · exact late_enough hset hnow (hclock.fits call List.mem_cons_self) hlate
      · obtain ⟨-, hat⟩ | ⟨hat, hlate⟩ := hcase
        · have hwait := ih (hkept ▸ hinterval) hlater hclock.tail (hat ▸ hset)
            (fun next hnext => hat ▸ hpast next (List.mem_cons_of_mem call hnext)) entry hentry hrequest
          rwa [hat, hkept] at hwait
        · have hwait := ih (hkept ▸ hinterval) hlater hclock.tail
            (hat ▸ hclock.positive call List.mem_cons_self)
            (fun next hnext => hat ▸ List.rel_of_pairwise_cons hclock.ordered hnext) entry hentry hrequest
          rw [hat, hkept] at hwait
          omega

theorem forward_spaced (calls : List (List UInt8 × Nat))
    (hinterval : c.keyframeFeedbackIntervalMs ≠ 0) (hvalid : ∀ call ∈ calls, validRtcp call.1 = true)
    (hclock : MonotoneClock calls) : Spaced c.keyframeFeedbackIntervalMs (forward c calls) := by
  induction calls generalizing c with
  | nil => exact .nil
  | cons call calls ih =>
      have hlater := fun next hnext => hvalid next (List.mem_cons_of_mem call hnext)
      obtain ⟨c', out, hcons, hkept, hcase⟩ := forward_cons call.2 calls hinterval (hvalid call List.mem_cons_self)
      have hinterval' : c'.keyframeFeedbackIntervalMs ≠ 0 := hkept ▸ hinterval
      rw [show (call :: calls) = (call.1, call.2) :: calls from rfl, hcons]
      apply List.Pairwise.cons
      · intro entry hentry hfirst hsecond
        obtain ⟨hnone, -⟩ | ⟨hat, -⟩ := hcase
        · exact absurd hnone hfirst
        · have hwait := forward_waits calls hinterval' hlater hclock.tail (hat ▸ hclock.positive call List.mem_cons_self)
            (fun next hnext => hat ▸ List.rel_of_pairwise_cons hclock.ordered hnext) entry hentry hsecond
          rwa [hat, hkept] at hwait
      · have hrest := ih hinterval' hlater hclock.tail
        rwa [hkept] at hrest

/-- The validator accepts exactly the compound packets, the limiter drops
keyframe requests only and stays inside the datagram, and the requests it lets
through are an interval apart. -/
theorem rtcp_filter_sound :
    (∀ data, validRtcp data = true ↔ ∃ ps, Compound ps ∧ data = ps.flatten) ∧
      (∀ (c : IngressClient) data nowMs, c.keyframeFeedbackIntervalMs ≠ 0 → validRtcp data = true →
        Filters c data nowMs) ∧
      ∀ (c : IngressClient) calls, c.keyframeFeedbackIntervalMs ≠ 0 → (∀ call ∈ calls, validRtcp call.1 = true) →
        MonotoneClock calls → (forward c calls).map Prod.fst = calls.map Prod.snd ∧
          Spaced c.keyframeFeedbackIntervalMs (forward c calls) := by
  refine ⟨validRtcp_iff, ?_, ?_⟩
  · intro c data nowMs hinterval hvalid
    exact coalesce_filters nowMs hinterval hvalid
  · intro c calls hinterval hvalid hclock
    exact ⟨forward_times calls hinterval hvalid, forward_spaced calls hinterval hvalid hclock⟩

end EtranProcessing.Ingress.KeyframeRate
