import EtranProcessing.Ingress.Feedback
import EtranProcessing.Library.RawMemory

namespace EtranProcessing.Ingress.KeyframeLimiter

open State Feedback Library.Buffers Library.RawMemory

def packetSize (p : List UInt8) : Nat := (be16 (p.getD 2 0) (p.getD 3 0) + 1) * 4

structure RtcpPacket (p : List UInt8) : Prop where
  version : p.getD 0 0 >>> 6 = 2
  least : 192 ≤ p.getD 1 0
  most : p.getD 1 0 ≤ 223
  exact : p.length = packetSize p

def Padded (p : List UInt8) : Prop := p.getD 0 0 &&& 0x20 ≠ 0

def GoodPadding (p : List UInt8) : Prop :=
  p.getD (p.length - 1) 0 ≠ 0 ∧ (p.getD (p.length - 1) 0).toNat ≤ p.length - 4

/-- A compound RTCP packet: padding stands in its last packet only. -/
inductive Compound : List (List UInt8) → Prop
  | last {p} (packet : RtcpPacket p) (padding : Padded p → GoodPadding p) : Compound [p]
  | cons {p ps} (packet : RtcpPacket p) (plain : ¬ Padded p) (rest : Compound ps) : Compound (p :: ps)

def keyframeRequest (p : List UInt8) : Bool :=
  p.getD 1 0 == 206 && (p.getD 0 0 &&& 31 == 1 || p.getD 0 0 &&& 31 == 4)

def tooSoon (c : IngressClient) (nowMs : Nat) : Bool :=
  c.keyframeFeedbackAtMs != 0 &&
    decide ((nowMs + 2 ^ 64 - c.keyframeFeedbackAtMs) % 2 ^ 64 < c.keyframeFeedbackIntervalMs)

/-- The loop of coalesce_feedback on the datagram itself: a kept packet moves to
the end of what is written. -/
def compactLoop : Nat → IngressClient → List UInt8 → Nat → Nat → Nat → Checked (IngressClient × List UInt8 × Nat)
  | 0, _, _, _, _, _ => .refused
  | fuel + 1, c, packet, offset, written, nowMs =>
      if offset < packet.length then do
        let head ← readAt packet offset 4
        let size := packetSize head
        if keyframeRequest head && tooSoon c nowMs then
          compactLoop fuel { c with feedbackDropped := c.feedbackDropped + 1 } packet (offset + size) written nowMs
        else do
          let moved ← readAt packet offset size
          let _ ← minus packet.length (written + size)
          let c := if keyframeRequest head then { c with keyframeFeedbackAtMs := nowMs } else c
          compactLoop fuel c (overwrite packet written moved) (offset + size) (written + size) nowMs
      else .done (c, packet, written)

def compactFeedback (c : IngressClient) (packet : List UInt8) (nowMs : Nat) :
    Checked (IngressClient × List UInt8 × Nat) :=
  if c.keyframeFeedbackIntervalMs = 0 then .done (c, packet, packet.length)
  else compactLoop (packet.length + 1) c packet 0 0 nowMs

/-- The limiter over the packets of a datagram. -/
def limit (nowMs : Nat) : IngressClient → List (List UInt8) → IngressClient × List (List UInt8)
  | c, [] => (c, [])
  | c, p :: ps =>
      if keyframeRequest p && tooSoon c nowMs then
        limit nowMs { c with feedbackDropped := c.feedbackDropped + 1 } ps
      else
        let rest := limit nowMs (if keyframeRequest p then { c with keyframeFeedbackAtMs := nowMs } else c) ps
        (rest.1, p :: rest.2)

variable {ps : List (List UInt8)} {p : List UInt8}

theorem packet_least (h : RtcpPacket p) : 4 ≤ p.length := by
  rw [h.exact, packetSize]
  omega

theorem getD_append {p rest : List UInt8} {i : Nat} (h : i < p.length) : (p ++ rest).getD i 0 = p.getD i 0 := by
  rw [List.getD_eq_getElem?_getD, List.getElem?_append_left h, ← List.getD_eq_getElem?_getD]

theorem getD_take {rest : List UInt8} {i n : Nat} (h : i < n) : (rest.take n).getD i 0 = rest.getD i 0 := by
  rw [List.getD_eq_getElem?_getD, List.getElem?_take_of_lt h, ← List.getD_eq_getElem?_getD]

theorem packetSize_append (rest : List UInt8) (h : 4 ≤ p.length) :
    packetSize (p ++ rest) = packetSize p := by
  rw [packetSize, packetSize, getD_append (by omega), getD_append (by omega)]

theorem Compound.packets (h : Compound ps) : ∀ p ∈ ps, RtcpPacket p := by
  induction h with
  | last packet _ => simpa using packet
  | cons packet _ _ ih => simpa using ⟨packet, ih⟩

theorem Compound.least (h : Compound ps) : 4 ≤ ps.flatten.length := by
  cases h with
  | last packet _ => simpa using packet_least packet
  | cons packet _ _ =>
      have := packet_least packet
      simp only [List.flatten_cons, List.length_append]
      omega

theorem validPackets_packet (h : RtcpPacket p) (fuel : Nat) (rest : List UInt8) :
    validPackets (fuel + 1) (p ++ rest) =
      (!(decide (p.getD 0 0 &&& 0x20 ≠ 0 ∧ (rest ≠ [] ∨ p.getD (p.length - 1) 0 = 0 ∨
        p.length - 4 < (p.getD (p.length - 1) 0).toNat))) && validPackets fuel rest) := by
  have hleast := packet_least h
  have hsize : (be16 ((p ++ rest).getD 2 0) ((p ++ rest).getD 3 0) + 1) * 4 = p.length := by
    rw [h.exact]
    exact packetSize_append rest hleast
  have hne : (p ++ rest).isEmpty = false := by
    cases p with
    | nil => simp at hleast
    | cons => rfl
  have hlow := h.least
  have hhigh := h.most
  have hguard : ¬ ((p ++ rest).length < 4 ∨ (p ++ rest).getD 0 0 >>> 6 ≠ 2 ∨ (p ++ rest).getD 1 0 < 192 ∨
      223 < (p ++ rest).getD 1 0) := by
    rw [getD_append (i := 0) (by omega), getD_append (i := 1) (by omega), List.length_append]
    rintro (hlen | hversion | hl | hh)
    · omega
    · exact hversion h.version
    · exact absurd hlow (UInt8.not_le.mpr hl)
    · exact absurd hhigh (UInt8.not_le.mpr hh)
  have hend : (p.length ≠ (p ++ rest).length) ↔ rest ≠ [] := by
    rw [List.length_append, ne_eq, ne_eq, ← List.length_eq_zero_iff]
    omega
  rw [validPackets, hne]
  simp only [Bool.false_eq_true, if_false, if_neg hguard, hsize, hend]
  rw [if_neg (by simp), getD_append (i := 0) (by omega), getD_append (i := p.length - 1) (by omega), List.drop_left]
  split
  next hbad => rw [decide_eq_true hbad]; rfl
  next hgood => rw [decide_eq_false hgood]; rfl

theorem validPackets_flatten (h : Compound ps) (fuel : Nat)
    (hfuel : ps.flatten.length ≤ fuel) : validPackets fuel ps.flatten = true := by
  induction h generalizing fuel with
  | @last p packet padding =>
      obtain ⟨fuel, rfl⟩ : ∃ n, fuel = n + 1 := ⟨fuel - 1, by have := packet_least packet; simp at hfuel; omega⟩
      rw [List.flatten_singleton]
      have hturn := validPackets_packet packet fuel []
      rw [List.append_nil] at hturn
      rw [hturn]
      have hrest : validPackets fuel [] = true := by cases fuel <;> rfl
      rw [hrest, Bool.and_true, Bool.not_eq_true', decide_eq_false_iff_not]
      rintro ⟨hpadded, hnone | hzero | hlong⟩
      · exact hnone rfl
      · exact (padding hpadded).1 hzero
      · have := (padding hpadded).2
        omega
  | @cons p ps packet plain rest ih =>
      have hleast := packet_least packet
      rw [List.flatten_cons, List.length_append] at hfuel
      obtain ⟨fuel, rfl⟩ : ∃ n, fuel = n + 1 := ⟨fuel - 1, by omega⟩
      rw [List.flatten_cons, validPackets_packet packet, ih fuel (by omega), Bool.and_true, Bool.not_eq_true',
        decide_eq_false_iff_not]
      intro hpadded
      exact plain hpadded.1

theorem compound_of_valid (fuel : Nat) (rest : List UInt8) (hne : rest ≠ [])
    (h : validPackets fuel rest = true) : ∃ ps, Compound ps ∧ rest = ps.flatten := by
  induction fuel generalizing rest with
  | zero => exact absurd (List.isEmpty_iff.mp h) hne
  | succ fuel ih =>
      have hturn := h
      rw [validPackets, if_neg (by simpa using hne)] at hturn
      split at hturn
      · exact absurd hturn Bool.false_ne_true
      next hguard =>
        simp only [not_or, not_lt, ne_eq, not_not] at hguard
        obtain ⟨hlen, hversion, hleast, hmost⟩ := hguard
        dsimp only at hturn
        split at hturn
        · exact absurd hturn Bool.false_ne_true
        next hsize =>
          rw [not_lt] at hsize
          have hfour : 4 ≤ packetSize rest := by rw [packetSize]; omega
          have hcut : (rest.take (packetSize rest)).length = packetSize rest := List.length_take_of_le hsize
          have packet : RtcpPacket (rest.take (packetSize rest)) := by
            refine ⟨?_, ?_, ?_, ?_⟩
            · rw [getD_take (by omega)]; exact hversion
            · rw [getD_take (by omega)]; exact UInt8.not_lt.mp hleast
            · rw [getD_take (by omega)]; exact UInt8.not_lt.mp hmost
            · rw [hcut, packetSize, packetSize, getD_take (by rw [packetSize] at hfour; omega),
                getD_take (by rw [packetSize] at hfour; omega)]
          have hone := validPackets_packet packet fuel (rest.drop (packetSize rest))
          rw [List.take_append_drop, h, eq_comm, Bool.and_eq_true, Bool.not_eq_true', decide_eq_false_iff_not] at hone
          obtain ⟨hpadding, hrest⟩ := hone
          by_cases hlast : rest.drop (packetSize rest) = []
          · refine ⟨[rest.take (packetSize rest)], .last packet ?_, ?_⟩
            · intro hpadded
              constructor
              · intro hzero
                exact hpadding ⟨hpadded, .inr (.inl hzero)⟩
              · apply Nat.le_of_not_lt
                intro hlong
                exact hpadding ⟨hpadded, .inr (.inr hlong)⟩
            · rw [List.flatten_singleton]
              exact (List.take_of_length_le (List.drop_eq_nil_iff.mp hlast)).symm
          · obtain ⟨ps, hps, heq⟩ := ih _ hlast hrest
            refine ⟨rest.take (packetSize rest) :: ps, .cons packet ?_ hps, ?_⟩
            · intro hpadded
              exact hpadding ⟨hpadded, .inl hlast⟩
            · rw [List.flatten_cons, ← heq, List.take_append_drop]

theorem validRtcp_iff (data : List UInt8) : validRtcp data = true ↔ ∃ ps, Compound ps ∧ data = ps.flatten := by
  rw [validRtcp, Bool.and_eq_true, decide_eq_true_iff]
  constructor
  · rintro ⟨hvalid, hlen⟩
    apply compound_of_valid data.length data _ hvalid
    rintro rfl
    simp at hlen
  · rintro ⟨ps, hps, rfl⟩
    exact ⟨validPackets_flatten hps _ le_rfl, hps.least⟩

example (nowMs : Nat) (c : IngressClient) : limit nowMs c [] = (c, []) := by simp only [limit]

theorem limit_interval (nowMs : Nat) (ps : List (List UInt8)) (c : IngressClient) :
    (limit nowMs c ps).1.keyframeFeedbackIntervalMs = c.keyframeFeedbackIntervalMs := by
  induction ps generalizing c with
  | nil => rfl
  | cons p ps ih =>
      simp only [limit]
      split
      · exact ih _
      · refine (ih _).trans ?_
        split <;> rfl

theorem limit_sublist (nowMs : Nat) (ps : List (List UInt8)) (c : IngressClient) :
    (limit nowMs c ps).2.Sublist ps := by
  induction ps generalizing c with
  | nil => exact .slnil
  | cons p ps ih =>
      simp only [limit]
      split
      · exact (ih _).cons p
      · exact (ih _).cons_cons p

theorem limit_others (nowMs : Nat) (ps : List (List UInt8)) (c : IngressClient) :
    (limit nowMs c ps).2.filter (fun p => !keyframeRequest p) = ps.filter (fun p => !keyframeRequest p) := by
  induction ps generalizing c with
  | nil => rfl
  | cons p ps ih =>
      simp only [limit]
      split
      next hlimited =>
        rw [Bool.and_eq_true] at hlimited
        rw [List.filter_cons_of_neg (by simp [hlimited.1])]
        exact ih _
      next => rw [List.filter_cons, List.filter_cons, ih]

theorem Compound.sublist {ps kept : List (List UInt8)} (h : Compound ps) (hkept : kept.Sublist ps) :
    kept = [] ∨ Compound kept := by
  induction h generalizing kept with
  | last packet padding =>
      cases hkept with
      | cons _ hrest => exact .inl (List.sublist_nil.mp hrest)
      | cons_cons _ hrest =>
          rw [List.sublist_nil.mp hrest]
          exact .inr (.last packet padding)
  | cons packet plain rest ih =>
      cases hkept with
      | cons _ hrest => exact ih hrest
      | cons_cons _ hrest =>
          obtain rfl | hps := ih hrest
          · exact .inr (.last packet fun hpadded => absurd hpadded plain)
          · exact .inr (.cons packet plain hps)

theorem coalesceLoop_flatten (nowMs : Nat) (h : ∀ p ∈ ps, RtcpPacket p) (fuel : Nat)
    (hfuel : ps.flatten.length ≤ fuel) (c : IngressClient) :
    coalesceLoop fuel c ps.flatten nowMs = ((limit nowMs c ps).1, (limit nowMs c ps).2.flatten) := by
  induction ps generalizing fuel c with
  | nil => cases fuel <;> rfl
  | cons p ps ih =>
      have packet := h p List.mem_cons_self
      have hleast := packet_least packet
      have hrest := fun q hq => h q (List.mem_cons_of_mem p hq)
      rw [List.flatten_cons, List.length_append] at hfuel
      obtain ⟨fuel, rfl⟩ : ∃ n, fuel = n + 1 := ⟨fuel - 1, by omega⟩
      have hne : (p ++ ps.flatten).isEmpty = false := by
        cases p with
        | nil => simp at hleast
        | cons => rfl
      have hsize : (be16 ((p ++ ps.flatten).getD 2 0) ((p ++ ps.flatten).getD 3 0) + 1) * 4 = p.length := by
        rw [packet.exact]
        exact packetSize_append _ hleast
      rw [List.flatten_cons, coalesceLoop, hne]
      simp only [Bool.false_eq_true, if_false, hsize]
      rw [getD_append (i := 0) (by omega), getD_append (i := 1) (by omega), List.drop_left, List.take_left]
      simp only [limit, keyframeRequest, tooSoon, Bool.and_assoc]
      split
      · exact ih hrest fuel (by omega) _
      · rw [ih hrest fuel (by omega)]
        rfl

theorem coalesceFeedback_flatten (nowMs : Nat) (h : ∀ p ∈ ps, RtcpPacket p)
    {c : IngressClient} (hinterval : c.keyframeFeedbackIntervalMs ≠ 0) :
    coalesceFeedback c ps.flatten nowMs = ((limit nowMs c ps).1, (limit nowMs c ps).2.flatten) := by
  rw [coalesceFeedback, if_neg hinterval]
  exact coalesceLoop_flatten nowMs h _ le_rfl c

theorem compactLoop_packets (nowMs : Nat) (h : ∀ p ∈ ps, RtcpPacket p) (fuel : Nat)
    (hfuel : ps.length < fuel) (c : IngressClient) (packet : List UInt8) (offset written : Nat)
    (hrest : packet.drop offset = ps.flatten) (hoffset : offset ≤ packet.length) (hwritten : written ≤ offset) :
    ∃ after count, compactLoop fuel c packet offset written nowMs = .done ((limit nowMs c ps).1, after, count) ∧
      after.length = packet.length ∧ count ≤ packet.length ∧
        after.take count = packet.take written ++ (limit nowMs c ps).2.flatten := by
  induction ps generalizing fuel c packet offset written with
  | nil =>
      obtain ⟨fuel, rfl⟩ : ∃ n, fuel = n + 1 := ⟨fuel - 1, by omega⟩
      have hend : ¬ offset < packet.length := not_lt.mpr (List.drop_eq_nil_iff.mp hrest)
      exact ⟨packet, written, by rw [compactLoop, if_neg hend]; rfl, rfl, by omega, by simp [limit]⟩
  | cons p ps ih =>
      obtain ⟨fuel, rfl⟩ : ∃ n, fuel = n + 1 := ⟨fuel - 1, by omega⟩
      have hp := h p List.mem_cons_self
      have hleast := packet_least hp
      have hps := fun q hq => h q (List.mem_cons_of_mem p hq)
      rw [List.flatten_cons] at hrest
      have hlen : offset + (p.length + ps.flatten.length) = packet.length := by
        rw [← List.length_append, ← hrest, List.length_drop]
        omega
      have hhead : slice packet offset 4 = p.take 4 := by
        rw [slice, hrest, List.take_append_of_le_length hleast]
      have hmoved : slice packet offset p.length = p := by
        rw [slice, hrest, List.take_left]
      have hsize : packetSize (p.take 4) = p.length := by
        rw [hp.exact, packetSize, packetSize, getD_take (by omega), getD_take (by omega)]
      have hkey : keyframeRequest (p.take 4) = keyframeRequest p := by
        rw [keyframeRequest, keyframeRequest, getD_take (by omega), getD_take (by omega)]
      have hnext : packet.drop (offset + p.length) = ps.flatten := by
        rw [← List.drop_drop, hrest, List.drop_left]
      rw [compactLoop, if_pos (by omega)]
      have hread : readAt packet offset 4 = .done (p.take 4) := readAt_eq_done.mpr ⟨by omega, hhead⟩
      have hread' : readAt packet offset p.length = .done p := readAt_eq_done.mpr ⟨by omega, hmoved⟩
      have hroom : minus packet.length (written + p.length) = .done (packet.length - (written + p.length)) :=
        minus_eq_done.mpr ⟨by omega, rfl⟩
      simp only [hread, bind, Checked.bind, hsize, hkey, hread', hroom, limit]
      split
      · exact ih hps fuel (by simp at hfuel; omega) _ packet _ written hnext (by omega) (by omega)
      · have hwrite : written + p.length ≤ packet.length := by omega
        have hkeep : (overwrite packet written p).length = packet.length := length_overwrite hwrite
        have hbehind : (overwrite packet written p).drop (offset + p.length) = ps.flatten := by
          rw [drop_overwrite (by omega) (by omega), hnext]
        have hfront : (overwrite packet written p).take (written + p.length) = packet.take written ++ p := by
          rw [← slice_zero, ← slice_zero]
          exact slice_overwrite_front (by omega)
        obtain ⟨after, count, hloop, hafter, hcount, htake⟩ :=
          ih hps fuel (by simp at hfuel; omega) (if keyframeRequest p then { c with keyframeFeedbackAtMs := nowMs } else c)
            (overwrite packet written p) (offset + p.length) (written + p.length) hbehind (by omega) (by omega)
        refine ⟨after, count, hloop, hafter.trans hkeep, by omega, ?_⟩
        rw [htake, hfront, List.flatten_cons, List.append_assoc]

theorem length_le_flatten (h : ∀ p ∈ ps, RtcpPacket p) : ps.length ≤ ps.flatten.length := by
  induction ps with
  | nil => exact Nat.zero_le _
  | cons p ps ih =>
      have hp := packet_least (h p List.mem_cons_self)
      have hps := ih fun q hq => h q (List.mem_cons_of_mem p hq)
      rw [List.length_cons, List.flatten_cons, List.length_append]
      omega

theorem compactFeedback_packets (nowMs : Nat) (h : ∀ p ∈ ps, RtcpPacket p)
    {c : IngressClient} (hinterval : c.keyframeFeedbackIntervalMs ≠ 0) :
    ∃ after count, compactFeedback c ps.flatten nowMs = .done ((limit nowMs c ps).1, after, count) ∧
      after.length = ps.flatten.length ∧ count ≤ ps.flatten.length ∧
        after.take count = (limit nowMs c ps).2.flatten := by
  have hfuel : ps.length < ps.flatten.length + 1 := by
    have := length_le_flatten h
    omega
  rw [compactFeedback, if_neg hinterval]
  exact compactLoop_packets nowMs h _ hfuel c ps.flatten 0 0 rfl (Nat.zero_le _) le_rfl

end EtranProcessing.Ingress.KeyframeLimiter
