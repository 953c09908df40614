import EtranProcessing.Capture.RtpMemory

namespace EtranProcessing.Capture.RtpFaithful

open Library.Calls Library.Rtp RtpPacketizer RtpPlan RtpMemory

def accept : List Packet → Bool := fun _ => true

/-- What packetisation owes an access unit: its writes and packets stay in the buffer whatever the callback answers,
    and a receiver of all the packets gets the units back. -/
structure Faithful (au : AccessUnit) : Prop where
  contained : ∀ callback p garbage base,
    (packetizeAu callback p garbage base au).2.overrun = false ∧
      ∀ packet ∈ (packetizeAu callback p garbage base au).2.handed, packet.length ≤ 1212
  restored : ∀ p garbage base, (packetizeAu accept p garbage base au).1 = some () ∧
    ∃ received : List (Header × List UInt8),
      (packetizeAu accept p garbage base au).2.handed.map (fun packet => parse packet.bytes) = received.map some ∧
      (packetizeAu accept p garbage base au).2.handed.map Packet.marker = received.map (fun r => r.1.marker) ∧
      deliver none (received.map Prod.snd) = some (carriedAll au.nals) ∧
      received.map (fun r => r.1.sequence) = consecutive base received.length ∧
      (∀ r ∈ received, r.1.timestamp = p.timestamp) ∧
      MarkedLast (received.map fun r => r.1.marker)

section Reception

variable (p : Params)

def headed : UInt16 → List (Content × Bool) → List (Header × List UInt8)
  | _, [] => []
  | seq, (c, marker) :: rest =>
      (⟨marker, p.payloadType &&& 0x7F, seq, p.timestamp, p.ssrc⟩, c.bytes) :: headed (seq + 1) rest

example (seq : UInt16) : headed p seq [] = [] := by rw [headed]

theorem writeRtpHeader_eq (marker : Bool) (seq : UInt16) :
    writeRtpHeader p marker seq = Header.bytes ⟨marker, p.payloadType, seq, p.timestamp, p.ssrc⟩ := rfl

theorem parse_numbered (seq : UInt16) (plan : List (Content × Bool)) :
    (numbered p seq plan).map (fun packet => parse packet.bytes) = (headed p seq plan).map some := by
  induction plan generalizing seq with
  | nil => rfl
  | cons packet rest ih =>
      rw [numbered, headed, List.map_cons, List.map_cons, ih, writeRtpHeader_eq, parse_bytes]

theorem markers_numbered (seq : UInt16) (plan : List (Content × Bool)) :
    (numbered p seq plan).map Packet.marker = markers plan := by
  induction plan generalizing seq with
  | nil => rfl
  | cons packet rest ih =>
      rw [numbered, List.map_cons, ih]
      rfl

theorem markers_headed (seq : UInt16) (plan : List (Content × Bool)) :
    (headed p seq plan).map (fun r => r.1.marker) = markers plan := by
  induction plan generalizing seq with
  | nil => rfl
  | cons packet rest ih =>
      rw [headed, List.map_cons, ih]
      rfl

theorem payloads_headed (seq : UInt16) (plan : List (Content × Bool)) :
    (headed p seq plan).map Prod.snd = plan.map fun packet => packet.1.bytes := by
  induction plan generalizing seq with
  | nil => rfl
  | cons packet rest ih =>
      rw [headed, List.map_cons, ih]
      rfl

theorem sequences_headed (seq : UInt16) (plan : List (Content × Bool)) :
    (headed p seq plan).map (fun r => r.1.sequence) = consecutive seq (headed p seq plan).length := by
  induction plan generalizing seq with
  | nil => rfl
  | cons packet rest ih =>
      rw [headed, List.map_cons, ih]
      rfl

theorem timestamps_headed (seq : UInt16) (plan : List (Content × Bool)) :
    ∀ r ∈ headed p seq plan, r.1.timestamp = p.timestamp := by
  induction plan generalizing seq with
  | nil => exact nofun
  | cons packet rest ih =>
      intro r hr
      rw [headed] at hr
      rcases List.mem_cons.mp hr with rfl | hr
      · rfl
      · exact ih (seq + 1) r hr

theorem numbered_size (seq : UInt16) (plan : List (Content × Bool))
    (h : ∀ packet ∈ plan, packet.1.bytes.length ≤ maxPayloadSize) : ∀ packet ∈ numbered p seq plan, packet.length ≤ 1212 := by
  induction plan generalizing seq with
  | nil => exact nofun
  | cons first rest ih =>
      intro packet hpacket
      rw [numbered] at hpacket
      rcases List.mem_cons.mp hpacket with rfl | hpacket
      · have := h first List.mem_cons_self
        unfold maxPayloadSize at this
        simp only [headerSize]
        omega
      · exact ih (seq + 1) (fun q hq => h q (List.mem_cons_of_mem _ hq)) packet hpacket

end Reception

section Runs

variable (callback : List Packet → Bool) (p : Params) (garbage : Vector UInt8 1212) (base : UInt16) (au : AccessUnit)

theorem holds_start : Holds (Machine.start garbage base) [] := holds_nil garbage.length_toList

theorem packetizeAu_ends :
    Ends callback p (packetize callback p au) (Machine.start garbage base) (emit [] au.nals) (Clear 0 au.nals) :=
  remainder_ends au.nals (holds_start garbage base)

theorem packetizeAu_clear (hclear : Clear 0 au.nals) :
    (packetizeAu callback p garbage base au).2.overrun = false ∧
      ((packetizeAu callback p garbage base au).1 = some () ∧
          (packetizeAu callback p garbage base au).2.handed = numbered p base (emit [] au.nals) ∨
        callback (packetizeAu callback p garbage base au).2.handed = false ∧
          (packetizeAu callback p garbage base au).1 = none ∧
          ∃ sent, sent <+: emit [] au.nals ∧ (packetizeAu callback p garbage base au).2.handed = numbered p base sent) := by
  have h := packetizeAu_ends callback p garbage base au
  unfold Ends wp at h
  unfold packetizeAu
  cases hrun : packetize callback p au (Machine.start garbage base) with
  | mk o m =>
      rw [hrun] at h
      cases o with
      | none =>
          rcases h with ⟨_, hnot⟩ | ⟨hclean, hrefused, sent, hsent, hhanded⟩
          · exact absurd hclear hnot
          · exact ⟨hclean, .inr ⟨hrefused, rfl, sent, hsent, hhanded⟩⟩
      | some u => exact ⟨h.2.1, .inl ⟨rfl, h.2.2⟩⟩

theorem packetizeAu_past (hclear : ¬ Clear 0 au.nals) : (packetizeAu accept p garbage base au).2.overrun = true := by
  have h := packetizeAu_ends accept p garbage base au
  unfold Ends wp at h
  unfold packetizeAu
  cases hrun : packetize accept p au (Machine.start garbage base) with
  | mk o m =>
      rw [hrun] at h
      cases o with
      | none =>
          rcases h with ⟨hpast, _⟩ | ⟨_, hrefused, _⟩
          · exact hpast
          · cases hrefused
      | some u => exact absurd h.1 hclear

theorem packetizeAu_accepted (hclear : Clear 0 au.nals) :
    (packetizeAu accept p garbage base au).1 = some () ∧
      (packetizeAu accept p garbage base au).2.handed = numbered p base (emit [] au.nals) := by
  rcases (packetizeAu_clear accept p garbage base au hclear).2 with h | ⟨hrefused, _⟩
  · exact h
  · cases hrefused

end Runs

theorem prefix_sizes {sent plan : List (Content × Bool)} (h : sent <+: plan) {bound : Nat}
    (hplan : ∀ packet ∈ plan, packet.1.bytes.length ≤ bound) : ∀ packet ∈ sent, packet.1.bytes.length ≤ bound :=
  fun packet hpacket => hplan packet (h.subset hpacket)

/-- Packetisation is faithful exactly when no aggregate reaches 1200 bytes, no unit is lost to the fragment count or
    taken for another packet format, and no large unit is followed by empty ones only. -/
theorem packetize_faithful (au : AccessUnit) :
    Faithful au ↔ Clear 0 au.nals ∧ Lossless 0 au.nals ∧ Ended au.nals := by
  let sample : Params := ⟨0, 0, 96⟩
  let garbage : Vector UInt8 1212 := Vector.replicate 1212 0
  constructor
  · intro h
    have hclear : Clear 0 au.nals := by
      by_contra hclear
      have := (h.contained accept sample garbage 0).1
      rw [packetizeAu_past sample garbage 0 au hclear] at this
      cases this
    have hhanded := (packetizeAu_accepted sample garbage 0 au hclear).2
    obtain ⟨_, received, hparsed, _, hdelivered, _, _, hmarked⟩ := h.restored sample garbage 0
    rw [hhanded, parse_numbered] at hparsed
    have hreceived : headed sample 0 (emit [] au.nals) = received :=
      List.map_injective_iff.mpr (fun _ _ h => Option.some.inj h) hparsed
    rw [← hreceived, payloads_headed] at hdelivered
    rw [← hreceived, markers_headed] at hmarked
    have hlossless : Lossless 0 au.nals := (delivered_iff au.nals waiting_nil hclear).mp hdelivered
    exact ⟨hclear, hlossless, (marked_iff au.nals (show Lossless (fill []) au.nals from hlossless)).mp hmarked⟩
  · rintro ⟨hclear, hlossless, hended⟩
    have hsize := emit_size au.nals (show fill [] < maxPayloadSize by decide) hclear
    refine ⟨fun callback p garbage base => ?_, fun p garbage base => ?_⟩
    · obtain ⟨hclean, hends⟩ := packetizeAu_clear callback p garbage base au hclear
      refine ⟨hclean, ?_⟩
      rcases hends with ⟨_, hhanded⟩ | ⟨_, _, sent, hsent, hhanded⟩
      · rw [hhanded]
        exact numbered_size p base _ hsize
      · rw [hhanded]
        exact numbered_size p base _ (prefix_sizes hsent hsize)
    · obtain ⟨hdone, hhanded⟩ := packetizeAu_accepted p garbage base au hclear
      refine ⟨hdone, headed p base (emit [] au.nals), ?_, ?_, ?_, sequences_headed p base _, timestamps_headed p base _, ?_⟩
      · rw [hhanded, parse_numbered]
      · rw [hhanded, markers_numbered, markers_headed]
      · rw [payloads_headed]
        exact (delivered_iff au.nals waiting_nil hclear).mpr hlossless
      · rw [markers_headed]
        exact (marked_iff au.nals (show Lossless (fill []) au.nals from hlossless)).mpr hended

/-- A single unit whose length and prefix make exactly 1200 bytes. -/
def exactUnit : NalDesc where
  data := some (List.replicate 1198 0x65)
  length := 1198
  fits := by decide
  backed bytes h := by
    cases h
    exact List.length_replicate

theorem exactUnit_overruns : ¬ Faithful ⟨[exactUnit], 0⟩ := by
  intro h
  have hcarried : carried exactUnit = some (List.replicate 1198 0x65) := rfl
  have hclear : ¬ Clear 0 [exactUnit] := by
    rw [clear_cons hcarried, List.length_replicate, if_pos (by decide), if_pos (by decide)]
    exact fun hfits => absurd hfits.1 (by decide)
  have := (h.contained accept ⟨0, 0, 96⟩ (Vector.replicate 1212 0) 0).1
  rw [packetizeAu_past _ _ _ ⟨[exactUnit], 0⟩ hclear] at this
  cases this

end EtranProcessing.Capture.RtpFaithful
