import EtranProcessing.Capture.RtpPlan

namespace EtranProcessing.Capture.RtpMemory

open Library.Buffers Library.Calls Library.Rtp RtpPacketizer RtpPlan

def numbered (p : Params) : UInt16 → List (Content × Bool) → List Packet
  | _, [] => []
  | seq, (c, marker) :: rest =>
      ⟨writeRtpHeader p marker seq ++ c.bytes, headerSize + c.bytes.length, marker⟩ :: numbered p (seq + 1) rest

theorem numbered_append (p : Params) (seq : UInt16) (first second : List (Content × Bool)) :
    numbered p seq (first ++ second) = numbered p seq first ++ numbered p (seq + UInt16.ofNat first.length) second := by
  induction first generalizing seq with
  | nil => simp [numbered]
  | cons packet first ih =>
      rw [List.cons_append, numbered, numbered, ih, List.cons_append, List.length_cons, UInt16.ofNat_add]
      congr 3
      ac_rfl

/-- The buffer holds the waiting units after the place of the header, with room for one more byte. -/
structure Holds (m : Machine) (pending : List Nal) : Prop where
  size : m.pktBuf.length = 1212
  bytes : m.stapBytes = fill pending
  content : slice m.pktBuf headerSize m.stapBytes = pending.flatMap unit
  room : fill pending < maxPayloadSize
  clean : m.overrun = false

section Stores

variable {m : Machine} {post : Unit → Machine → Prop} {lost : Machine → Prop}

theorem wp_store (offset : Nat) (bytes : List UInt8) :
    wp (store offset bytes) post lost m ↔
      (offset + bytes.length ≤ m.pktBuf.length → post () { m with pktBuf := overwrite m.pktBuf offset bytes }) ∧
      (¬ offset + bytes.length ≤ m.pktBuf.length → lost { m with overrun := true }) := by
  unfold wp store
  by_cases h : offset + bytes.length ≤ m.pktBuf.length
  · simp [h]
  · simp [h]

variable {bytes : List UInt8} {offset : Nat}

theorem wp_store_fits (h : offset + bytes.length ≤ m.pktBuf.length) :
    wp (store offset bytes) post lost m ↔ post () { m with pktBuf := overwrite m.pktBuf offset bytes } := by
  rw [wp_store]
  exact ⟨fun hw => hw.1 h, fun hp => ⟨fun _ => hp, fun hn => absurd h hn⟩⟩

theorem wp_store_bind (f : Unit → Call Machine Unit)
    (h : offset + bytes.length ≤ m.pktBuf.length) :
    wp (store offset bytes >>= f) post lost m ↔ wp (f ()) post lost { m with pktBuf := overwrite m.pktBuf offset bytes } := by
  rw [wp_bind, wp_store_fits h]

theorem wp_store_past (h : ¬ offset + bytes.length ≤ m.pktBuf.length) :
    wp (store offset bytes) post lost m ↔ lost { m with overrun := true } := by
  rw [wp_store]
  exact ⟨fun hw => hw.2 h, fun hl => ⟨fun hf => absurd hf h, fun _ => hl⟩⟩

end Stores

section Sending

variable (callback : List Packet → Bool) (p : Params)

def Sends (c : Call Machine Unit) (m : Machine) (plan : List (Content × Bool)) (after : Machine → Prop) : Prop :=
  wp c
    (fun _ m' => after m' ∧ m'.seq = m.seq + UInt16.ofNat plan.length ∧ m'.handed = m.handed ++ numbered p m.seq plan)
    (fun m' => m'.overrun = false ∧ callback m'.handed = false ∧
      ∃ sent, sent <+: plan ∧ m'.handed = m.handed ++ numbered p m.seq sent) m

variable {callback p} {m : Machine}

theorem Sends.pure {after : Machine → Prop} (h : after m) : Sends callback p (Pure.pure ()) m [] after :=
  ⟨h, by simp, by simp [numbered]⟩

theorem Sends.bind {c : Call Machine Unit} {d : Unit → Call Machine Unit} {first second : List (Content × Bool)}
    {between after : Machine → Prop} (hc : Sends callback p c m first between)
    (hd : ∀ m', between m' → Sends callback p (d ()) m' second after) :
    Sends callback p (c >>= d) m (first ++ second) after := by
  unfold Sends
  rw [wp_bind]
  refine wp_mono hc ?_ ?_
  · rintro ⟨⟩ m' ⟨hbetween, hseq, hhanded⟩
    have hnumbered : ∀ sent, m'.handed ++ numbered p m'.seq sent = m.handed ++ numbered p m.seq (first ++ sent) := by
      intro sent
      rw [numbered_append, hhanded, hseq, List.append_assoc]
    refine wp_mono (hd m' hbetween) ?_ ?_
    · rintro ⟨⟩ m'' ⟨hafter, hseq', hhanded'⟩
      refine ⟨hafter, ?_, by rw [hhanded', hnumbered]⟩
      rw [hseq', hseq, List.length_append, UInt16.ofNat_add]
      ac_rfl
    · rintro m'' ⟨hclean, hrefused, sent, hsent, hhanded'⟩
      exact ⟨hclean, hrefused, first ++ sent, (List.prefix_append_right_inj first).mpr hsent, by rw [hhanded', hnumbered]⟩
  · rintro m' ⟨hclean, hrefused, sent, hsent, hhanded⟩
    exact ⟨hclean, hrefused, sent, hsent.trans (List.prefix_append first second), hhanded⟩

theorem Sends.bind_silent {c : Call Machine Unit} {d : Unit → Call Machine Unit} {plan : List (Content × Bool)}
    {between after : Machine → Prop} (hc : Sends callback p c m [] between)
    (hd : ∀ m', between m' → Sends callback p (d ()) m' plan after) : Sends callback p (c >>= d) m plan after :=
  hc.bind hd

theorem wp_hand {post : Unit → Machine → Prop} {lost : Machine → Prop} {length : Nat} {marker : Bool} {bytes : List UInt8}
    (hbytes : slice m.pktBuf 0 length = bytes)
    (haccepted : post () { m with handed := m.handed ++ [⟨bytes, length, marker⟩] })
    (hrefused : callback (m.handed ++ [⟨bytes, length, marker⟩]) = false →
      lost { m with handed := m.handed ++ [⟨bytes, length, marker⟩] }) :
    wp (hand callback length marker) post lost m := by
  unfold hand
  simp only [wp_bind, wp_change, wp_current, wp_check, hbytes]
  exact ⟨fun _ => haccepted, fun h => hrefused (by simpa using h)⟩

end Sending

section Blocks

variable {callback : List Packet → Bool} {p : Params} {m : Machine} {pending : List Nal}

theorem length_writeRtpHeader (marker : Bool) (seq : UInt16) : (writeRtpHeader p marker seq).length = headerSize := rfl

theorem Holds.length (h : Holds m pending) : (slice m.pktBuf headerSize m.stapBytes).length = m.stapBytes := by
  rw [h.content, h.bytes]
  rfl

theorem holds_nil {buf : List UInt8} {seq : UInt16} {handed : List Packet} (h : buf.length = 1212) :
    Holds ⟨buf, 0, seq, handed, false⟩ [] :=
  ⟨h, rfl, rfl, by decide, rfl⟩

theorem sends_flushStap (h : Holds m pending) (marker : Bool) :
    Sends callback p (flushStap callback p marker) m [(.aggregate pending, marker)] (Holds · []) := by
  have hroom := h.room
  have hsize := h.size
  have hbytes := h.bytes
  have hlength := h.length
  have hcontent := h.content
  generalize hunits : slice m.pktBuf headerSize m.stapBytes = units at hlength hcontent
  have hheader := length_writeRtpHeader (p := p) marker m.seq
  generalize hhdr : writeRtpHeader p marker m.seq = header at hheader
  unfold headerSize maxPayloadSize at *
  let buf1 := overwrite m.pktBuf 13 units
  have hsize1 : buf1.length = 1212 := by rw [length_overwrite (by omega), hsize]
  let buf2 := overwrite buf1 12 [0x78]
  have hsize2 : buf2.length = 1212 := by rw [length_overwrite (by simp; omega), hsize1]
  let buf3 := overwrite buf2 0 header
  have hsize3 : buf3.length = 1212 := by rw [length_overwrite (by omega), hsize2]
  have hpacket : slice buf3 0 (12 + 1 + m.stapBytes) = header ++ (0x78 :: units) := by
    have hfirst : slice buf3 0 12 = header := by
      rw [← hheader]
      exact slice_overwrite_self (Nat.zero_le _)
    have hsecond : slice buf3 12 1 = [0x78] := by
      rw [slice_overwrite_after (Nat.zero_le _) (by omega)]
      exact slice_overwrite_self (by omega)
    have hthird : slice buf3 13 m.stapBytes = units := by
      rw [slice_overwrite_after (Nat.zero_le _) (by omega), slice_overwrite_after (by omega) (by simp), ← hlength]
      exact slice_overwrite_self (by omega)
    rw [slice_add, slice_add, hfirst, hsecond, hthird, List.append_assoc]
    rfl
  have hplan : numbered p m.seq [(.aggregate pending, marker)] =
      [⟨header ++ (0x78 :: units), 12 + 1 + m.stapBytes, marker⟩] := by
    rw [numbered, numbered, Content.bytes, ← hcontent, hhdr, List.length_cons, hlength]
    unfold headerSize
    congr 2
    omega
  unfold Sends flushStap headerSize
  have hfits1 : 12 + [(0x78 : UInt8)].length ≤ buf1.length := by rw [hsize1]; decide
  have hfits2 : 0 + header.length ≤ buf2.length := by omega
  rw [wp_bind, wp_current, hunits, hhdr, wp_store_bind _ (by omega), wp_store_bind _ hfits1, wp_store_bind _ hfits2, wp_bind]
  refine wp_hand hpacket ?_ ?_
  · exact ⟨⟨hsize3, rfl, rfl, by decide, h.clean⟩, by simp, by rw [hplan]⟩
  · exact fun hrefused => ⟨h.clean, hrefused, _, List.prefix_refl _, by rw [hplan]⟩

theorem accumulate_wp {post : Unit → Machine → Prop} {lost : Machine → Prop} {d : Nal} (h : Holds m pending)
    (hfits : fill pending + (2 + d.length) ≤ maxPayloadSize)
    (hpost : ∀ buf, buf.length = 1212 → slice buf headerSize (fill (pending ++ [d])) = (pending ++ [d]).flatMap unit →
      post () { m with pktBuf := buf, stapBytes := fill (pending ++ [d]) }) :
    wp (accumulate d.length d) post lost m := by
  have hsize := h.size
  have hbytes := h.bytes
  have hcontent := h.content
  unfold maxPayloadSize at hfits
  unfold headerSize at hpost hcontent
  let buf1 := overwrite m.pktBuf (12 + m.stapBytes) [UInt8.ofNat (d.length / 256)]
  have hfits1 : 12 + m.stapBytes + [UInt8.ofNat (d.length / 256)].length ≤ m.pktBuf.length := by
    simp only [List.length_singleton]
    omega
  have hsize1 : buf1.length = 1212 := by rw [length_overwrite hfits1, hsize]
  let buf2 := overwrite buf1 (12 + m.stapBytes + 1) [UInt8.ofNat d.length]
  have hfits2 : 12 + m.stapBytes + 1 + [UInt8.ofNat d.length].length ≤ buf1.length := by
    simp only [List.length_singleton]
    omega
  have hsize2 : buf2.length = 1212 := by rw [length_overwrite hfits2, hsize1]
  let buf3 := overwrite buf2 (12 + m.stapBytes + 2) d
  have hfits3 : 12 + m.stapBytes + 2 + d.length ≤ buf2.length := by omega
  have hsize3 : buf3.length = 1212 := by rw [length_overwrite hfits3, hsize2]
  have hunits : slice buf3 12 (fill (pending ++ [d])) = (pending ++ [d]).flatMap unit := by
    have hold : slice buf3 12 m.stapBytes = pending.flatMap unit := by
      rw [slice_overwrite_before (by omega) (by omega), slice_overwrite_before (by omega) (by omega),
        slice_overwrite_before (by omega) (by omega)]
      exact hcontent
    have hhigh : slice buf3 (12 + m.stapBytes) 1 = [UInt8.ofNat (d.length / 256)] := by
      rw [slice_overwrite_before (by omega) (by omega), slice_overwrite_before (by omega) (by omega)]
      exact slice_overwrite_self (by omega)
    have hlow : slice buf3 (12 + m.stapBytes + 1) 1 = [UInt8.ofNat d.length] := by
      rw [slice_overwrite_before (by omega) (by omega)]
      exact slice_overwrite_self (by omega)
    have hnal : slice buf3 (12 + m.stapBytes + 2) d.length = d := slice_overwrite_self (by omega)
    rw [fill_append, ← hbytes, ← Nat.add_assoc, slice_add, slice_add buf3 12, hold, slice_add buf3 _ 1 1, hhigh, hlow,
      ← Nat.add_assoc, hnal]
    simp [unit]
  unfold accumulate headerSize
  rw [wp_bind, wp_current, wp_store_bind _ hfits1, wp_store_bind _ hfits2, wp_store_bind _ hfits3, wp_change]
  have hstap : m.stapBytes + (2 + d.length) = fill (pending ++ [d]) := by rw [fill_append, hbytes]
  dsimp only
  rw [hstap]
  exact hpost buf3 hsize3 hunits

theorem sends_accumulate {d : Nal} (h : Holds m pending) (hroom : fill pending + (2 + d.length) < maxPayloadSize) :
    Sends callback p (accumulate d.length d) m [] (Holds · (pending ++ [d])) :=
  accumulate_wp h (Nat.le_of_lt hroom) fun buf hsize hcontent =>
    ⟨⟨hsize, rfl, hcontent, by rw [fill_append]; exact hroom, h.clean⟩, by simp, by simp [numbered]⟩

theorem accumulate_past {post : Unit → Machine → Prop} {lost : Machine → Prop} {d : Nal} (h : Holds m [])
    (hpast : maxPayloadSize < 2 + d.length) (hlost : ∀ m', m'.overrun = true → lost m') :
    wp (accumulate d.length d) post lost m := by
  have hsize := h.size
  have hbytes := h.bytes
  rw [fill_nil] at hbytes
  unfold maxPayloadSize at hpast
  unfold accumulate headerSize
  rw [wp_bind, wp_current, hbytes]
  let buf1 := overwrite m.pktBuf (12 + 0) [UInt8.ofNat (d.length / 256)]
  have hfits1 : 12 + 0 + [UInt8.ofNat (d.length / 256)].length ≤ m.pktBuf.length := by
    simp only [List.length_singleton]
    omega
  have hsize1 : buf1.length = 1212 := by rw [length_overwrite hfits1, hsize]
  let buf2 := overwrite buf1 (12 + 0 + 1) [UInt8.ofNat d.length]
  have hfits2 : 12 + 0 + 1 + [UInt8.ofNat d.length].length ≤ buf1.length := by
    simp only [List.length_singleton]
    omega
  have hsize2 : buf2.length = 1212 := by rw [length_overwrite hfits2, hsize1]
  have hpast3 : ¬ 12 + 0 + 2 + d.length ≤ buf2.length := by omega
  rw [wp_store_bind _ hfits1, wp_store_bind _ hfits2, wp_bind, wp_store_past hpast3]
  exact hlost _ rfl

theorem sends_singleNal {d : Nal} (h : Holds m []) (hsmall : d.length ≤ maxPayloadSize) :
    Sends callback p (singleNal callback p d.length d) m [(.single d, true)] (Holds · []) := by
  have hsize := h.size
  unfold maxPayloadSize at hsmall
  have hheader := length_writeRtpHeader (p := p) true m.seq
  generalize hhdr : writeRtpHeader p true m.seq = header at hheader
  unfold headerSize at hheader
  let buf1 := overwrite m.pktBuf 0 header
  have hfits1 : 0 + header.length ≤ m.pktBuf.length := by omega
  have hsize1 : buf1.length = 1212 := by rw [length_overwrite hfits1, hsize]
  let buf2 := overwrite buf1 12 d
  have hfits2 : 12 + d.length ≤ buf1.length := by omega
  have hsize2 : buf2.length = 1212 := by rw [length_overwrite hfits2, hsize1]
  have hpacket : slice buf2 0 (12 + d.length) = header ++ d := by
    have hfirst : slice buf2 0 12 = header := by
      rw [slice_overwrite_before (by omega) (by omega), ← hheader]
      exact slice_overwrite_self (Nat.zero_le _)
    have hsecond : slice buf2 12 d.length = d := slice_overwrite_self (by omega)
    rw [slice_add, hfirst, hsecond]
  have hplan : numbered p m.seq [(.single d, true)] = [⟨header ++ d, 12 + d.length, true⟩] := by
    rw [numbered, numbered, Content.bytes, hhdr]
    rfl
  unfold Sends singleNal headerSize
  rw [wp_bind, wp_current, hhdr, wp_store_bind _ hfits1, wp_store_bind _ hfits2, wp_bind, wp_change]
  have hempty : m.stapBytes = 0 := h.bytes
  refine wp_hand hpacket ?_ ?_
  · refine ⟨⟨hsize2, h.bytes, ?_, by decide, h.clean⟩, by simp, by rw [hplan]⟩
    change slice buf2 headerSize m.stapBytes = _
    rw [hempty]
    rfl
  · exact fun hrefused => ⟨h.clean, hrefused, _, List.prefix_refl _, by rw [hplan]⟩

theorem sends_sendFragment {data : List UInt8} (h : Holds m []) (hsize' : data.length ≤ maxFuPayloadSize)
    (lastNal first last : Bool) (hdr : UInt8) :
    Sends callback p (sendFragment callback p lastNal hdr first last data.length data) m
      [(.fragment first last hdr data, last && lastNal)] (Holds · []) := by
  have hsize := h.size
  unfold maxFuPayloadSize at hsize'
  have hheader := length_writeRtpHeader (p := p) (last && lastNal) m.seq
  generalize hhdr : writeRtpHeader p (last && lastNal) m.seq = header at hheader
  unfold headerSize at hheader
  let buf1 := overwrite m.pktBuf 0 header
  have hfits1 : 0 + header.length ≤ m.pktBuf.length := by omega
  have hsize1 : buf1.length = 1212 := by rw [length_overwrite hfits1, hsize]
  let buf2 := overwrite buf1 12 [fuIndicator hdr]
  have hfits2 : 12 + [fuIndicator hdr].length ≤ buf1.length := by rw [hsize1]; simp
  have hsize2 : buf2.length = 1212 := by rw [length_overwrite hfits2, hsize1]
  let buf3 := overwrite buf2 13 [fuHeader first last hdr]
  have hfits3 : 13 + [fuHeader first last hdr].length ≤ buf2.length := by rw [hsize2]; simp
  have hsize3 : buf3.length = 1212 := by rw [length_overwrite hfits3, hsize2]
  let buf4 := overwrite buf3 14 data
  have hfits4 : 14 + data.length ≤ buf3.length := by omega
  have hsize4 : buf4.length = 1212 := by rw [length_overwrite hfits4, hsize3]
  have hpacket : slice buf4 0 (12 + 2 + data.length) = header ++ (fuIndicator hdr :: fuHeader first last hdr :: data) := by
    have hfirst : slice buf4 0 12 = header := by
      rw [slice_overwrite_before (by omega) (by omega), slice_overwrite_before (by omega) (by omega),
        slice_overwrite_before (by omega) (by omega), ← hheader]
      exact slice_overwrite_self (Nat.zero_le _)
    have hsecond : slice buf4 12 1 = [fuIndicator hdr] := by
      rw [slice_overwrite_before (by omega) (by omega), slice_overwrite_before (by omega) (by omega)]
      exact slice_overwrite_self (by omega)
    have hthird : slice buf4 13 1 = [fuHeader first last hdr] := by
      rw [slice_overwrite_before (by omega) (by omega)]
      exact slice_overwrite_self (by omega)
    have hfourth : slice buf4 14 data.length = data := slice_overwrite_self (by omega)
    rw [slice_add, slice_add buf4 0 12 2, hfirst, slice_add buf4 _ 1 1, hsecond, hthird, hfourth]
    simp
  have hplan : numbered p m.seq [(.fragment first last hdr data, last && lastNal)] =
      [⟨header ++ (fuIndicator hdr :: fuHeader first last hdr :: data), 12 + 2 + data.length, last && lastNal⟩] := by
    rw [numbered, numbered, Content.bytes, hhdr, List.length_cons, List.length_cons]
    unfold headerSize
    congr 2
    omega
  unfold Sends sendFragment headerSize
  rw [wp_bind, wp_current, hhdr, wp_store_bind _ hfits1]
  change wp (store 12 [fuIndicator hdr] >>= _) _ _ _
  rw [wp_store_bind _ hfits2]
  change wp (store 13 [fuHeader first last hdr] >>= _) _ _ _
  rw [wp_store_bind _ hfits3]
  change wp (store 14 data >>= _) _ _ _
  rw [wp_store_bind _ hfits4, wp_bind, wp_change]
  have hempty : m.stapBytes = 0 := h.bytes
  refine wp_hand hpacket ?_ ?_
  · refine ⟨⟨hsize4, h.bytes, ?_, by decide, h.clean⟩, by simp, by rw [hplan]⟩
    change slice buf4 headerSize m.stapBytes = _
    rw [hempty]
    rfl
  · exact fun hrefused => ⟨h.clean, hrefused, _, List.prefix_refl _, by rw [hplan]⟩

end Blocks

section Loops

variable {callback : List Packet → Bool} {p : Params} {m : Machine} {pending : List Nal}

theorem sends_fragmentLoop (lastNal : Bool) (hdr : UInt8) (payload : List UInt8) (count remaining i offset : Nat)
    (h : Holds m []) (hcount : i + remaining = count) :
    Sends callback p (fragmentLoop callback p lastNal hdr payload payload.length count remaining i offset) m
      ((pieces maxFuPayloadSize hdr (i == 0) remaining (payload.drop offset)).map fun c => (c, closing c && lastNal))
      (Holds · []) := by
  induction remaining generalizing m i offset with
  | zero => exact .pure h
  | succ n ih =>
      have hlast : (i == count - 1) = (n == 0) := by
        by_cases hn : n = 0
        · simp [hn]; omega
        · simp [hn]; omega
      have hdata : slice payload offset (min (payload.length - offset) maxFuPayloadSize) =
          (payload.drop offset).take maxFuPayloadSize := by
        rw [slice, List.take_eq_take_iff, List.length_drop]
        omega
      have hrest : payload.drop (offset + min (payload.length - offset) maxFuPayloadSize) =
          (payload.drop offset).drop maxFuPayloadSize := by
        rw [List.drop_drop, List.drop_eq_drop_iff]
        omega
      have hsize : ((payload.drop offset).take maxFuPayloadSize).length = min (payload.length - offset) maxFuPayloadSize := by
        rw [List.length_take, List.length_drop, Nat.min_comm]
      rw [fragmentLoop, pieces, List.map_cons, hlast, hdata]
      refine @Sends.bind _ _ _ _ _ [_] _ (Holds · []) _ ?_ ?_
      · rw [← hsize]
        exact sends_sendFragment h (by rw [hsize]; exact Nat.min_le_right _ _) lastNal _ _ hdr
      · intro m' hm'
        rw [← hrest]
        exact ih (i + 1) _ hm' (by omega)

theorem sends_flushPending (h : Holds m pending) :
    Sends callback p (flushPending callback p) m (flushed pending false) (Holds · []) := by
  unfold Sends flushPending
  rw [wp_bind, wp_current]
  unfold flushed
  by_cases hne : pending = []
  · have hzero : ¬ 0 < m.stapBytes := by rw [h.bytes, hne]; exact Nat.lt_irrefl 0
    rw [if_pos hne, if_neg hzero]
    exact Sends.pure (hne ▸ h)
  · rw [if_neg hne, if_pos (by rw [h.bytes]; exact fill_pos.mpr hne)]
    exact sends_flushStap h false

structure Full (m : Machine) : Prop where
  size : m.pktBuf.length = 1212
  bytes : m.stapBytes = 1200

variable {c : Call Machine Unit} {post : Unit → Machine → Prop} {plan : List (Content × Bool)} {lost : Machine → Prop} {clear : Prop}

theorem flushStap_past (h : Full m) (marker : Bool)
    (hlost : ∀ m', m'.overrun = true → lost m') : wp (flushStap callback p marker) post lost m := by
  have hlength : (slice m.pktBuf 12 1200).length = 1200 := length_slice (Nat.le_trans (by decide : _ ≤ 1212) (Nat.le_of_eq h.size.symm))
  have hpast : ¬ 12 + 1 + (slice m.pktBuf 12 1200).length ≤ m.pktBuf.length := by rw [hlength, h.size]; decide
  unfold flushStap headerSize
  rw [wp_bind, wp_current, h.bytes, wp_bind, wp_store_past hpast]
  exact hlost _ rfl

theorem flushPending_past (h : Full m)
    (hlost : ∀ m', m'.overrun = true → lost m') : wp (flushPending callback p) post lost m := by
  unfold flushPending
  rw [wp_bind, wp_current, if_pos (by rw [h.bytes]; decide)]
  exact flushStap_past h false hlost

variable (callback p)

def remainder (nals : List NalDesc) : Call Machine Unit := do
  packetizeLoop callback p nals
  let m ← current
  if 0 < m.stapBytes then flushStap callback p true else pure ()

/-- A call that ends with a whole plan, runs past the buffer exactly when the plan is not clear,
    or stops at a refused packet. -/
def Ends (c : Call Machine Unit) (m : Machine) (plan : List (Content × Bool)) (clear : Prop) : Prop :=
  wp c
    (fun _ m' => clear ∧ m'.overrun = false ∧ m'.handed = m.handed ++ numbered p m.seq plan)
    (fun m' => m'.overrun = true ∧ ¬ clear ∨ m'.overrun = false ∧ callback m'.handed = false ∧
      ∃ sent, sent <+: plan ∧ m'.handed = m.handed ++ numbered p m.seq sent) m

variable {callback p}

theorem Ends.bind {d : Unit → Call Machine Unit} {first second : List (Content × Bool)}
    {between : Machine → Prop} (hc : Sends callback p c m first between)
    (hd : ∀ m', between m' → Ends callback p (d ()) m' second clear) :
    Ends callback p (c >>= d) m (first ++ second) clear := by
  unfold Ends
  rw [wp_bind]
  refine wp_mono hc ?_ ?_
  · rintro ⟨⟩ m' ⟨hbetween, hseq, hhanded⟩
    have hnumbered : ∀ sent, m'.handed ++ numbered p m'.seq sent = m.handed ++ numbered p m.seq (first ++ sent) := by
      intro sent
      rw [numbered_append, hhanded, hseq, List.append_assoc]
    refine wp_mono (hd m' hbetween) ?_ ?_
    · rintro ⟨⟩ m'' ⟨hclear, hclean, hhanded'⟩
      exact ⟨hclear, hclean, by rw [hhanded', hnumbered]⟩
    · rintro m'' (hpast | ⟨hclean, hrefused, sent, hsent, hhanded'⟩)
      · exact .inl hpast
      · exact .inr ⟨hclean, hrefused, first ++ sent, (List.prefix_append_right_inj first).mpr hsent,
          by rw [hhanded', hnumbered]⟩
  · rintro m' ⟨hclean, hrefused, sent, hsent, hhanded⟩
    exact .inr ⟨hclean, hrefused, sent, hsent.trans (List.prefix_append first second), hhanded⟩

theorem Ends.bind_silent {d : Unit → Call Machine Unit}
    {between : Machine → Prop} (hc : Sends callback p c m [] between)
    (hd : ∀ m', between m' → Ends callback p (d ()) m' plan clear) : Ends callback p (c >>= d) m plan clear :=
  Ends.bind hc hd

theorem Ends.past (hclear : ¬ clear)
    (h : wp c (fun _ _ => False) (fun m' => m'.overrun = true) m) : Ends callback p c m plan clear :=
  wp_mono h (fun _ _ hf => hf.elim) fun _ hpast => .inl ⟨hpast, hclear⟩

theorem Sends.ends
    (h : Sends callback p c m plan (Holds · [])) : Ends callback p c m plan True :=
  wp_mono h (fun _ _ hdone => ⟨trivial, hdone.1.clean, hdone.2.2⟩) fun _ hrefused => .inr hrefused

theorem packetizeNal_skip {nal : NalDesc} (h : carried nal = none) (lastNal : Bool) :
    packetizeNal callback p nal lastNal = pure () := by
  unfold packetizeNal
  rcases carried_none h with hdata | hlength
  · rw [hdata]
  · split
    · rfl
    · rw [if_pos hlength]

theorem packetizeNal_carried {nal : NalDesc} {d : Nal} (h : carried nal = some d) (lastNal : Bool) :
    packetizeNal callback p nal lastNal = packetizeUnit callback p d.length d lastNal := by
  obtain ⟨hdata, hlength, hne⟩ := carried_length h
  have hpos : d.length ≠ 0 := by simpa using hne
  unfold packetizeNal
  rw [hdata]
  dsimp only
  rw [hlength, if_neg hpos]

theorem wp_remainder_cons (nal : NalDesc) (rest : List NalDesc) :
    wp (remainder callback p (nal :: rest)) post lost m ↔
      wp (packetizeNal callback p nal rest.isEmpty >>= fun _ => remainder callback p rest) post lost m := by
  unfold remainder
  rw [packetizeLoop, wp_bind_assoc]

theorem remainder_past (nals : List NalDesc) (h : Full m) :
    wp (remainder callback p nals) (fun _ _ => False) (fun m' => m'.overrun = true) m := by
  induction nals generalizing m with
  | nil =>
      unfold remainder packetizeLoop
      rw [wp_bind, wp_pure, wp_bind, wp_current, if_pos (by rw [h.bytes]; decide)]
      exact flushStap_past h true fun _ hpast => hpast
  | cons nal rest ih =>
      rw [wp_remainder_cons]
      cases hcarried : carried nal with
      | none =>
          rw [packetizeNal_skip hcarried, wp_bind, wp_pure]
          exact ih h
      | some d =>
          rw [packetizeNal_carried hcarried, packetizeUnit, wp_bind]
          split
          · have hfull : ¬ m.stapBytes + (2 + d.length) ≤ maxPayloadSize := by
              rw [h.bytes]
              unfold maxPayloadSize
              omega
            rw [wp_bind, wp_current, if_neg hfull, wp_bind]
            exact flushPending_past h fun _ hpast => hpast
          · rw [wp_bind]
            exact flushPending_past h fun _ hpast => hpast

section Units

variable {post : Unit → Machine → Prop} {lost : Machine → Prop} {d : Nal} (h : Holds m pending) (lastNal : Bool)
include h

theorem wp_unit_fits (hsmall : d.length ≤ maxPayloadSize) (hfits : fill pending + (2 + d.length) ≤ maxPayloadSize) :
    wp (packetizeUnit callback p d.length d lastNal) post lost m ↔
      wp (accumulate d.length d >>= fun _ => if lastNal then flushStap callback p true else pure ()) post lost m := by
  unfold packetizeUnit
  rw [if_pos hsmall, wp_bind, wp_current, if_pos (by rw [h.bytes]; exact hfits)]

theorem wp_unit_full (hsmall : d.length ≤ maxPayloadSize) (hfull : ¬ fill pending + (2 + d.length) ≤ maxPayloadSize) :
    wp (packetizeUnit callback p d.length d lastNal) post lost m ↔
      wp (flushPending callback p >>= fun _ => if lastNal then singleNal callback p d.length d else accumulate d.length d)
        post lost m := by
  unfold packetizeUnit
  rw [if_pos hsmall, wp_bind, wp_current, if_neg (by rw [h.bytes]; exact hfull)]

omit h in
theorem wp_unit_large (hlarge : ¬ d.length ≤ maxPayloadSize) :
    wp (packetizeUnit callback p d.length d lastNal) post lost m ↔
      wp (flushPending callback p >>= fun _ => fragmentLoop callback p lastNal (d.headD 0) (d.drop 1) (d.length - 1)
        (fragCount d.length) (fragCount d.length) 0 0) post lost m := by
  unfold packetizeUnit
  rw [if_neg hlarge]

theorem sends_last_fits (hroom : fill pending + (2 + d.length) < maxPayloadSize) :
    Sends callback p (accumulate d.length d >>= fun _ => flushStap callback p true) m
      [(.aggregate (pending ++ [d]), true)] (Holds · []) :=
  Sends.bind_silent (sends_accumulate h hroom) fun _ hm' => sends_flushStap hm' true

theorem sends_last_alone (hsmall : d.length ≤ maxPayloadSize) :
    Sends callback p (flushPending callback p >>= fun _ => singleNal callback p d.length d) m
      (flushed pending false ++ [(.single d, true)]) (Holds · []) :=
  (sends_flushPending h).bind fun _ hm' => sends_singleNal hm' hsmall

theorem sends_large :
    Sends callback p (flushPending callback p >>= fun _ => fragmentLoop callback p lastNal (d.headD 0) (d.drop 1)
        (d.length - 1) (fragCount d.length) (fragCount d.length) 0 0) m
      (flushed pending false ++ cut d lastNal) (Holds · []) := by
  refine (sends_flushPending h).bind fun m' hm' => ?_
  cases d with
  | nil => exact Sends.pure hm'
  | cons hdr payload => exact sends_fragmentLoop lastNal hdr payload _ _ 0 0 hm' (Nat.zero_add _)

theorem exact_past (nals : List NalDesc) (hexact : fill pending + (2 + d.length) = maxPayloadSize) :
    wp (accumulate d.length d >>= fun _ => if lastNal then flushStap callback p true else pure ())
      (fun _ => wp (remainder callback p nals) (fun _ _ => False) fun m' => m'.overrun = true)
      (fun m' => m'.overrun = true) m := by
  rw [wp_bind]
  refine accumulate_wp h (Nat.le_of_eq hexact) fun buf hsize _ => ?_
  have hfull : Full { m with pktBuf := buf, stapBytes := fill (pending ++ [d]) } :=
    ⟨hsize, by rw [fill_append]; exact hexact⟩
  cases lastNal with
  | true => exact flushStap_past hfull true fun _ hpast => hpast
  | false => exact remainder_past nals hfull

end Units

theorem remainder_nil (h : Holds m pending) : Ends callback p (remainder callback p []) m (emit pending []) True := by
  unfold Ends remainder
  rw [packetizeLoop, wp_bind, wp_pure, wp_bind, wp_current, emit]
  unfold flushed
  by_cases hne : pending = []
  · have hzero : ¬ 0 < m.stapBytes := by rw [h.bytes, hne]; exact Nat.lt_irrefl 0
    rw [if_pos hne, if_neg hzero]
    exact ⟨trivial, h.clean, by simp [numbered]⟩
  · rw [if_neg hne, if_pos (by rw [h.bytes]; exact fill_pos.mpr hne)]
    exact (sends_flushStap h true).ends

theorem remainder_ends (nals : List NalDesc) (h : Holds m pending) :
    Ends callback p (remainder callback p nals) m (emit pending nals) (Clear (fill pending) nals) := by
  induction nals generalizing m pending with
  | nil => exact remainder_nil h
  | cons nal rest ih =>
      unfold Ends
      rw [wp_remainder_cons]
      cases hcarried : carried nal with
      | none =>
          rw [packetizeNal_skip hcarried, wp_bind, wp_pure, emit_skip hcarried, Clear, hcarried]
          exact ih h
      | some d =>
          rw [packetizeNal_carried hcarried, wp_bind, clear_cons hcarried]
          by_cases hsmall : d.length ≤ maxPayloadSize
          · rw [if_pos hsmall]
            by_cases hfits : fill pending + (2 + d.length) ≤ maxPayloadSize
            · rw [if_pos hfits, wp_unit_fits h _ hsmall hfits, emit_fits hcarried hsmall hfits]
              by_cases hroom : fill pending + (2 + d.length) < maxPayloadSize
              · simp only [hroom, true_and]
                cases rest with
                | nil =>
                    have hemit : emit (pending ++ [d]) [] = [(.aggregate (pending ++ [d]), true)] ++ emit [] [] := by
                      simp [emit, flushed]
                    rw [hemit, ← wp_bind]
                    exact Ends.bind (sends_last_fits h hroom) fun _ hm' => remainder_nil hm'
                | cons =>
                    rw [← fill_append, ← wp_bind, wp_bind_assoc]
                    exact Ends.bind_silent (sends_accumulate h hroom) fun _ hm' => ih hm'
              · have hexact : fill pending + (2 + d.length) = maxPayloadSize := by omega
                rw [← wp_bind]
                refine Ends.past (fun hclear => hroom hclear.1) ?_
                rw [wp_bind]
                exact exact_past h _ rest hexact
            · rw [if_neg hfits, wp_unit_full h _ hsmall hfits, ← wp_bind]
              by_cases hrest : rest = []
              · rw [hrest, emit_alone hcarried hsmall hfits]
                have hplan : flushed pending false ++ [(Content.single d, true)] =
                    flushed pending false ++ [(.single d, true)] ++ emit [] [] := (List.append_nil _).symm
                have hclear : (([] : List NalDesc) = [] ∨ 2 + d.length < maxPayloadSize ∧ Clear (2 + d.length) []) = True := by
                  simp
                rw [hplan, hclear]
                exact Ends.bind (sends_last_alone h hsmall) fun _ hm' => remainder_nil hm'
              · have hlast : rest.isEmpty = false := by simpa using hrest
                rw [emit_renewed hcarried hsmall hfits hrest, hlast, wp_bind_assoc]
                refine Ends.bind (sends_flushPending h) fun m' hm' => ?_
                simp only [hrest, false_or]
                by_cases hroom : 2 + d.length < maxPayloadSize
                · have hfirst : fill [] + (2 + d.length) < maxPayloadSize := by rw [fill_nil]; omega
                  simp only [hroom, true_and]
                  rw [← fill_single]
                  exact Ends.bind_silent (sends_accumulate hm' hfirst) fun _ hm'' => ih hm''
                · refine Ends.past (fun hclear => hroom hclear.1) ?_
                  rw [wp_bind]
                  by_cases hexact : 2 + d.length = maxPayloadSize
                  · have hpast : wp (accumulate d.length d >>= fun _ => if false then flushStap callback p true else pure ())
                        (fun _ => wp (remainder callback p rest) (fun _ _ => False) fun m' => m'.overrun = true)
                        (fun m' => m'.overrun = true) m' :=
                      exact_past hm' false rest (by rw [fill_nil, Nat.zero_add]; exact hexact)
                    rw [wp_bind] at hpast
                    exact hpast
                  · exact accumulate_past hm' (by omega) fun _ hpast => hpast
          · rw [if_neg hsmall, wp_unit_large _ hsmall, ← wp_bind, emit_large hcarried hsmall]
            exact Ends.bind (sends_large h _) fun _ hm' => ih hm'

end Loops

end EtranProcessing.Capture.RtpMemory
