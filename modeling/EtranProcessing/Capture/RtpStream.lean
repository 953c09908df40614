import EtranProcessing.Capture.RtpFaithful
import EtranProcessing.Capture.Limits
import EtranProcessing.Library.Runs

namespace EtranProcessing.Capture.RtpStream

open Limits Library.Rtp Library.Runs RtpPacketizer RtpPlan RtpMemory RtpFaithful

structure Sender where
  ssrc : UInt32
  seqNum : UInt16
  payloadType : UInt8
  baseTs : UInt32
  ptsStartMs : Nat
  ptsStartSet : Bool
  lastRtpTimestamp : UInt32
  deriving DecidableEq, Repr

/-- What one call gave to the network: its packets up to the one that the socket refused. -/
structure Sent where
  au : AccessUnit
  base : UInt16
  handed : List Packet
  dropped : Bool

def Sent.wire (sent : Sent) : List Packet := if sent.dropped then sent.handed.dropLast else sent.handed

structure Call where
  au : AccessUnit
  link : List Packet → Bool
  garbage : Vector UInt8 1212

def Sender.begun (s : Sender) (au : AccessUnit) : Sender :=
  if s.ptsStartSet then s else { s with ptsStartMs := au.ptsMs, ptsStartSet := true }

def Sender.timestamp (s : Sender) (au : AccessUnit) : UInt32 :=
  s.baseTs + UInt32.ofNat ((if s.ptsStartMs < au.ptsMs then au.ptsMs - s.ptsStartMs else 0) * 90)

def sendAu (s : Sender) (c : Call) : Status × Sender × Sent :=
  if c.au.nals.isEmpty then (.ok, s, ⟨c.au, s.seqNum, [], false⟩)
  else
    let s := s.begun c.au
    let s := { s with lastRtpTimestamp := s.timestamp c.au }
    let (result, m) := packetizeAu c.link ⟨s.timestamp c.au, s.ssrc, s.payloadType⟩ c.garbage s.seqNum c.au
    -- the callback alone sets the flag, when the socket refuses a packet
    let dropped := result.isNone
    (if dropped then .network else .ok, { s with seqNum := s.seqNum + UInt16.ofNat (countPackets c.au) },
      ⟨c.au, s.seqNum, m.handed, dropped⟩)

structure World where
  sender : Sender
  log : List Sent

def step (w : World) (c : Call) : World := ⟨(sendAu w.sender c).2.1, w.log ++ [(sendAu w.sender c).2.2]⟩

def emitted (au : AccessUnit) : Nat := (packetizeAu accept ⟨0, 0, 0⟩ (Vector.replicate 1212 0) 0 au).2.handed.length

def total (log : List Sent) : Nat := (log.map fun sent => emitted sent.au).sum

def sequenceOf (packet : Packet) : Option UInt16 := (parse packet.bytes).map fun received => received.1.sequence

def At (log : List Sent) (i : Nat) (packet : Packet) : Prop :=
  ∃ before sent after j, log = before ++ sent :: after ∧ sent.wire[j]? = some packet ∧ i = total before + j

/-- The numbers of all calls form one stream. -/
structure OneStream (first : UInt16) (log : List Sent) : Prop where
  counted : ∀ sent ∈ log, countPackets sent.au = emitted sent.au % 2 ^ 32 ∧
    ∀ p garbage base, (packetizeAu accept p garbage base sent.au).1 = some () ∧
      (packetizeAu accept p garbage base sent.au).2.handed.length = emitted sent.au
  chained : ∀ before sent after, log = before ++ sent :: after → sent.base = first + UInt16.ofNat (total before)
  sequences : ∀ sent ∈ log, sent.wire.map sequenceOf = (consecutive sent.base sent.wire.length).map some
  within : ∀ sent ∈ log, sent.wire.length ≤ emitted sent.au ∧
    (sent.dropped = false → sent.wire.length = emitted sent.au)
  unique : ∀ i j a b, At log i a → At log j b → i < j → sequenceOf a = sequenceOf b → 65536 ≤ j - i
  gaps : ∀ i, i < total log → (∃ packet, At log i packet) ∨
    ∃ before sent after, log = before ++ sent :: after ∧ sent.dropped = true ∧
      total before ≤ i ∧ i < total before + emitted sent.au

def Sendable (au : AccessUnit) : Prop := Clear 0 au.nals ∧ ∀ nal ∈ au.nals, nal.data = none → nal.length = 0

section Counting

theorem length_cut (d : Nal) (lastNal : Bool) (hne : d ≠ []) : (cut d lastNal).length = fragCount d.length := by
  cases d with
  | nil => exact absurd rfl hne
  | cons => rw [cut, List.length_map, length_pieces]

theorem length_flushed (pending : List Nal) (marker : Bool) :
    (flushed pending marker).length = if 0 < fill pending then 1 else 0 := by
  unfold flushed
  by_cases hne : pending = []
  · rw [if_pos hne, hne]
    rfl
  · rw [if_neg hne, if_pos (fill_pos.mpr hne)]
    rfl

def countFrom (nals : List NalDesc) (count stapBytes : Nat) : Nat :=
  let (count, stapBytes) := countLoop nals count stapBytes
  if 0 < stapBytes then (count + 1) % 2 ^ 32 else count

theorem countFrom_cons (nal : NalDesc) (rest : List NalDesc) (count stapBytes : Nat) :
    countFrom (nal :: rest) count stapBytes =
      countFrom rest (countNal nal rest.isEmpty count stapBytes).1 (countNal nal rest.isEmpty count stapBytes).2 := rfl

theorem count_flushed {count : Nat} (hcount : count < 2 ^ 32) (pending : List Nal) (marker : Bool) :
    (if 0 < fill pending then (count + 1) % 2 ^ 32 else count) = (count + (flushed pending marker).length) % 2 ^ 32 := by
  rw [length_flushed]
  split
  · rfl
  · rw [Nat.add_zero, Nat.mod_eq_of_lt hcount]

theorem countFrom_eq (nals : List NalDesc) (hseen : ∀ nal ∈ nals, nal.data = none → nal.length = 0)
    {count : Nat} (hcount : count < 2 ^ 32) (pending : List Nal) :
    countFrom nals count (fill pending) = (count + (emit pending nals).length) % 2 ^ 32 := by
  induction nals generalizing count pending with
  | nil => exact count_flushed hcount pending true
  | cons nal rest ih =>
      have hrest : ∀ n ∈ rest, n.data = none → n.length = 0 := fun n hn => hseen n (List.mem_cons_of_mem _ hn)
      rw [countFrom_cons]
      cases hcarried : carried nal with
      | none =>
          have hzero : nal.length = 0 := (carried_none hcarried).elim (hseen nal List.mem_cons_self) id
          rw [emit_skip hcarried, countNal, if_pos hzero]
          exact ih hrest hcount pending
      | some d =>
          obtain ⟨_, hlength, hne⟩ := carried_length hcarried
          have hpos : ¬ d.length = 0 := by simpa using hne
          have hmod : ∀ n, n % 2 ^ 32 < 2 ^ 32 := fun n => Nat.mod_lt n (by decide)
          rw [countNal, hlength, if_neg hpos]
          by_cases hsmall : d.length ≤ maxPayloadSize
          · rw [if_pos hsmall]
            by_cases hfits : fill pending + (2 + d.length) ≤ maxPayloadSize
            · rw [if_pos hfits, emit_fits hcarried hsmall hfits, ← fill_append]
              cases rest with
              | nil =>
                  have hfill : 0 < fill (pending ++ [d]) := fill_pos.mpr (by simp)
                  rw [emit, length_flushed, if_pos hfill]
                  rfl
              | cons => exact ih hrest hcount (pending ++ [d])
            · rw [if_neg hfits]
              dsimp only
              rw [count_flushed hcount pending false]
              by_cases hlast : rest = []
              · rw [hlast, emit_alone hcarried hsmall hfits, List.length_append]
                change ((count + _) % 2 ^ 32 + 1) % 2 ^ 32 = _
                rw [Nat.mod_add_mod, Nat.add_assoc]
                rfl
              · have hempty : rest.isEmpty = false := by simpa using hlast
                rw [hempty]
                change countFrom rest ((count + (flushed pending false).length) % 2 ^ 32) (2 + d.length) = _
                rw [← fill_single, ih hrest (hmod _) [d], Nat.mod_add_mod, emit_renewed hcarried hsmall hfits hlast,
                  List.length_append, Nat.add_assoc]
          · rw [if_neg hsmall]
            dsimp only
            rw [count_flushed hcount pending false]
            change countFrom rest (((count + (flushed pending false).length) % 2 ^ 32 + fragCount d.length) % 2 ^ 32) (fill []) = _
            rw [ih hrest (hmod _) [], Nat.mod_add_mod, Nat.add_assoc, Nat.mod_add_mod, emit_large hcarried hsmall,
              List.length_append, List.length_append, length_cut d _ hne, Nat.add_assoc, Nat.add_assoc]

theorem countPackets_eq (au : AccessUnit) (hseen : ∀ nal ∈ au.nals, nal.data = none → nal.length = 0) :
    countPackets au = (emit [] au.nals).length % 2 ^ 32 := by
  have hcount := countFrom_eq au.nals hseen (show 0 < 2 ^ 32 by decide) []
  rw [Nat.zero_add] at hcount
  exact hcount

end Counting

section Sending

theorem length_numbered (p : Params) (seq : UInt16) (plan : List (Content × Bool)) :
    (numbered p seq plan).length = plan.length := by
  induction plan generalizing seq with
  | nil => rfl
  | cons packet rest ih => rw [numbered, List.length_cons, List.length_cons, ih]

theorem numbered_dropLast (p : Params) (seq : UInt16) (plan : List (Content × Bool)) :
    (numbered p seq plan).dropLast = numbered p seq plan.dropLast := by
  rcases List.eq_nil_or_concat' plan with rfl | ⟨before, last, rfl⟩
  · rfl
  · rw [numbered_append, List.dropLast_concat]
    exact List.dropLast_concat

theorem sequences_numbered (p : Params) (seq : UInt16) (plan : List (Content × Bool)) :
    (numbered p seq plan).map sequenceOf = (consecutive seq plan.length).map some := by
  have hparsed : (numbered p seq plan).map sequenceOf =
      ((numbered p seq plan).map fun packet => parse packet.bytes).map (Option.map fun received => received.1.sequence) := by
    rw [List.map_map]
    rfl
  have hlength : (headed p seq plan).length = plan.length := by
    have := congrArg List.length (payloads_headed p seq plan)
    simpa using this
  have hsequences := sequences_headed p seq plan
  rw [hlength] at hsequences
  rw [hparsed, parse_numbered, ← hsequences, List.map_map, List.map_map]
  rfl

theorem consecutive_get (first : UInt16) (n j : Nat) (h : j < n) :
    (consecutive first n)[j]? = some (first + UInt16.ofNat j) := by
  induction n generalizing first j with
  | zero => cases h
  | succ n ih =>
      cases j with
      | zero => simp [consecutive]
      | succ j =>
          rw [consecutive, List.getElem?_cons_succ, ih (first + 1) j (by omega), UInt16.ofNat_add]
          congr 1
          ac_rfl

theorem emitted_eq {au : AccessUnit} (hclear : Clear 0 au.nals) (p : Params) (garbage : Vector UInt8 1212) (base : UInt16) :
    (packetizeAu accept p garbage base au).2.handed.length = (emit [] au.nals).length := by
  rw [(packetizeAu_accepted p garbage base au hclear).2, length_numbered]

/-- What one call of the sender does with an access unit. -/
structure Numbered (first : UInt16) (sent : Sent) : Prop where
  sendable : Sendable sent.au
  base : sent.base = first
  wire : ∃ p plan, plan <+: emit [] sent.au.nals ∧ sent.wire = numbered p first plan ∧
    (sent.dropped = false → plan = emit [] sent.au.nals)

theorem sendAu_numbered (s : Sender) (c : Call) (h : Sendable c.au) : Numbered s.seqNum (sendAu s c).2.2 := by
  unfold sendAu
  split
  next hempty =>
    have hnone : c.au.nals = [] := by simpa using hempty
    refine ⟨h, rfl, ⟨0, 0, 0⟩, [], List.nil_prefix, rfl, fun _ => ?_⟩
    rw [hnone]
    rfl
  · have hseq : (s.begun c.au).seqNum = s.seqNum := by unfold Sender.begun; split <;> rfl
    dsimp only
    rw [hseq]
    generalize Params.mk _ _ _ = p
    have hends := (packetizeAu_clear c.link p c.garbage s.seqNum c.au h.1).2
    generalize packetizeAu c.link p c.garbage s.seqNum c.au = out at hends
    rcases hends with ⟨hdone, hhanded⟩ | ⟨_, hfailed, sent, hsent, hhanded⟩
    · refine ⟨h, rfl, p, emit [] c.au.nals, List.prefix_refl _, ?_, fun _ => rfl⟩
      change (if out.1.isNone = true then out.2.handed.dropLast else out.2.handed) = _
      rw [hdone, ← hhanded]
      rfl
    · refine ⟨h, rfl, p, sent.dropLast, (List.dropLast_prefix sent).trans hsent, ?_, fun hkept => ?_⟩
      · change (if out.1.isNone = true then out.2.handed.dropLast else out.2.handed) = _
        rw [hfailed, hhanded]
        exact numbered_dropLast p s.seqNum sent
      · change out.1.isNone = false at hkept
        rw [hfailed] at hkept
        cases hkept

theorem sendAu_advances (s : Sender) (c : Call) (h : Sendable c.au) :
    (sendAu s c).2.1.seqNum = s.seqNum + UInt16.ofNat (emitted c.au) ∧ (sendAu s c).2.2.au = c.au := by
  unfold sendAu
  split
  next hempty =>
    have hnone : c.au.nals = [] := by simpa using hempty
    have hzero : emitted c.au = 0 := by
      rw [emitted, emitted_eq h.1, hnone]
      rfl
    rw [hzero]
    exact ⟨by simp, rfl⟩
  · have hseq : (s.begun c.au).seqNum = s.seqNum := by unfold Sender.begun; split <;> rfl
    have hcount : UInt16.ofNat (countPackets c.au) = UInt16.ofNat (emitted c.au) := by
      rw [countPackets_eq c.au h.2, emitted, emitted_eq h.1]
      apply UInt16.toNat_inj.mp
      simp only [UInt16.toNat_ofNat']
      omega
    dsimp only
    rw [hseq, hcount]
    exact ⟨rfl, rfl⟩

end Sending

section Streams

variable {first : UInt16} {log : List Sent}

def Chained (first : UInt16) (log : List Sent) : Prop :=
  ∀ before sent after, log = before ++ sent :: after → Numbered (first + UInt16.ofNat (total before)) sent

theorem total_append (first second : List Sent) : total (first ++ second) = total first + total second := by
  simp [total]

theorem chained_append {sent : Sent} (h : Chained first log) (hsent : Numbered (first + UInt16.ofNat (total log)) sent) :
    Chained first (log ++ [sent]) := by
  intro before sent' after hsplit
  rcases List.eq_nil_or_concat' after with rfl | ⟨after', last, rfl⟩
  · obtain ⟨rfl, hlast⟩ := List.append_inj' hsplit rfl
    cases hlast
    exact hsent
  · have : log ++ [sent] = (before ++ sent' :: after') ++ [last] := by rw [hsplit]; simp
    exact h before sent' after' (List.append_inj_left' this rfl)

theorem step_chained {w : World} {c : Call} (h : Chained first w.log)
    (hseq : w.sender.seqNum = first + UInt16.ofNat (total w.log)) (hc : Sendable c.au) :
    Chained first (step w c).log ∧ (step w c).sender.seqNum = first + UInt16.ofNat (total (step w c).log) := by
  obtain ⟨hadvance, hau⟩ := sendAu_advances w.sender c hc
  refine ⟨chained_append h (hseq ▸ sendAu_numbered w.sender c hc), ?_⟩
  change (sendAu w.sender c).2.1.seqNum = first + UInt16.ofNat (total (w.log ++ [(sendAu w.sender c).2.2]))
  have hlast : total [(sendAu w.sender c).2.2] = emitted c.au := by simp [total, hau]
  rw [hadvance, hseq, total_append, hlast, UInt16.ofNat_add]
  ac_rfl

theorem run_chained (s : Sender) (calls : List Call) (h : ∀ c ∈ calls, Sendable c.au) :
    Chained s.seqNum (run step ⟨s, []⟩ calls).log := by
  have hrun : ∀ (calls : List Call) (w : World), (∀ c ∈ calls, Sendable c.au) → Chained s.seqNum w.log →
      w.sender.seqNum = s.seqNum + UInt16.ofNat (total w.log) → Chained s.seqNum (run step w calls).log := by
    intro calls
    induction calls with
    | nil => exact fun w _ hw _ => hw
    | cons c calls ih =>
        intro w hcalls hw hseq
        obtain ⟨hw', hseq'⟩ := step_chained hw hseq (hcalls c List.mem_cons_self)
        exact ih (step w c) (fun d hd => hcalls d (List.mem_cons_of_mem _ hd)) hw' hseq'
  refine hrun calls ⟨s, []⟩ h (fun before sent after hsplit => ?_) (by simp [total])
  exact absurd hsplit.symm (by simp)

theorem chained_mem (h : Chained first log) {sent : Sent} (hsent : sent ∈ log) : ∃ base, Numbered base sent := by
  obtain ⟨before, after, hsplit⟩ := List.append_of_mem hsent
  exact ⟨_, h before sent after hsplit⟩

theorem Numbered.size {sent : Sent} (h : Numbered first sent) : sent.wire.length ≤ emitted sent.au ∧
    (sent.dropped = false → sent.wire.length = emitted sent.au) := by
  obtain ⟨p, plan, hplan, hwire, hwhole⟩ := h.wire
  rw [emitted, emitted_eq h.sendable.1, hwire, length_numbered]
  exact ⟨hplan.length_le, fun hkept => by rw [hwhole hkept]⟩

theorem Numbered.sequences {sent : Sent} (h : Numbered first sent) :
    sent.wire.map sequenceOf = (consecutive first sent.wire.length).map some := by
  obtain ⟨p, plan, _, hwire, _⟩ := h.wire
  rw [hwire, length_numbered]
  exact sequences_numbered p first plan

theorem at_sequence (h : Chained first log) {i : Nat} {packet : Packet} (hat : At log i packet) :
    sequenceOf packet = some (first + UInt16.ofNat i) := by
  obtain ⟨before, sent, after, j, hsplit, hpacket, rfl⟩ := hat
  have hsequences := (h before sent after hsplit).sequences
  have hj : j < sent.wire.length := (List.getElem?_eq_some_iff.mp hpacket).1
  have hget := congrArg (fun l => l[j]?) hsequences
  simp only [List.getElem?_map, hpacket, consecutive_get _ _ j hj, Option.map_some] at hget
  rw [Option.some.inj hget, UInt16.ofNat_add]
  congr 1
  ac_rfl

theorem locate (log : List Sent) {i : Nat} (h : i < total log) :
    ∃ before sent after, log = before ++ sent :: after ∧ total before ≤ i ∧ i < total before + emitted sent.au := by
  induction log generalizing i with
  | nil => simp [total] at h
  | cons sent rest ih =>
      have htotal : total (sent :: rest) = emitted sent.au + total rest := by simp [total]
      by_cases hi : i < emitted sent.au
      · exact ⟨[], sent, rest, rfl, by simp [total], by simpa [total] using hi⟩
      · obtain ⟨before, sent', after, rfl, hfrom, hto⟩ := ih (i := i - emitted sent.au) (by omega)
        have hbefore : total (sent :: before) = emitted sent.au + total before := by simp [total]
        exact ⟨sent :: before, sent', after, rfl, by omega, by omega⟩

end Streams

/-- Over every run of calls with sendable access units, the sequence numbers form one stream. -/
theorem one_stream (s : Sender) (calls : List Call) (h : ∀ c ∈ calls, Sendable c.au) :
    OneStream s.seqNum (run step ⟨s, []⟩ calls).log := by
  have hchained := run_chained s calls h
  generalize (run step ⟨s, []⟩ calls).log = log at hchained
  refine ⟨?_, ?_, ?_, ?_, ?_, ?_⟩
  · intro sent hsent
    obtain ⟨base, hnumbered⟩ := chained_mem hchained hsent
    have hclear := hnumbered.sendable.1
    refine ⟨?_, fun p garbage base => ?_⟩
    · rw [countPackets_eq sent.au hnumbered.sendable.2, emitted, emitted_eq hclear]
    · rw [emitted, emitted_eq hclear, emitted_eq hclear]
      exact ⟨(packetizeAu_accepted p garbage base sent.au hclear).1, rfl⟩
  · exact fun before sent after hsplit => (hchained before sent after hsplit).base
  · intro sent hsent
    obtain ⟨base, hnumbered⟩ := chained_mem hchained hsent
    rw [hnumbered.base]
    exact hnumbered.sequences
  · intro sent hsent
    obtain ⟨base, hnumbered⟩ := chained_mem hchained hsent
    exact hnumbered.size
  · intro i j a b ha hb hij hsame
    rw [at_sequence hchained ha, at_sequence hchained hb] at hsame
    have := congrArg UInt16.toNat (Option.some.inj hsame)
    simp only [UInt16.toNat_add, UInt16.toNat_ofNat'] at this
    omega
  · intro i hi
    obtain ⟨before, sent, after, hsplit, hfrom, hto⟩ := locate log hi
    obtain ⟨hwithin, hwhole⟩ := (hchained before sent after hsplit).size
    by_cases hj : i - total before < sent.wire.length
    · exact .inl ⟨sent.wire[i - total before], before, sent, after, _, hsplit, List.getElem?_eq_getElem hj, by omega⟩
    · refine .inr ⟨before, sent, after, hsplit, ?_, hfrom, hto⟩
      by_contra hkept
      have := hwhole (by simpa using hkept)
      omega

def sampleSender : Sender := ⟨7, 65535, 96, 0, 0, false, 0⟩

def smallUnit : NalDesc where
  data := some [0x65, 1, 2]
  length := 3
  fits := by decide
  backed bytes h := by
    cases h
    rfl

def nullUnit : NalDesc where
  data := none
  length := 1300
  fits := by decide
  backed bytes h := nomatch h

def sampleCall (nal : NalDesc) (link : List Packet → Bool) : Call := ⟨⟨[nal], 0⟩, link, Vector.replicate 1212 0⟩

theorem smallUnit_sendable : Sendable ⟨[smallUnit], 0⟩ := by
  have hcarried : carried smallUnit = some [0x65, 1, 2] := rfl
  refine ⟨?_, fun nal hnal hnull => ?_⟩
  · rw [clear_cons hcarried, if_pos (by decide), if_pos (by decide)]
    exact ⟨by decide, trivial⟩
  · rw [List.mem_singleton.mp hnal] at hnull
    cases hnull

theorem one_stream_sample : OneStream 65535
    (run step ⟨sampleSender, []⟩ [sampleCall smallUnit (fun _ => false), sampleCall smallUnit accept]).log :=
  one_stream sampleSender _ (by
    intro c hc
    rcases List.mem_cons.mp hc with rfl | hc
    · exact smallUnit_sendable
    · rw [List.mem_singleton.mp hc]
      exact smallUnit_sendable)

theorem nullUnit_counted : ¬ ∀ (s : Sender) (calls : List Call), OneStream s.seqNum (run step ⟨s, []⟩ calls).log := by
  intro h
  have hcounted := ((h sampleSender [sampleCall nullUnit accept]).counted _ List.mem_cons_self).1
  have hclear : Clear 0 [nullUnit] := trivial
  have hemitted : emitted ⟨[nullUnit], 0⟩ = 0 := by
    rw [emitted, emitted_eq hclear]
    rfl
  have hau : (sendAu sampleSender (sampleCall nullUnit accept)).2.2.au = ⟨[nullUnit], 0⟩ := rfl
  change countPackets (sendAu sampleSender (sampleCall nullUnit accept)).2.2.au =
    emitted (sendAu sampleSender (sampleCall nullUnit accept)).2.2.au % 2 ^ 32 at hcounted
  rw [hau, hemitted] at hcounted
  revert hcounted
  decide

end EtranProcessing.Capture.RtpStream
