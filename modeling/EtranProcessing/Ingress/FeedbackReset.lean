import EtranProcessing.Ingress.FeedbackFraming

namespace EtranProcessing.Ingress.FeedbackReset

open State Feedback FeedbackFraming

def pending (c : IngressClient) : List UInt8 := c.txBuf.drop c.txOff

/-- What waits behind the cursor is the rest of one frame that the peer has
begun to read, or nothing. -/
def OnlyStarted (c : IngressClient) : Prop :=
  pending c = [] ∨ ∃ done payload k, (∀ p ∈ payload :: done, p.length ≤ maxRtpPayloadSize) ∧
    0 < k ∧ k < (frame payload).length ∧
      c.sent = frames done ++ (frame payload).take k ∧ pending c = (frame payload).drop k

/-- The first frame of a later turn has been announced to send, which refused
it: the wire still ends between two frames. -/
def AnnouncedOnly (c : IngressClient) : Prop := c.txOff ≠ 0 ∧ c.txFirstEnd ≠ 0 ∧ Framed c.sent

theorem frame_cut_length {p q : List UInt8} {x y : List UInt8} {k : Nat} (hp : p.length ≤ maxRtpPayloadSize)
    (hq : q.length ≤ maxRtpPayloadSize) (hk : 4 ≤ k) (h : (frame p).take k ++ x = frame q ++ y) :
    p.length = q.length := by
  obtain ⟨k, rfl⟩ := Nat.exists_eq_add_of_le hk
  have hhead : UInt8.ofNat (p.length / 256) = UInt8.ofNat (q.length / 256) ∧
      UInt8.ofNat p.length = UInt8.ofNat q.length := by
    rw [Nat.add_comm 4 k] at h
    simp only [frame, List.take_succ_cons, List.cons_append, List.cons.injEq, true_and] at h
    exact ⟨h.1, h.2.1⟩
  calc p.length = be16 (UInt8.ofNat (p.length / 256)) (UInt8.ofNat p.length) := (be16_frame p hp).symm
    _ = be16 (UInt8.ofNat (q.length / 256)) (UInt8.ofNat q.length) := by rw [hhead.1, hhead.2]
    _ = q.length := be16_frame q hq

theorem started_not_framed {done : List (List UInt8)} {p : List UInt8} {k : Nat}
    (hsmall : ∀ x ∈ p :: done, x.length ≤ maxRtpPayloadSize) (hpos : 0 < k) (hk : k < (frame p).length) :
    ¬ Framed (frames done ++ (frame p).take k) := by
  intro hframed
  obtain ⟨queue, hqueue, heq⟩ := hframed
  have hp := hsmall p List.mem_cons_self
  induction done generalizing queue with
  | nil =>
      have hlen := congrArg List.length heq
      simp only [frames_nil, List.nil_append, List.length_take] at hlen
      cases queue with
      | nil => rw [frames_nil, List.length_nil] at hlen; omega
      | cons q rest =>
          simp only [frames_cons, List.length_append, frame_length] at hlen
          have hsame : p.length = q.length := by
            apply frame_cut_length hp (hqueue q List.mem_cons_self) (k := k) (x := []) (y := frames rest)
            · omega
            · simpa using heq
          rw [frame_length] at hk
          omega
  | cons d done ih =>
      have hd := hsmall d (by simp)
      cases queue with
      | nil => simp [frame] at heq
      | cons q rest =>
          have hsplit : frame d ++ (frames done ++ (frame p).take k) = frame q ++ frames rest := by
            simpa using heq
          have hlen : d.length = q.length := by
            apply frame_cut_length hd (hqueue q List.mem_cons_self) (k := (frame d).length)
            · rw [frame_length]; omega
            · rw [List.take_length]; exact hsplit
          have hrest := (List.append_inj hsplit (by rw [frame_length, frame_length, hlen])).2
          apply ih _ rest _ hrest
          · intro x hx
            apply hsmall
            simp only [List.mem_cons] at hx ⊢
            tauto
          · intro x hx
            exact hqueue x (List.mem_cons_of_mem q hx)

variable {c : IngressClient}

theorem OnlyStarted.not_framed (h : OnlyStarted c) (hpending : pending c ≠ []) :
    ¬ Framed c.sent := by
  obtain hnone | ⟨done, payload, k, hsmall, hpos, hk, hsent, -⟩ := h
  · exact absurd hnone hpending
  · rw [hsent]
    exact started_not_framed hsmall hpos hk

theorem reset_sent (c : IngressClient) : (resetFeedback c).sent = c.sent := by
  simp only [resetFeedback]
  split <;> rfl

theorem reset_cleared (h : ¬ (c.txOff ≠ 0 ∧ c.txOff < c.txFirstEnd)) :
    pending (resetFeedback c) = [] := by
  simp only [resetFeedback, if_neg h, pending, List.drop_nil]

theorem reset_kept {done queue : List (List UInt8)} {front p : List UInt8} {k : Nat}
    (h : Cursor c done (p :: queue) front k) (hend : c.txFirstEnd = front.length + (frame p).length)
    (hoff : c.txOff ≠ 0) (hk : k < (frame p).length) : pending (resetFeedback c) = (frame p).drop k := by
  have hcut : c.txOff ≠ 0 ∧ c.txOff < c.txFirstEnd := ⟨hoff, by rw [h.offset, hend]; omega⟩
  simp only [resetFeedback, if_pos hcut, pending]
  rw [h.offset, h.buffer, hend, List.take_length_add_append, frames_cons, List.take_left,
    ← List.drop_drop, List.drop_left]

theorem reset_started_iff (h : Queued c) :
    OnlyStarted (resetFeedback c) ↔ ¬ AnnouncedOnly c := by
  obtain ⟨done, queue, front, k, h⟩ := h
  by_cases hcut : c.txOff ≠ 0 ∧ c.txOff < c.txFirstEnd
  · obtain ⟨hz, -⟩ | ⟨p, q, rfl, hk, hend⟩ := h.first
    · omega
    have hkept := reset_kept h hend hcut.1 hk
    have hwire : c.sent = frames done ++ (frame p).take k := by
      rw [h.wire, frames_cons, List.take_append_of_le_length (Nat.le_of_lt hk)]
    have hsmall : ∀ x ∈ p :: done, x.length ≤ maxRtpPayloadSize := by
      intro x hx
      apply h.small
      simp only [List.mem_append, List.mem_cons] at hx ⊢
      tauto
    have hleft : pending (resetFeedback c) ≠ [] := by
      rw [hkept]
      intro hnil
      have := List.drop_eq_nil_iff.mp hnil
      omega
    constructor
    · intro hstarted hannounced
      apply hstarted.not_framed hleft
      rw [reset_sent]
      exact hannounced.2.2
    · intro hnot
      refine .inr ⟨done, p, k, hsmall, ?_, hk, (reset_sent c).trans hwire, hkept⟩
      apply Nat.pos_of_ne_zero
      intro hzero
      apply hnot
      refine ⟨hcut.1, by omega, done, ?_, ?_⟩
      · intro x hx
        exact hsmall x (List.mem_cons_of_mem p hx)
      · simp [hwire, hzero]
  · constructor
    · intro _ hannounced
      apply hcut
      refine ⟨hannounced.1, ?_⟩
      obtain ⟨hz, -⟩ | ⟨p, q, -, hk, hend⟩ := h.first
      · exact absurd hz hannounced.2.1
      · rw [h.offset, hend]; omega
    · intro _
      exact .inl (reset_cleared hcut)

/-- A route change or a stop leaves nothing but the tail of a started frame,
unless it falls between the announcement of a frame and its first byte. -/
theorem reset_keeps_started (epoch : Nat) (ops : List FeedbackOp) :
    let c := ops.foldl feedbackStep { epoch := epoch }
    OnlyStarted (resetFeedback c) ↔ ¬ AnnouncedOnly c := by
  apply reset_started_iff
  apply feedbackRun_queued
  exact ⟨[], [], [], 0, rfl, rfl, rfl, by simp, Nat.zero_le _, .inl ⟨rfl, rfl⟩⟩

def receiverReport : List UInt8 := [128, 201, 0, 1, 0, 0, 0, 1]

/-- Two reports are queued at once; the first one is sent whole and the socket
is full before the second. -/
def blockedRun : List FeedbackOp :=
  [.receive [.packet receiverReport 1, .packet receiverReport 1] [.wrote 12, .wouldBlock]]

theorem unsent_frame_survives :
    let c := blockedRun.foldl feedbackStep { epoch := 1 }
    pending (resetFeedback c) = frame receiverReport ∧ c.sent = frame receiverReport ∧
      ¬ OnlyStarted (resetFeedback c) := by
  have hsent : (blockedRun.foldl feedbackStep { epoch := 1 }).sent = frame receiverReport := by decide +kernel
  have hpending : pending (resetFeedback (blockedRun.foldl feedbackStep { epoch := 1 })) =
      frame receiverReport := by decide +kernel
  refine ⟨hpending, hsent, ?_⟩
  intro hstarted
  apply hstarted.not_framed
  · rw [hpending]
    exact List.cons_ne_nil _ _
  · rw [reset_sent, hsent]
    exact ⟨[receiverReport], by decide, by simp⟩

end EtranProcessing.Ingress.FeedbackReset
