import EtranProcessing.Ingress.Feedback

namespace EtranProcessing.Ingress.FeedbackFraming

open State Feedback

def frames (payloads : List (List UInt8)) : List UInt8 := payloads.flatMap frame

def Framed (stream : List UInt8) : Prop :=
  ∃ payloads : List (List UInt8), (∀ p ∈ payloads, p.length ≤ maxRtpPayloadSize) ∧ stream = frames payloads

/-- The write queue seen as frames: some are on the wire, the buffer holds the
rest after a prefix that is spent, and k bytes of its first frame are sent. -/
structure Cursor (c : IngressClient) (done queue : List (List UInt8)) (front : List UInt8) (k : Nat) : Prop where
  buffer : c.txBuf = front ++ frames queue
  offset : c.txOff = front.length + k
  wire : c.sent = frames done ++ (frames queue).take k
  small : ∀ p ∈ done ++ queue, p.length ≤ maxRtpPayloadSize
  room : c.txBuf.length ≤ feedbackQueueSize
  first : (c.txFirstEnd = 0 ∧ k = 0) ∨
    ∃ p q, queue = p :: q ∧ k < (frame p).length ∧ c.txFirstEnd = front.length + (frame p).length

def Queued (c : IngressClient) : Prop := ∃ done queue front k, Cursor c done queue front k

@[simp] theorem frames_nil : frames [] = [] := rfl

@[simp] theorem frames_cons (p : List UInt8) (q : List (List UInt8)) : frames (p :: q) = frame p ++ frames q := rfl

@[simp] theorem frames_append (p q : List (List UInt8)) : frames (p ++ q) = frames p ++ frames q :=
  List.flatMap_append

theorem frame_length (p : List UInt8) : (frame p).length = p.length + 4 := rfl

theorem be16_frame (p : List UInt8) (hp : p.length ≤ maxRtpPayloadSize) :
    be16 (UInt8.ofNat (p.length / 256)) (UInt8.ofNat p.length) = p.length := by
  simp only [be16, UInt8.toNat_ofNat', maxRtpPayloadSize] at hp ⊢
  omega

variable {c : IngressClient} {done queue : List (List UInt8)} {front : List UInt8} {k : Nat}

theorem Cursor.offset_le
    (h : Cursor c done queue front k) : k ≤ (frames queue).length := by
  obtain ⟨_, rfl⟩ | ⟨p, q, rfl, hk, _⟩ := h.first
  · exact Nat.zero_le _
  · simp only [frames_cons, List.length_append]
    omega

theorem Cursor.stream
    (h : Cursor c done queue front k) : c.sent ++ c.txBuf.drop c.txOff = frames (done ++ queue) := by
  rw [h.wire, h.buffer, h.offset, List.drop_append, List.drop_of_length_le (by omega)]
  simp

theorem reset_queued (h : Queued c) : Queued (resetFeedback c) := by
  obtain ⟨done, queue, front, k, h⟩ := h
  simp only [resetFeedback]
  split
  next hmid =>
    -- a frame is under way: the queue is cut behind it
    obtain ⟨hz, _⟩ | ⟨p, q, rfl, hk, hend⟩ := h.first
    · omega
    · refine ⟨done, [p], front, k, ?_, h.offset, ?_, ?_, ?_, .inr ⟨p, [], rfl, hk, hend⟩⟩
      · simp only [h.buffer, hend, frames_cons, frames_nil, List.append_nil]
        rw [List.take_length_add_append, List.take_left']
        rfl
      · have htake : (frames (p :: q)).take k = (frames [p]).take k := by
          simp only [frames_cons, frames_nil, List.append_nil]
          exact List.take_append_of_le_length (Nat.le_of_lt hk)
        exact h.wire.trans (by rw [htake])
      · intro x hx
        apply h.small
        simp only [List.mem_append, List.mem_cons, List.not_mem_nil, or_false] at hx ⊢
        tauto
      · exact Nat.le_trans (List.length_take_le' _ _) h.room
  next hclean =>
    have hk : k = 0 := by
      obtain ⟨_, hk⟩ | ⟨p, q, rfl, hk, hend⟩ := h.first
      · exact hk
      · have := h.offset
        omega
    subst hk
    refine ⟨done, [], [], 0, rfl, rfl, ?_, ?_, Nat.zero_le _, .inl ⟨rfl, rfl⟩⟩
    · simpa using h.wire
    · intro p hp
      exact h.small p (by simp at hp; simp [hp])

theorem Cursor.startFrame
    (h : Cursor c done queue front k) (hpending : c.txOff < c.txBuf.length) :
    Cursor (startFrame c) done queue front k ∧ (startFrame c).txFirstEnd ≠ 0 := by
  simp only [Feedback.startFrame]
  split
  next hz =>
    have hk : k = 0 := by
      obtain ⟨_, hk⟩ | ⟨p, q, rfl, _, hend⟩ := h.first
      · exact hk
      · rw [frame_length] at hend
        omega
    subst hk
    have hoff : c.txOff = front.length := h.offset
    cases queue with
    | nil => simp [h.buffer, hoff] at hpending
    | cons p q =>
        have hp := h.small p (by simp)
        have hget (j : Nat) : c.txBuf.getD (c.txOff + j) 0 = (frame p ++ frames q).getD j 0 := by
          rw [h.buffer, hoff, List.getD_eq_getElem?_getD, List.getD_eq_getElem?_getD,
            List.getElem?_append_right (by omega), Nat.add_sub_cancel_left, frames_cons]
        have hlen : be16 (c.txBuf.getD (c.txOff + 2) 0) (c.txBuf.getD (c.txOff + 3) 0) = p.length := by
          rw [hget, hget]
          exact be16_frame p hp
        refine ⟨⟨h.buffer, h.offset, h.wire, h.small, h.room, .inr ⟨p, q, rfl, ?_, ?_⟩⟩, ?_⟩
        · rw [frame_length]; omega
        · simp only [hlen, frame_length]; omega
        · simp only [ne_eq]; omega
  next hz => exact ⟨h, hz⟩

theorem sendBytes_queued {k n : Nat}
    (h : Cursor c done queue front k) (hopen : c.txFirstEnd ≠ 0) (hn : n ≤ c.txFirstEnd - c.txOff) :
    Queued (sendBytes c n) := by
  obtain ⟨hz, _⟩ | ⟨p, q, rfl, hk, hend⟩ := h.first
  · exact absurd hz hopen
  have hoff := h.offset
  have hwire : (sendBytes c n).sent = frames done ++ (frames (p :: q)).take (k + n) := by
    simp only [sendBytes, h.wire, h.buffer, hoff, List.append_assoc, List.append_cancel_left_eq]
    rw [List.drop_append, List.drop_of_length_le (by omega), List.nil_append,
      Nat.add_sub_cancel_left, List.take_add]
  by_cases hlast : c.txOff + n = c.txFirstEnd
  · have hkn : k + n = (frame p).length := by omega
    refine ⟨done ++ [p], q, front ++ frame p, 0, ?_, ?_, ?_, ?_, h.room, .inl ⟨by simp [sendBytes, hlast], rfl⟩⟩
    · simpa [sendBytes] using h.buffer
    · simp only [sendBytes, List.length_append]; omega
    · rw [hwire, hkn]
      simp
    · intro x hx
      exact h.small x (by simpa [or_assoc] using hx)
  · refine ⟨done, p :: q, front, k + n, h.buffer, ?_, hwire, h.small, h.room, .inr ⟨p, q, rfl, by omega, ?_⟩⟩
    · simp only [sendBytes]; omega
    · simpa only [sendBytes, if_neg hlast] using hend

theorem flushLoop_queued (sends : List SendOutcome) (h : Queued c) :
    Queued (flushLoop sends c).2 := by
  induction sends generalizing c with
  | nil =>
      obtain ⟨done, queue, front, k, h⟩ := h
      simp only [flushLoop]
      split
      next hp => exact ⟨done, queue, front, k, (h.startFrame hp).1⟩
      next => exact ⟨done, queue, front, k, h⟩
  | cons outcome rest ih =>
      obtain ⟨done, queue, front, k, h⟩ := h
      simp only [flushLoop]
      split
      next hp =>
        obtain ⟨hs, hopen⟩ := h.startFrame hp
        cases outcome with
        | wouldBlock | failed => exact ⟨done, queue, front, k, hs⟩
        | interrupted => exact ih ⟨done, queue, front, k, hs⟩
        | wrote n =>
            dsimp only
            split
            · exact ⟨done, queue, front, k, hs⟩
            · exact ih (sendBytes_queued hs hopen (Nat.min_le_right _ _))
      next => exact ⟨done, queue, front, k, h⟩

theorem flushQueue_queued (sends : List SendOutcome) (h : Queued c) :
    Queued (flushQueue c sends).2 := by
  have hloop := flushLoop_queued sends h
  simp only [flushQueue]
  split
  next c' heq => rwa [heq] at hloop
  next c' heq =>
    have hloop : Queued c' := by simpa only [heq] using hloop
    split
    next hempty =>
      obtain ⟨done, queue, front, k, h⟩ := hloop
      have hlen : (frames queue).length = k := by
        have := h.offset
        rw [h.buffer, List.length_append] at hempty
        omega
      -- the whole buffer is sent, so no frame is left in the middle
      have hk : k = 0 := by
        obtain ⟨_, hk⟩ | ⟨p, q, rfl, hk, _⟩ := h.first
        · exact hk
        · simp only [frames_cons, List.length_append] at hlen
          omega
      subst hk
      refine ⟨done, [], [], 0, rfl, rfl, by simpa using h.wire, ?_, Nat.zero_le _, .inl ⟨rfl, rfl⟩⟩
      intro p hp
      exact h.small p (by simp at hp; simp [hp])
    next => exact hloop

theorem coalesceLoop_frame (fuel : Nat) (c : IngressClient) (rest : List UInt8) (nowMs : Nat) :
    let r := coalesceLoop fuel c rest nowMs
    r.1.txBuf = c.txBuf ∧ r.1.txOff = c.txOff ∧ r.1.txFirstEnd = c.txFirstEnd ∧ r.1.sent = c.sent ∧
      r.2.length ≤ rest.length := by
  induction fuel generalizing c rest with
  | zero => exact ⟨rfl, rfl, rfl, rfl, Nat.zero_le _⟩
  | succ fuel ih =>
      simp only [coalesceLoop]
      split
      · exact ⟨rfl, rfl, rfl, rfl, Nat.zero_le _⟩
      split
      · obtain ⟨h₁, h₂, h₃, h₄, h₅⟩ := ih { c with feedbackDropped := c.feedbackDropped + 1 }
          (rest.drop ((be16 (rest.getD 2 0) (rest.getD 3 0) + 1) * 4))
        refine ⟨h₁, h₂, h₃, h₄, Nat.le_trans h₅ ?_⟩
        simp only [List.length_drop]; omega
      · split
        all_goals
          obtain ⟨h₁, h₂, h₃, h₄, h₅⟩ := ih _ (rest.drop ((be16 (rest.getD 2 0) (rest.getD 3 0) + 1) * 4))
          refine ⟨h₁, h₂, h₃, h₄, ?_⟩
          simp only [List.length_append, List.length_take, List.length_drop] at h₅ ⊢
          omega

theorem coalesceFeedback_frame (c : IngressClient) (packet : List UInt8) (nowMs : Nat) :
    let r := coalesceFeedback c packet nowMs
    r.1.txBuf = c.txBuf ∧ r.1.txOff = c.txOff ∧ r.1.txFirstEnd = c.txFirstEnd ∧ r.1.sent = c.sent ∧
      r.2.length ≤ packet.length := by
  simp only [coalesceFeedback]
  split
  · exact ⟨rfl, rfl, rfl, rfl, le_rfl⟩
  · exact coalesceLoop_frame packet.length c packet nowMs

theorem Cursor.congr {c c' : IngressClient}
    (h : Cursor c done queue front k) (hb : c'.txBuf = c.txBuf) (ho : c'.txOff = c.txOff)
    (hf : c'.txFirstEnd = c.txFirstEnd) (hs : c'.sent = c.sent) : Cursor c' done queue front k :=
  ⟨hb.trans h.buffer, ho.trans h.offset, hs.trans h.wire, h.small, hb ▸ h.room, hf ▸ h.first⟩

theorem queueDatagram_queued (data : List UInt8) (nowMs : Nat) (h : Queued c) :
    Queued (queueDatagram c data nowMs) := by
  obtain ⟨done, queue, front, k, h⟩ := h
  simp only [queueDatagram]
  split
  · exact ⟨done, queue, front, k, h⟩
  next hvalid =>
    split
    · exact ⟨done, queue, front, k, h.congr rfl rfl rfl rfl⟩
    next hroom =>
      obtain ⟨hb, ho, hf, hs, hlen⟩ := coalesceFeedback_frame c data nowMs
      cases hr : coalesceFeedback c data nowMs with
      | mk c' out =>
          simp only [hr] at hb ho hf hs hlen
          have h' := h.congr hb ho hf hs
          dsimp only
          split
          · exact ⟨done, queue, front, k, h'⟩
          · refine ⟨done, queue ++ [out], front, k, ?_, h'.offset, ?_, ?_, ?_, ?_⟩
            · simp [h'.buffer]
            · rw [frames_append, List.take_append_of_le_length h'.offset_le]
              exact h'.wire
            · intro p hp
              simp only [List.mem_append, List.mem_cons, List.not_mem_nil, or_false] at hp
              rcases hp with hp | hp | rfl
              · exact h.small p (by simp [hp])
              · exact h.small p (by simp [hp])
              · omega
            · simp only [List.length_append, frame_length, hb]
              have := h.room
              omega
            · obtain hz | ⟨p, q, rfl, hk, hend⟩ := h'.first
              · exact .inl hz
              · exact .inr ⟨p, q ++ [out], rfl, hk, hend⟩

theorem queueBatch_queued (limit : Nat) (reads : List RecvOutcome) (h : Queued c) :
    Queued (queueBatch limit c reads) := by
  induction reads generalizing limit c with
  | nil => cases limit <;> exact h
  | cons read reads ih =>
      cases limit with
      | zero => exact h
      | succ limit =>
          cases read with
          | packet data nowMs => exact ih limit (queueDatagram_queued data nowMs h)
          | oversized => exact ih limit h
          | interrupted => exact ih (limit + 1) h
          | stopped => exact h

inductive FeedbackOp
  | receive (reads : List RecvOutcome) (sends : List SendOutcome)
  | flush (sends : List SendOutcome)
  | reset

def feedbackStep (c : IngressClient) : FeedbackOp → IngressClient
  | .receive reads sends => (flushQueue (queueBatch feedbackBatchLimit c reads) sends).2
  | .flush sends => (flushQueue c sends).2
  | .reset => resetFeedback c

theorem feedbackStep_queued (h : Queued c) (op : FeedbackOp) : Queued (feedbackStep c op) := by
  cases op with
  | receive reads sends => exact flushQueue_queued sends (queueBatch_queued _ reads h)
  | flush sends => exact flushQueue_queued sends h
  | reset => exact reset_queued h

theorem feedbackRun_queued (ops : List FeedbackOp) (h : Queued c) :
    Queued (ops.foldl feedbackStep c) :=
  List.foldlRecOn ops _ h fun _ h op _ => feedbackStep_queued h op

/-- The frame that a nonzero tx_first_end points behind: it starts at or before
tx_off and the cursor has not left it. -/
def EndsFrame (c : IngressClient) : Prop :=
  ∃ start payload, start ≤ c.txOff ∧ c.txOff < c.txFirstEnd ∧ c.txFirstEnd = start + (frame payload).length ∧
    (c.txBuf.drop start).take (frame payload).length = frame payload

theorem Cursor.endsFrame
    (h : Cursor c done queue front k) : c.txFirstEnd = 0 ∨ EndsFrame c := by
  obtain ⟨hz, _⟩ | ⟨p, q, rfl, hk, hend⟩ := h.first
  · exact .inl hz
  · have hoff := h.offset
    refine .inr ⟨front.length, p, by omega, by omega, hend, ?_⟩
    rw [h.buffer, List.drop_left, frames_cons, List.take_left]

/-- Whatever a connection receives from Janus, however its writes are cut and
whenever its route changes, the peer reads complete feedback frames. -/
theorem feedback_stream_framed (epoch : Nat) (ops : List FeedbackOp) :
    let c := ops.foldl feedbackStep { epoch := epoch }
    Framed (c.sent ++ c.txBuf.drop c.txOff) ∧ c.txOff ≤ c.txBuf.length ∧
      c.txBuf.length ≤ feedbackQueueSize ∧ (c.txFirstEnd = 0 ∨ EndsFrame c) := by
  have hinit : Queued { epoch := epoch } :=
    ⟨[], [], [], 0, rfl, rfl, rfl, by simp, Nat.zero_le _, .inl ⟨rfl, rfl⟩⟩
  obtain ⟨done, queue, front, k, h⟩ := feedbackRun_queued ops hinit
  refine ⟨⟨done ++ queue, h.small, h.stream⟩, ?_, h.room, h.endsFrame⟩
  have := h.offset_le
  rw [h.offset, h.buffer, List.length_append]
  omega

end EtranProcessing.Ingress.FeedbackFraming
