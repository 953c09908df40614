import EtranProcessing.Desk.JsonMin
import EtranProcessing.Library.Runs

namespace EtranProcessing.Desk.InputQueue

open CaptureAdapter JsonMin Library.Runs

structure InputTask where
  payload : CString
  payloadLen : Nat
  deriving DecidableEq

def taskSize : Nat := 4096
def queueDepth : Nat := 2

theorem type_holds : 0 < 64 := by decide

def isInputCmd (payload : CString) : Bool :=
  ["mouse_click", "shortcut_action", "key_event"].any fun word => (extractStr payload "type" 64 type_holds).val = text word

def expiresAtMs (payload : CString) : Int := (extractInt64 payload "expires_at_ms").getD 0

def expired (payload : CString) (nowMs : Int) : Bool := 0 < expiresAtMs payload && expiresAtMs payload ≤ nowMs

def InputTask.copy (payload : CString) (payloadLen : Nat) : InputTask where
  payload := ⟨payload.val.take (taskSize - 1), fun h => payload.property (List.mem_of_mem_take h)⟩
  payloadLen := if payloadLen < taskSize then payloadLen else taskSize - 1

/-- Where the MQTT thread is; between the append and the signal it holds the lock. -/
inductive Enqueuer
  | outside
  | appended
  deriving DecidableEq

inductive Phase
  | waiting
  | woken
  | executing (task : InputTask)
  deriving DecidableEq

/-- The queue with its event, where the two threads are, and what has been queued, taken and executed so far. -/
structure InputWorker where
  queue : List InputTask
  event : Bool
  mqtt : Enqueuer
  phase : Phase
  queued : List InputTask
  taken : List InputTask
  executed : List InputTask
  deriving DecidableEq

def start : InputWorker := ⟨[], false, .outside, .waiting, [], [], []⟩

inductive Event
  | enqueue (payload : CString) (payloadLen : Nat) (nowMs : Int)
  | setEvent
  /-- The wait of 200 ms ends with the event, which is reset, or without it. -/
  | wake
  | take
  | execute (nowMs : Int)

/-- A command that has expired, or that finds the queue full, is not accepted. -/
def InputWorker.enqueue (w : InputWorker) (payload : CString) (payloadLen : Nat) (nowMs : Int) : InputWorker :=
  if isInputCmd payload = false ∨ expired payload nowMs ∨ queueDepth ≤ w.queue.length then w
  else
    { w with
      queue := w.queue ++ [.copy payload payloadLen]
      queued := w.queued ++ [.copy payload payloadLen]
      mqtt := .appended }

def InputWorker.take (w : InputWorker) : InputWorker :=
  match w.queue with
  | [] => { w with phase := .waiting }
  | task :: queue => { w with queue := queue, taken := w.taken ++ [task], phase := .executing task }

/-- What a thread cannot do where it is changes nothing. -/
def step (w : InputWorker) : Event → InputWorker
  | .enqueue payload payloadLen nowMs => if w.mqtt = .outside then w.enqueue payload payloadLen nowMs else w
  | .setEvent => if w.mqtt = .appended then { w with event := true, mqtt := .outside } else w
  | .wake => if w.phase = .waiting ∧ w.event = true then { w with event := false, phase := .woken } else w
  | .take => if w.phase = .woken ∧ w.mqtt = .outside then w.take else w
  | .execute nowMs =>
      match w.phase with
      | .executing task =>
          { w with
            executed := if expired task.payload nowMs then w.executed else w.executed ++ [task]
            phase := .waiting }
      | _ => w

def InOrder (w : InputWorker) : Prop := w.executed.Sublist w.queued

def NoneStranded (w : InputWorker) : Prop := w.mqtt = .outside → w.phase = .waiting → w.event = false → w.queue = []

def Heard (w : InputWorker) : Event → Prop
  | .setEvent => w.mqtt = .appended → w.event = false
  | _ => True

/-! ### The order of the commands -/

def inHand : Phase → List InputTask
  | .executing task => [task]
  | _ => []

structure Ordered (w : InputWorker) : Prop where
  queue : w.queued = w.taken ++ w.queue
  executed : (w.executed ++ inHand w.phase).Sublist w.taken

theorem ordered_start : Ordered start := ⟨rfl, by simp [start, inHand]⟩

theorem ordered_step (w : InputWorker) (e : Event) (h : Ordered w) : Ordered (step w e) := by
  obtain ⟨hqueue, hexecuted⟩ := h
  cases e with
  | enqueue =>
      simp only [step, InputWorker.enqueue]
      split
      next =>
        split
        next => exact ⟨hqueue, hexecuted⟩
        next => exact ⟨by simp [hqueue], hexecuted⟩
      next => exact ⟨hqueue, hexecuted⟩
  | setEvent =>
      simp only [step]
      split <;> exact ⟨hqueue, hexecuted⟩
  | wake =>
      simp only [step]
      split
      next hwake =>
        rw [hwake.1] at hexecuted
        exact ⟨hqueue, hexecuted⟩
      next => exact ⟨hqueue, hexecuted⟩
  | take =>
      simp only [step, InputWorker.take]
      split
      next htake =>
        rw [htake.1] at hexecuted
        split
        next => exact ⟨hqueue, hexecuted⟩
        next task queue hsplit =>
          refine ⟨by rw [hqueue, hsplit]; simp, ?_⟩
          simpa [inHand] using hexecuted
      next => exact ⟨hqueue, hexecuted⟩
  | execute nowMs =>
      simp only [step]
      split
      next task hphase =>
        rw [hphase] at hexecuted
        refine ⟨hqueue, ?_⟩
        split
        next => simpa [inHand] using (List.sublist_append_left _ _).trans hexecuted
        next => simpa [inHand] using hexecuted
      next => exact ⟨hqueue, hexecuted⟩

theorem Ordered.inOrder {w : InputWorker} (h : Ordered w) : InOrder w := by
  rw [InOrder, h.queue]
  exact ((List.sublist_append_left _ _).trans h.executed).trans (List.sublist_append_left _ _)

/-! ### The signals -/

def signals (w : InputWorker) : Nat :=
  (if w.event then 1 else 0) + (if w.phase = .woken then 1 else 0) + (if w.mqtt = .appended then 1 else 0)

theorem signals_step (w : InputWorker) (e : Event) (hheard : Heard w e) (h : w.queue.length = signals w) :
    (step w e).queue.length = signals (step w e) := by
  cases e with
  | enqueue =>
      simp only [step, InputWorker.enqueue]
      split
      next houtside =>
        split
        next => exact h
        next => simp [signals, h, houtside]
      next => exact h
  | setEvent =>
      simp only [step]
      split
      next happended => simp [signals, h, happended, hheard happended, Nat.add_comm]
      next => exact h
  | wake =>
      simp only [step]
      split
      next hwake => simp [signals, h, hwake.1, hwake.2]
      next => exact h
  | take =>
      simp only [step, InputWorker.take]
      split
      next htake =>
        split
        next hempty => simp [signals, htake.1, htake.2, hempty] at h
        next task queue hsplit =>
          rw [hsplit] at h
          simpa [signals, htake.1, htake.2] using h
      next => exact h
  | execute nowMs =>
      simp only [step]
      split
      next task hphase => simpa [signals, hphase] using h
      next => exact h

theorem NoneStranded.of_signals {w : InputWorker} (h : w.queue.length = signals w) : NoneStranded w := by
  intro hmqtt hphase hevent
  refine List.eq_nil_of_length_eq_zero ?_
  rw [h, signals, hmqtt, hphase, hevent]
  rfl

theorem signals_run {events : List Event} {w : InputWorker} (h : Along step Heard w events)
    (hw : w.queue.length = signals w) : (run step w events).queue.length = signals (run step w events) := by
  induction events generalizing w with
  | nil => exact hw
  | cons e events ih => exact ih h.2 (signals_step w e h.1 hw)

/-- In every interleaving in which each signal finds the event reset, no accepted command is stranded. -/
theorem none_stranded (events : List Event) (h : Along step Heard start events) (n : Nat) :
    InOrder (run step start (events.take n)) ∧ NoneStranded (run step start (events.take n)) :=
  ⟨(run_kept ordered_step _ _ ordered_start).inOrder, .of_signals (signals_run (h.take n) rfl)⟩

def click : CString := ⟨text "\x7b\"type\":\"mouse_click\"\x7d", by decide⟩
def key : CString := ⟨text "\x7b\"type\":\"key_event\"\x7d", by decide⟩

def apart : List Event :=
  [.enqueue click 22 0, .setEvent, .wake, .take, .execute 0, .enqueue key 20 0, .setEvent, .wake, .take, .execute 0]

theorem none_stranded_apart :
    (run step start apart).executed.length = 2 ∧ InOrder (run step start (apart.take 10)) ∧
      NoneStranded (run step start (apart.take 10)) :=
  ⟨by decide +kernel, none_stranded apart
    ⟨trivial, fun _ => by decide +kernel, trivial, trivial, trivial, trivial, fun _ => by decide +kernel, trivial, trivial,
      trivial, trivial⟩ 10⟩

def together : List Event := [.enqueue click 22 0, .setEvent, .enqueue key 20 0, .setEvent, .wake, .take, .execute 0]

theorem key_stranded : ¬ ∀ (events : List Event) (n : Nat),
    InOrder (run step start (events.take n)) ∧ NoneStranded (run step start (events.take n)) := by
  intro h
  have hempty := (h together 7).2 (by decide +kernel) (by decide +kernel) (by decide +kernel)
  exact absurd hempty (by decide +kernel)

end EtranProcessing.Desk.InputQueue
