import EtranProcessing.Capture.GateMoves

namespace EtranProcessing.Capture.FailClosed

open Limits SafetyGate GateMoves Library.Runs

/-- What an observer of the calls writes down. -/
structure History where
  starts : List Start
  ticks : List Nat
  applied : List Nat
  deriving DecidableEq, Repr

def History.latest (h : History) : Nat := h.ticks.foldl max 0

def acceptedStart (g : Gate) (e : Event) : List Start :=
  match e with
  | .command (some ⟨_, .start start⟩) _ => if g.started = false ∧ (step g e).started = true then [start] else []
  | _ => []

def acceptedTick (g : Gate) (e : Event) : List Nat :=
  if (step g e).started = true ∧ (step g e).stopped = false then e.tick.toList else []

def appliedSeq (g : Gate) (e : Event) : List Nat :=
  match e with
  | .command (some m) _ => if (step g e).lastCommandSeq ≠ g.lastCommandSeq then [m.requestSeq] else []
  | _ => []

structure World where
  gate : Gate
  history : History
  deriving DecidableEq, Repr

def World.init : World := ⟨Gate.init, ⟨[], [], []⟩⟩

def advance (w : World) (e : Event) : World where
  gate := step w.gate e
  history := ⟨w.history.starts ++ acceptedStart w.gate e, w.history.ticks ++ acceptedTick w.gate e,
    w.history.applied ++ appliedSeq w.gate e⟩

/-- A running session is the one its only START opened. -/
structure Session (g : Gate) (h : History) (start : Start) : Prop where
  only : h.starts = [start]
  lease : start.leaseId = g.leaseId
  stream : start.streamId = g.streamId
  clock : h.latest = g.lease.lastTickMs
  applied : ∀ s ∈ h.applied, s ≤ g.lastCommandSeq

structure Idle (g : Gate) (h : History) : Prop where
  unopened : g.lastCommandSeq = 0
  starts : h.starts = []
  ticks : h.ticks = []
  applied : h.applied = []

structure Inv (w : World) : Prop where
  sound : w.gate.stopped = false → Sound w.gate
  idle : w.gate.stopped = false → w.gate.started = false → Idle w.gate w.history
  session : w.gate.stopped = false → w.gate.started = true → ∃ start, Session w.gate w.history start

theorem inv_init : Inv World.init where
  sound _ := ⟨rfl, rfl, nofun, Nat.le_refl 0⟩
  idle _ _ := ⟨rfl, rfl, rfl, rfl⟩
  session _ h := nomatch h

section Notes

variable {g : Gate} {e : Event}

theorem acceptedStart_kept (h : (step g e).started = g.started) : acceptedStart g e = [] := by
  unfold acceptedStart
  split
  · rw [h, if_neg (by simp)]
  · rfl

theorem appliedSeq_kept (h : (step g e).lastCommandSeq = g.lastCommandSeq) : appliedSeq g e = [] := by
  unfold appliedSeq
  split
  · rw [if_neg (by simp [h])]
  · rfl

theorem appliedSeq_le {m : Message} {now : Nat} : ∀ s ∈ appliedSeq g (.command (some m) now), s ≤ m.requestSeq := by
  intro s hs
  unfold appliedSeq at hs
  dsimp only at hs
  split at hs
  · exact Nat.le_of_eq (List.mem_singleton.mp hs)
  · cases hs

theorem appliedSeq_moved {m : Message} {now : Nat}
    (h : (step g (.command (some m) now)).lastCommandSeq ≠ g.lastCommandSeq) :
    appliedSeq g (.command (some m) now) = [m.requestSeq] := by
  unfold appliedSeq
  exact if_pos h

theorem acceptedTick_live {now : Nat} (htick : e.tick = some now) (hstarted : (step g e).started = true)
    (hrunning : (step g e).stopped = false) : acceptedTick g e = [now] := by
  unfold acceptedTick
  rw [if_pos ⟨hstarted, hrunning⟩, htick]
  rfl

theorem acceptedTick_silent (h : (step g e).started = false ∨ e.tick = none) : acceptedTick g e = [] := by
  unfold acceptedTick
  rcases h with h | h
  · rw [if_neg (by simp [h])]
  · split
    · rw [h]
      rfl
    · rfl

theorem latest_append (ticks : List Nat) (now : Nat) : (ticks ++ [now]).foldl max 0 = max now (ticks.foldl max 0) := by
  rw [List.foldl_append]
  exact Nat.max_comm _ _

end Notes

section Session

variable {g g' : Gate} {h : History} {start : Start} {e : Event}

theorem Session.kept (hsession : Session g h start) (hg' : step g e = g')
    (hopen : g'.started = g.started) (hlease : g'.leaseId = g.leaseId) (hstream : g'.streamId = g.streamId)
    (hclock : (h.ticks ++ acceptedTick g e).foldl max 0 = g'.lease.lastTickMs)
    (hseq : g.lastCommandSeq ≤ g'.lastCommandSeq) (happlied : ∀ s ∈ appliedSeq g e, s ≤ g'.lastCommandSeq) :
    Session g' ⟨h.starts ++ acceptedStart g e, h.ticks ++ acceptedTick g e, h.applied ++ appliedSeq g e⟩ start where
  only := by
    rw [acceptedStart_kept (by rw [hg', hopen]), List.append_nil]
    exact hsession.only
  lease := hsession.lease.trans hlease.symm
  stream := hsession.stream.trans hstream.symm
  clock := hclock
  applied s hs := by
    rcases List.mem_append.mp hs with hs | hs
    · exact Nat.le_trans (hsession.applied s hs) hseq
    · exact happlied s hs

theorem Session.ticked (hsession : Session g h start) {now : Nat} (htick : e.tick = some now)
    (hstarted : (step g e).started = true) (hrunning : (step g e).stopped = false) :
    (h.ticks ++ acceptedTick g e).foldl max 0 = max now g.lease.lastTickMs := by
  rw [acceptedTick_live htick hstarted hrunning, latest_append]
  exact congrArg (max now) hsession.clock

end Session

theorem Move.sound {g g' : Gate} {e : Event} (h : Move g e g') (hsound : Sound g) (hrunning : g'.stopped = false) :
    Sound g' := by
  cases h with
  | halted _ _ hstopped => rw [hstopped] at hrunning; cases hrunning
  | idle => exact hsound
  | opened m start now _ _ _ hnow => exact ⟨rfl, rfl, fun _ => hnow, Nat.le_refl _⟩
  | seen _ now _ hlive => exact hsound.seen hlive
  | renewed m leaseId deadline now _ hlive _ _ hgrows =>
      exact ⟨hsound.active, hsound.unexpired, fun _ => Nat.lt_trans hlive.2 hgrows, Nat.le_refl _⟩
  | idr m streamId now _ hlive _ hseq =>
      exact ⟨hsound.active, hsound.unexpired, fun _ => hlive.2, Nat.le_trans hsound.ordered (Nat.le_of_lt hseq)⟩
  | taken now hlive => exact ⟨hsound.active, hsound.unexpired, fun _ => hlive.2, hsound.ordered⟩

theorem step_idle {g : Gate} {h : History} {e : Event} (hidle : Idle g h) (hg' : step g e = g)
    (hquiet : g.started = false ∨ e.tick = none) :
    Idle g ⟨h.starts ++ acceptedStart g e, h.ticks ++ acceptedTick g e, h.applied ++ appliedSeq g e⟩ where
  unopened := hidle.unopened
  starts := by rw [acceptedStart_kept (by rw [hg']), hidle.starts]; rfl
  ticks := by rw [acceptedTick_silent (by rw [hg']; exact hquiet), hidle.ticks]; rfl
  applied := by rw [appliedSeq_kept (by rw [hg']), hidle.applied]; rfl

theorem step_opened {g : Gate} {h : History} {m : Message} {start : Start} {now : Nat} (hidle : Idle g h)
    (hbody : m.body = .start start) (hclosed : g.started = false) (hrunning : g.stopped = false)
    (hg' : step g (.command (some m) now) = opened g m start now) :
    Session (opened g m start now)
      ⟨h.starts ++ acceptedStart g (.command (some m) now), h.ticks ++ acceptedTick g (.command (some m) now),
        h.applied ++ appliedSeq g (.command (some m) now)⟩ start where
  only := by
    obtain ⟨seq, body⟩ := m
    change body = .start start at hbody
    subst hbody
    have haccepted : acceptedStart g (.command (some ⟨seq, .start start⟩) now) = [start] := by
      unfold acceptedStart
      dsimp only
      rw [hg', if_pos ⟨hclosed, rfl⟩]
    rw [haccepted, hidle.starts]
    rfl
  lease := rfl
  stream := rfl
  clock := by
    change (h.ticks ++ acceptedTick g _).foldl max 0 = now
    rw [hidle.ticks, acceptedTick_live rfl (by rw [hg']; rfl) (by rw [hg']; exact hrunning), latest_append]
    exact Nat.max_eq_left (Nat.zero_le now)
  applied s hs := by
    rw [hidle.applied] at hs
    exact appliedSeq_le s hs

theorem advance_inv {w : World} (hw : Inv w) (e : Event) : Inv (advance w e) := by
  by_cases hstopped : w.gate.stopped = true
  · have hsame : (advance w e).gate.stopped = true := by
      change (step w.gate e).stopped = true
      rw [step_stopped hstopped]
      exact hstopped
    exact ⟨fun h => (by rw [hsame] at h; cases h), fun h => (by rw [hsame] at h; cases h),
      fun h => (by rw [hsame] at h; cases h)⟩
  have hrunning : w.gate.stopped = false := by simpa using hstopped
  have hsound := hw.sound hrunning
  have hmove := step_moves hrunning hsound e
  refine ⟨fun h => Move.sound hmove hsound h, ?_, ?_⟩
  · intro hrunning' hidle'
    change Idle (step w.gate e) _
    change (step w.gate e).started = false at hidle'
    change (step w.gate e).stopped = false at hrunning'
    generalize hg' : step w.gate e = g' at hmove hidle' hrunning'
    cases hmove with
    | halted _ _ hstopped' => rw [hstopped'] at hrunning'; cases hrunning'
    | idle e hquiet => exact step_idle (hw.idle hrunning hidle') hg' hquiet
    | opened => cases hidle'
    | seen _ _ _ hlive | renewed _ _ _ _ _ hlive | idr _ _ _ _ hlive | taken _ hlive =>
        have hopen : w.gate.started = false := hidle'
        rw [hlive.1] at hopen
        cases hopen
  · intro hrunning' hstarted'
    change ∃ start, Session (step w.gate e) _ start
    change (step w.gate e).started = true at hstarted'
    change (step w.gate e).stopped = false at hrunning'
    generalize hg' : step w.gate e = g' at hmove hstarted' hrunning'
    cases hmove with
    | halted _ _ hstopped' => rw [hstopped'] at hrunning'; cases hrunning'
    | idle e hquiet =>
        obtain ⟨start, hsession⟩ := hw.session hrunning hstarted'
        refine ⟨start, hsession.kept hg' rfl rfl rfl ?_ (Nat.le_refl _) ?_⟩
        · rw [acceptedTick_silent (by rw [hg']; exact hquiet), List.append_nil]
          exact hsession.clock
        · rw [appliedSeq_kept (by rw [hg'])]
          exact nofun
    | opened m start now hbody hclosed =>
        exact ⟨start, step_opened (hw.idle hrunning hclosed) hbody hclosed hrunning hg'⟩
    | seen _ now htick hlive =>
        obtain ⟨start, hsession⟩ := hw.session hrunning hlive.1
        refine ⟨start, hsession.kept hg' rfl rfl rfl ?_ (Nat.le_refl _) ?_⟩
        · exact hsession.ticked htick (by rw [hg']; exact hstarted') (by rw [hg']; exact hrunning')
        · rw [appliedSeq_kept (by rw [hg']; rfl)]
          exact nofun
    | renewed m leaseId deadline now _ hlive _ hseq | idr m streamId now _ hlive _ hseq =>
        obtain ⟨start, hsession⟩ := hw.session hrunning hlive.1
        refine ⟨start, hsession.kept hg' rfl rfl rfl ?_ (Nat.le_of_lt hseq) appliedSeq_le⟩
        exact hsession.ticked rfl (by rw [hg']; exact hstarted') (by rw [hg']; exact hrunning')
    | taken now hlive =>
        obtain ⟨start, hsession⟩ := hw.session hrunning hlive.1
        refine ⟨start, hsession.kept hg' rfl rfl rfl ?_ (Nat.le_refl _) ?_⟩
        · exact hsession.ticked rfl (by rw [hg']; exact hstarted') (by rw [hg']; exact hrunning')
        · rw [appliedSeq_kept (by rw [hg']; rfl)]
          exact nofun

theorem run_inv (events : List Event) : Inv (run advance World.init events) :=
  run_kept (p := Inv) (fun _ e hw => advance_inv hw e) events World.init inv_init

section Refusals

variable {w : World} (hw : Inv w) (hrunning : w.gate.stopped = false)

/-- A command that breaks the protocol, told from the calls before it alone. -/
def Violation (h : History) (m : Message) : Prop :=
  m.requestSeq = 0 ∨
    match m.body with
    | .start start => h.starts ≠ [] ∨ start.refused = true
    | .renewLease leaseId _ => ∀ start ∈ h.starts, leaseId ≠ start.leaseId
    | .stop streamId => ∀ start ∈ h.starts, streamId ≠ start.streamId
    | .forceIdr streamId => ∀ start ∈ h.starts, streamId ≠ start.streamId
    | .other _ => True

theorem foreign_stops {g : Gate} (hrunning : g.stopped = false) (hsound : Sound g) {m : Message}
    (h : m.requestSeq = 0 ∨ Foreign g m) (now : Nat) : (g.command (some m) now).2.stopped = true := by
  rcases checkLocked_cases hrunning hsound now with ⟨hidle, _⟩ | ⟨hlive, _⟩ | ⟨hexpired, hstopped, _⟩
  · rw [command_idle hrunning hidle]
    split
    · exact stopLocked_stopped _ _
    next hseq =>
      rw [foreign_refused (h.resolve_left hseq), done_error (by simp)]
      exact stopLocked_stopped _ _
  · rw [command_live hrunning hsound hlive]
    split
    · exact stopLocked_stopped _ _
    next hseq =>
      have hforeign : Foreign (seen g now) m := h.resolve_left hseq
      rw [foreign_refused hforeign, done_error (by simp)]
      exact stopLocked_stopped _ _
  · rw [command_late hrunning hexpired hstopped]
    exact hstopped

include hw hrunning

theorem violation_foreign {m : Message} (h : Violation w.history m) : m.requestSeq = 0 ∨ Foreign w.gate m := by
  refine h.imp_right fun h => ?_
  unfold Foreign
  by_cases hstarted : w.gate.started = true
  · obtain ⟨start, hsession⟩ := hw.session hrunning hstarted
    rw [hsession.only] at h
    cases hbody : m.body with
    | start => exact .inl hstarted
    | renewLease =>
        rw [hbody] at h
        exact .inr (hsession.lease ▸ h start List.mem_cons_self)
    | stop streamId | forceIdr streamId =>
        rw [hbody] at h
        exact .inr (hsession.stream ▸ h start List.mem_cons_self)
    | other => trivial
  · have hclosed : w.gate.started = false := by simpa using hstarted
    have hnone := (hw.idle hrunning hclosed).starts
    cases hbody : m.body with
    | start start =>
        rw [hbody] at h
        exact .inr (h.resolve_left fun hopen => hopen hnone)
    | renewLease | stop | forceIdr => exact .inl hclosed
    | other => trivial

omit hw in
theorem stream_stops (hsound : Sound w.gate) {m : Message} {streamId : Id} (hbody : m.body = .stop streamId)
    (hstream : streamId = w.gate.streamId) (now : Nat) : (w.gate.command (some m) now).2.stopped = true := by
  rcases checkLocked_cases hrunning hsound now with ⟨hidle, _⟩ | ⟨hlive, _⟩ | ⟨hexpired, hstopped, _⟩
  · refine foreign_stops hrunning hsound (.inr ?_) now
    unfold Foreign
    rw [hbody]
    exact .inl hidle
  · rw [command_live hrunning hsound hlive]
    split
    · exact stopLocked_stopped _ _
    · rw [stop_applied (g := seen w.gate now) hbody hlive.1 hstream]
      exact stopLocked_stopped _ _
  · rw [command_late hrunning hexpired hstopped]
    exact hstopped

omit hw in
theorem used_ignored (hsound : Sound w.gate) {m : Message} {now : Nat} (hlive : Live w.gate now) (hseq : m.requestSeq ≠ 0)
    (hused : m.requestSeq ≤ w.gate.lastCommandSeq)
    (hbody : (∃ deadline, m.body = .renewLease w.gate.leaseId deadline) ∨ m.body = .forceIdr w.gate.streamId) :
    (w.gate.command (some m) now).2 = seen w.gate now := by
  have hstale : ¬ (seen w.gate now).lastCommandSeq < m.requestSeq := Nat.not_lt_of_le hused
  rw [command_live hrunning hsound hlive, if_neg hseq]
  rcases hbody with ⟨deadline, hbody⟩ | hbody
  · rw [renew_applied (hsound.seen hlive) hbody hlive.1 rfl, if_neg (fun h => hstale h.1)]
    rfl
  · rw [idr_applied (g := seen w.gate now) hbody hlive.1 rfl, if_neg hstale]
    rfl

end Refusals

/-- What the gate promises about the next call, whatever calls came before it. -/
structure Promises (w : World) (e : Event) : Prop where
  stays : w.gate.stopped = true → ∀ events,
    run step w.gate events = w.gate ∧ ∀ e', grants (run step w.gate events) e' = false
  grants : grants w.gate e = true → w.gate.stopped = false ∧ ∃ start now, w.history.starts = [start] ∧
    e.tick = some now ∧ max now w.history.latest < w.gate.lease.deadlineTickMs
  opens : ∀ start ∈ acceptedStart w.gate e, w.history.starts = [] ∧
    (step w.gate e).lease.deadlineTickMs = start.deadlineTickMs
  renews : w.gate.started = true → (step w.gate e).lease.deadlineTickMs ≠ w.gate.lease.deadlineTickMs →
    ∃ m now start deadline, e = .command (some m) now ∧ w.history.starts = [start] ∧
      m.body = .renewLease start.leaseId deadline ∧ (∀ s ∈ w.history.applied, s < m.requestSeq) ∧
      appliedSeq w.gate e = [m.requestSeq] ∧
      (step w.gate e).lease.deadlineTickMs = deadline ∧ w.gate.lease.deadlineTickMs < deadline
  used : ∀ m now start, e = .command (some m) now → w.gate.stopped = false → start ∈ w.history.starts →
    0 < m.requestSeq → (∃ s ∈ w.history.applied, m.requestSeq ≤ s) →
    ((∃ deadline, m.body = .renewLease start.leaseId deadline) ∨ m.body = .forceIdr start.streamId) →
    max now w.history.latest < w.gate.lease.deadlineTickMs → step w.gate e = seen w.gate now
  stops : ∀ m now start, e = .command (some m) now → start ∈ w.history.starts → m.body = .stop start.streamId →
    (step w.gate e).stopped = true
  violation : ∀ m now, e = .command (some m) now → Violation w.history m → (step w.gate e).stopped = true

section Clauses

variable {w : World} {e : Event} (hw : Inv w)
include hw

theorem grants_session (h : grants w.gate e = true) : w.gate.stopped = false ∧ ∃ start now, w.history.starts = [start] ∧
    e.tick = some now ∧ max now w.history.latest < w.gate.lease.deadlineTickMs := by
  have hrunning : w.gate.stopped = false := Bool.eq_false_iff.mpr fun hstopped => by
    rw [grants_stopped hstopped] at h
    cases h
  obtain ⟨now, htick, hlive⟩ := grants_live hrunning (hw.sound hrunning) h
  obtain ⟨start, hsession⟩ := hw.session hrunning hlive.1
  exact ⟨hrunning, start, now, hsession.only, htick, hsession.clock ▸ hlive.2⟩

theorem opens_once : ∀ start ∈ acceptedStart w.gate e, w.history.starts = [] ∧
    (step w.gate e).lease.deadlineTickMs = start.deadlineTickMs := by
  intro start h
  by_cases hstopped : w.gate.stopped = true
  · rw [acceptedStart_kept (by rw [step_stopped hstopped])] at h
    cases h
  have hrunning : w.gate.stopped = false := by simpa using hstopped
  have hmove := step_moves hrunning (hw.sound hrunning) e
  generalize hg' : step w.gate e = g' at hmove
  cases hmove with
  | halted _ _ _ hkept => rw [acceptedStart_kept (by rw [hg', hkept])] at h; cases h
  | opened m start' now hbody hclosed =>
      refine ⟨(hw.idle hrunning hclosed).starts, ?_⟩
      obtain ⟨seq, body⟩ := m
      change body = .start start' at hbody
      subst hbody
      unfold acceptedStart at h
      dsimp only at h
      split at h
      · rw [List.mem_singleton.mp h]; rfl
      · cases h
  | idle => rw [acceptedStart_kept (by rw [hg'])] at h; cases h
  | seen | renewed | idr | taken => rw [acceptedStart_kept (by rw [hg']; rfl)] at h; cases h

theorem renews_only (hstarted : w.gate.started = true)
    (h : (step w.gate e).lease.deadlineTickMs ≠ w.gate.lease.deadlineTickMs) :
    ∃ m now start deadline, e = .command (some m) now ∧ w.history.starts = [start] ∧
      m.body = .renewLease start.leaseId deadline ∧ (∀ s ∈ w.history.applied, s < m.requestSeq) ∧
      appliedSeq w.gate e = [m.requestSeq] ∧
      (step w.gate e).lease.deadlineTickMs = deadline ∧ w.gate.lease.deadlineTickMs < deadline := by
  have hrunning : w.gate.stopped = false := Bool.eq_false_iff.mpr fun hstopped => h (by rw [step_stopped hstopped])
  obtain ⟨start, hsession⟩ := hw.session hrunning hstarted
  have hmove := step_moves hrunning (hw.sound hrunning) e
  generalize hg' : step w.gate e = g' at hmove h
  cases hmove with
  | halted _ _ _ _ hdeadline => exact absurd (hdeadline hstarted) h
  | opened _ _ _ _ hclosed => rw [hstarted] at hclosed; cases hclosed
  | idle | seen | idr | taken => exact absurd rfl h
  | renewed m leaseId deadline now hbody hlive hlease hseq hgrows =>
      refine ⟨m, now, start, deadline, rfl, hsession.only, ?_, ?_, ?_, rfl, hgrows⟩
      · rw [hbody, hlease, hsession.lease]
      · exact fun s hs => Nat.lt_of_le_of_lt (hsession.applied s hs) hseq
      · refine appliedSeq_moved ?_
        rw [hg']
        exact Nat.ne_of_gt hseq

theorem session_of_start (hrunning : w.gate.stopped = false) {start : Start} (h : start ∈ w.history.starts) :
    w.gate.started = true ∧ Session w.gate w.history start := by
  by_cases hstarted : w.gate.started = true
  · obtain ⟨start', hsession⟩ := hw.session hrunning hstarted
    rw [hsession.only] at h
    rw [List.mem_singleton.mp h]
    exact ⟨hstarted, hsession⟩
  · rw [(hw.idle hrunning (by simpa using hstarted)).starts] at h
    cases h

end Clauses

def sampleStart : Start where
  leaseId := Vector.replicate 16 1
  streamId := Vector.replicate 16 2
  sourceRect := ⟨0, 0, 640, 480⟩
  geometryGen := 0
  profileId := 1
  rtpPort := 5004
  rtcpPort := 5005
  deadlineTickMs := 5000

end EtranProcessing.Capture.FailClosed
