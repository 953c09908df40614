import EtranProcessing.Capture.SafetyGate
import EtranProcessing.Library.Runs

namespace EtranProcessing.Capture.GateMoves

open Limits SafetyGate Library.Runs

def seen (g : Gate) (now : Nat) : Gate := { g with lease := { g.lease with lastTickMs := max now g.lease.lastTickMs } }

def opened (g : Gate) (m : Message) (start : Start) (now : Nat) : Gate :=
  { g with
    lease := ⟨start.deadlineTickMs, m.requestSeq, now, true, false⟩
    leaseId := start.leaseId, streamId := start.streamId, started := true
    lastCommandSeq := m.requestSeq, lastStart := some start }

def renewed (g : Gate) (seq deadline : Nat) : Gate :=
  { g with lease := { g.lease with deadlineTickMs := deadline, lastSeq := seq }, lastCommandSeq := seq }

def awaitingIdr (g : Gate) (seq : Nat) : Gate := { g with lastCommandSeq := seq, idrPending := true }

def idrTaken (g : Gate) (now : Nat) : Gate := { g with idrSent := true, idrPending := false, lastIdrMs := now }

def Live (g : Gate) (now : Nat) : Prop := g.started = true ∧ max now g.lease.lastTickMs < g.lease.deadlineTickMs

/-- What one call can do to a gate that is not stopped. -/
inductive Move (g : Gate) : Event → Gate → Prop
  | halted (e) (g') (hstopped : g'.stopped = true) (hkept : g'.started = g.started)
      (hdeadline : g.started = true → g'.lease.deadlineTickMs = g.lease.deadlineTickMs) : Move g e g'
  | idle (e) (hidle : g.started = false ∨ e.tick = none) : Move g e g
  | opened (m) (start) (now) (hbody : m.body = .start start) (hidle : g.started = false) (hseq : m.requestSeq ≠ 0)
      (hnow : now < start.deadlineTickMs) : Move g (.command (some m) now) (opened g m start now)
  | seen (e) (now) (htick : e.tick = some now) (hlive : Live g now) : Move g e (seen g now)
  | renewed (m) (leaseId) (deadline) (now) (hbody : m.body = .renewLease leaseId deadline) (hlive : Live g now)
      (hlease : leaseId = g.leaseId) (hseq : g.lastCommandSeq < m.requestSeq) (hgrows : g.lease.deadlineTickMs < deadline) :
      Move g (.command (some m) now) (renewed (GateMoves.seen g now) m.requestSeq deadline)
  | idr (m) (streamId) (now) (hbody : m.body = .forceIdr streamId) (hlive : Live g now)
      (hstream : streamId = g.streamId) (hseq : g.lastCommandSeq < m.requestSeq) :
      Move g (.command (some m) now) (awaitingIdr (GateMoves.seen g now) m.requestSeq)
  | taken (now) (hlive : Live g now) : Move g (.takeIdr now) (idrTaken (GateMoves.seen g now) now)

/-- The lease of a gate that is not stopped: untouched before the START, active and unexpired after it. -/
structure Sound (g : Gate) : Prop where
  active : g.lease.active = g.started
  unexpired : g.lease.expired = false
  inTime : g.started = true → g.lease.lastTickMs < g.lease.deadlineTickMs
  ordered : g.lease.lastSeq ≤ g.lastCommandSeq

section Stopped

variable {g : Gate}

theorem stopLocked_of_stopped (h : g.stopped = true) (reason : Status) : g.stopLocked reason = g := by
  unfold Gate.stopLocked
  rw [if_pos h]

theorem stopLocked_stopped (g : Gate) (reason : Status) : (g.stopLocked reason).stopped = true := by
  unfold Gate.stopLocked
  split
  · assumption
  · rfl

@[simp] theorem stopLocked_started (g : Gate) (reason : Status) : (g.stopLocked reason).started = g.started := by
  unfold Gate.stopLocked
  split <;> rfl

@[simp] theorem stopLocked_lease (g : Gate) (reason : Status) : (g.stopLocked reason).lease = g.lease := by
  unfold Gate.stopLocked
  split <;> rfl

theorem checkLocked_of_stopped (h : g.stopped = true) (now : Nat) : g.checkLocked now = (g.reason, g) := by
  unfold Gate.checkLocked
  rw [if_pos h]

theorem done_of_stopped (h : g.stopped = true) (status : Status) : (Gate.done status g).2 = g := by
  unfold Gate.done
  dsimp only
  split
  · exact stopLocked_of_stopped h status
  · rfl

theorem desktop_of_stopped (h : g.stopped = true) (desktop : Bool) :
    (if desktop then g else g.stopLocked .sessionUnavailable) = g := by
  cases desktop with
  | true => rfl
  | false => exact stopLocked_of_stopped h .sessionUnavailable

theorem step_stopped (h : g.stopped = true) (e : Event) : step g e = g := by
  cases e with
  | command message now =>
      cases message with
      | none => rfl
      | some m =>
          change (g.command (some m) now).2 = g
          unfold Gate.command
          dsimp only
          rw [if_pos h]
          exact done_of_stopped h _
  | check now desktop | canSend now desktop =>
      change (Gate.checkLocked _ now).2 = g
      rw [desktop_of_stopped h, checkLocked_of_stopped h]
  | takeIdr now =>
      change (g.takeIdr now).2 = g
      unfold Gate.takeIdr
      rw [checkLocked_of_stopped h]
      simp [h]
  | stop reason => exact stopLocked_of_stopped h reason

theorem grants_stopped (h : g.stopped = true) (e : Event) : grants g e = false := by
  cases e with
  | canSend now desktop =>
      change (g.canSend now desktop).1 = false
      unfold Gate.canSend
      rw [desktop_of_stopped h, checkLocked_of_stopped h]
      simp [h]
  | takeIdr now =>
      change (g.takeIdr now).1 = false
      unfold Gate.takeIdr
      rw [checkLocked_of_stopped h]
      simp [h]
  | command | check | stop => rfl

theorem run_stopped (h : g.stopped = true) (events : List Event) : run step g events = g := by
  induction events with
  | nil => rfl
  | cons e events ih =>
      change run step (step g e) events = g
      rw [step_stopped h]
      exact ih

end Stopped

section Check

variable {g : Gate} (hrunning : g.stopped = false) (hsound : Sound g)
include hrunning

theorem checkLocked_idle (h : g.started = false) (now : Nat) : g.checkLocked now = (.ok, g) := by
  unfold Gate.checkLocked
  rw [if_neg (by simp [hrunning]), if_neg (by simp [h])]

include hsound

theorem checkLocked_live {now : Nat} (h : Live g now) : g.checkLocked now = (.ok, seen g now) := by
  have hclock : (if now < g.lease.lastTickMs then g.lease.lastTickMs else now) = max now g.lease.lastTickMs := by
    split <;> omega
  have hcheck : g.lease.check (max now g.lease.lastTickMs) =
      (.ok, { g.lease with lastTickMs := max now g.lease.lastTickMs }) := by
    have hlive := h.2
    unfold Deadline.check
    rw [if_neg (by simp [hsound.active, h.1]), if_neg (by simp only [hsound.unexpired]; simp; omega)]
  unfold Gate.checkLocked
  rw [if_neg (by simp [hrunning]), if_pos h.1, hclock, hcheck]
  rfl

theorem checkLocked_late {now : Nat} (hstarted : g.started = true) (h : g.lease.deadlineTickMs ≤ max now g.lease.lastTickMs) :
    g.checkLocked now =
      (.deadlineExpired, { g with lease := { g.lease with expired := true } }.stopLocked .deadlineExpired) := by
  have hclock : (if now < g.lease.lastTickMs then g.lease.lastTickMs else now) = max now g.lease.lastTickMs := by
    split <;> omega
  have hcheck : g.lease.check (max now g.lease.lastTickMs) = (.deadlineExpired, { g.lease with expired := true }) := by
    unfold Deadline.check
    rw [if_neg (by simp [hsound.active, hstarted]), if_pos (.inr (.inr h))]
  unfold Gate.checkLocked
  rw [if_neg (by simp [hrunning]), if_pos hstarted, hclock, hcheck]
  rfl

theorem checkLocked_cases (now : Nat) :
    (g.started = false ∧ g.checkLocked now = (.ok, g)) ∨ (Live g now ∧ g.checkLocked now = (.ok, seen g now)) ∨
      ((g.checkLocked now).1 = .deadlineExpired ∧ (g.checkLocked now).2.stopped = true ∧ g.started = true ∧
        g.lease.deadlineTickMs ≤ max now g.lease.lastTickMs ∧
        (g.checkLocked now).2.started = g.started ∧
        (g.checkLocked now).2.lease.deadlineTickMs = g.lease.deadlineTickMs) := by
  by_cases hstarted : g.started = true
  · by_cases hlive : max now g.lease.lastTickMs < g.lease.deadlineTickMs
    · exact .inr (.inl ⟨⟨hstarted, hlive⟩, checkLocked_live hrunning hsound ⟨hstarted, hlive⟩⟩)
    · have hlate := Nat.le_of_not_lt hlive
      rw [checkLocked_late hrunning hsound hstarted hlate]
      exact .inr (.inr ⟨rfl, stopLocked_stopped _ _, hstarted, hlate, stopLocked_started _ _, by rw [stopLocked_lease]⟩)
  · have hidle : g.started = false := by simpa using hstarted
    exact .inl ⟨hidle, checkLocked_idle hrunning hidle now⟩

end Check

section Calls

variable {g : Gate} (hrunning : g.stopped = false) (hsound : Sound g)
include hrunning hsound

theorem check_moves {e : Event} {now : Nat} (htick : e.tick = some now) (desktop : Bool) :
    Move g e (Gate.checkLocked (if desktop then g else g.stopLocked .sessionUnavailable) now).2 := by
  cases desktop with
  | false =>
      have hstopped := stopLocked_stopped g .sessionUnavailable
      rw [if_neg (by decide), checkLocked_of_stopped hstopped]
      exact .halted e _ hstopped (stopLocked_started g _) (fun _ => by rw [stopLocked_lease])
  | true =>
      rw [if_pos rfl]
      rcases checkLocked_cases hrunning hsound now with ⟨hidle, h⟩ | ⟨hlive, h⟩ | ⟨_, hstopped, _, _, hkept, hdeadline⟩
      · rw [h]
        exact .idle e (.inl hidle)
      · rw [h]
        exact .seen e now htick hlive
      · exact .halted e _ hstopped hkept (fun _ => hdeadline)

theorem takeIdr_moves (now : Nat) : Move g (.takeIdr now) (g.takeIdr now).2 := by
  unfold Gate.takeIdr
  rcases checkLocked_cases hrunning hsound now with ⟨hidle, h⟩ | ⟨hlive, h⟩ | ⟨_, hstopped, _, _, hkept, hdeadline⟩
  · rw [h, if_neg (by simp [hidle])]
    exact .idle _ (.inl hidle)
  · rw [h]
    dsimp only
    split
    · exact .taken now hlive
    · exact .seen _ now rfl hlive
  · rw [if_neg (by simp [hstopped])]
    exact .halted _ _ hstopped hkept (fun _ => hdeadline)

theorem canSend_grants {now : Nat} {desktop : Bool} (h : (g.canSend now desktop).1 = true) : Live g now := by
  unfold Gate.canSend at h
  cases desktop with
  | false =>
      have hstopped := stopLocked_stopped g .sessionUnavailable
      rw [if_neg (by decide), checkLocked_of_stopped hstopped] at h
      simp [hstopped] at h
  | true =>
      rw [if_pos rfl] at h
      rcases checkLocked_cases hrunning hsound now with ⟨hidle, hchecked⟩ | ⟨hlive, _⟩ | ⟨_, hstopped, _⟩
      · rw [hchecked] at h
        simp [hidle] at h
      · exact hlive
      · simp [hstopped] at h

theorem takeIdr_grants {now : Nat} (h : (g.takeIdr now).1 = true) : Live g now := by
  unfold Gate.takeIdr at h
  rcases checkLocked_cases hrunning hsound now with ⟨hidle, hchecked⟩ | ⟨hlive, _⟩ | ⟨_, hstopped, _⟩
  · rw [hchecked, if_neg (by simp [hidle])] at h
    cases h
  · exact hlive
  · rw [if_neg (by simp [hstopped])] at h
    cases h

end Calls

section Commands

variable {g : Gate} (hsound : Sound g)

variable {m : Message}

theorem start_refused {start : Start} (hbody : m.body = .start start)
    (h : g.started = true ∨ start.refused = true) (now : Nat) : g.apply m now = (.protocol, g) := by
  unfold Gate.apply
  rw [hbody]
  dsimp only
  rw [if_pos (by simpa using h)]

include hsound

theorem deadline_started (hidle : g.started = false) {deadline seq now : Nat} (hseq : seq ≠ 0) (hnow : now < deadline) :
    g.lease.start deadline seq now = (.ok, ⟨deadline, seq, now, true, false⟩) := by
  have hactive : g.lease.active = false := by rw [hsound.active, hidle]
  unfold Deadline.start
  rw [if_neg hseq, if_neg (by simp [hactive, hsound.unexpired])]
  unfold Deadline.check
  rw [if_neg (by simp), if_neg (by simp only [hsound.unexpired]; simp; omega), hsound.unexpired]

theorem deadline_refused (hidle : g.started = false) {deadline seq now : Nat} (hnow : deadline ≤ now) :
    (g.lease.start deadline seq now).1 ≠ .ok := by
  have hactive : g.lease.active = false := by rw [hsound.active, hidle]
  unfold Deadline.start
  split
  · simp
  · rw [if_neg (by simp [hactive, hsound.unexpired])]
    unfold Deadline.check
    rw [if_neg (by simp), if_pos (.inr (.inr hnow))]
    simp

theorem start_applied {start : Start} (hbody : m.body = .start start) (hidle : g.started = false)
    (hseq : m.requestSeq ≠ 0) (now : Nat) :
    (start.refused = false ∧ now < start.deadlineTickMs ∧ g.apply m now = (.ok, opened g m start now)) ∨
      ((g.apply m now).1 ≠ .ok ∧ (g.apply m now).2.started = false) := by
  by_cases hrefused : start.refused = true
  · rw [start_refused hbody (.inr hrefused)]
    exact .inr ⟨by simp, hidle⟩
  unfold Gate.apply
  rw [hbody]
  dsimp only
  rw [if_neg (by simp [hidle, hrefused])]
  split
  next status hlayout => exact .inr ⟨rectLayout_ne_ok hlayout, hidle⟩
  next layout hlayout =>
    by_cases hnow : now < start.deadlineTickMs
    · rw [deadline_started hsound hidle hseq hnow]
      exact .inl ⟨by simpa using hrefused, hnow, rfl⟩
    · have hstatus : (g.lease.start start.deadlineTickMs m.requestSeq now).1 ≠ .ok :=
        deadline_refused hsound hidle (Nat.le_of_not_lt hnow)
      rw [if_pos hstatus]
      exact .inr ⟨hstatus, hidle⟩

theorem deadline_renewed (hstarted : g.started = true) (deadline seq : Nat) :
    g.lease.renew deadline seq g.lease.lastTickMs =
      if g.lease.lastSeq < seq ∧ g.lease.deadlineTickMs < deadline then
        (.ok, { g.lease with deadlineTickMs := deadline, lastSeq := seq }, true)
      else (.ok, g.lease, false) := by
  have hcheck : g.lease.check g.lease.lastTickMs = (.ok, g.lease) := by
    have htime := hsound.inTime hstarted
    unfold Deadline.check
    rw [if_neg (by simp [hsound.active, hstarted]), if_neg (by simp only [hsound.unexpired]; simp; omega)]
  unfold Deadline.renew
  rw [hcheck]
  dsimp only
  by_cases h : g.lease.lastSeq < seq ∧ g.lease.deadlineTickMs < deadline
  · rw [if_pos h, if_neg (by omega)]
  · rw [if_neg h, if_pos (by omega)]

theorem renew_applied {leaseId : Id} {deadline : Nat} (hbody : m.body = .renewLease leaseId deadline)
    (hstarted : g.started = true) (hlease : leaseId = g.leaseId) :
    g.apply m g.lease.lastTickMs =
      if g.lastCommandSeq < m.requestSeq ∧ g.lease.deadlineTickMs < deadline then (.ok, renewed g m.requestSeq deadline)
      else (.ok, g) := by
  unfold Gate.apply
  rw [hbody]
  dsimp only
  rw [if_neg (by simp [hstarted]), if_neg (by simp [hlease])]
  have hrenew := deadline_renewed hsound hstarted deadline m.requestSeq
  have hordered := hsound.ordered
  by_cases hseq : m.requestSeq ≤ g.lastCommandSeq
  · rw [if_pos hseq, if_neg (by omega)]
  · rw [if_neg hseq]
    by_cases hgrows : g.lease.deadlineTickMs < deadline
    · rw [if_pos (by omega)] at hrenew
      rw [hrenew]
      exact (if_pos ⟨Nat.lt_of_not_le hseq, hgrows⟩).symm
    · rw [if_neg (by omega)] at hrenew
      rw [hrenew]
      exact (if_neg (by omega)).symm

omit hsound in
theorem stop_applied {streamId : Id} (hbody : m.body = .stop streamId) (hstarted : g.started = true)
    (hstream : streamId = g.streamId) (now : Nat) : g.apply m now = (.ok, g.stopLocked .ok) := by
  unfold Gate.apply
  rw [hbody]
  dsimp only
  rw [if_neg (by simp [hstarted]), if_neg (by simp [hstream])]

omit hsound in
theorem idr_applied {streamId : Id} (hbody : m.body = .forceIdr streamId) (hstarted : g.started = true)
    (hstream : streamId = g.streamId) (now : Nat) :
    g.apply m now = if g.lastCommandSeq < m.requestSeq then (.ok, awaitingIdr g m.requestSeq) else (.ok, g) := by
  unfold Gate.apply
  rw [hbody]
  dsimp only
  rw [if_neg (by simp [hstarted]), if_neg (by simp [hstream])]
  rfl

/-- A command that does not belong to the session of the gate. -/
def Foreign (g : Gate) (m : Message) : Prop :=
  match m.body with
  | .start start => g.started = true ∨ start.refused = true
  | .renewLease leaseId _ => g.started = false ∨ leaseId ≠ g.leaseId
  | .stop streamId => g.started = false ∨ streamId ≠ g.streamId
  | .forceIdr streamId => g.started = false ∨ streamId ≠ g.streamId
  | .other _ => True

omit hsound in
theorem foreign_refused (h : Foreign g m) (now : Nat) : g.apply m now = (.protocol, g) := by
  unfold Foreign at h
  split at h
  next start hbody => exact start_refused hbody h now
  next leaseId deadline hbody =>
    unfold Gate.apply
    rw [hbody]
    rcases h with h | h
    · simp [h]
    · simp [h]
  next streamId hbody =>
    unfold Gate.apply
    rw [hbody]
    rcases h with h | h
    · simp [h]
    · simp [h]
  next streamId hbody =>
    unfold Gate.apply
    rw [hbody]
    rcases h with h | h
    · simp [h]
    · simp [h]
  next type hbody =>
    unfold Gate.apply
    rw [hbody]

omit hsound in
theorem done_error {status : Status} (h : status ≠ .ok) (g : Gate) : (Gate.done status g).2 = g.stopLocked status := by
  unfold Gate.done
  exact if_pos h

end Commands

section Dispatch

variable {g : Gate} (hrunning : g.stopped = false) (hsound : Sound g)
include hrunning

variable {now : Nat}

theorem command_checked {g' : Gate} (h : g.checkLocked now = (.ok, g')) (m : Message) :
    (g.command (some m) now).2 =
      if m.requestSeq = 0 then g'.stopLocked .protocol
      else (Gate.done (g'.apply m (if g'.started ∧ now < g'.lease.lastTickMs then g'.lease.lastTickMs else now)).1
        (g'.apply m (if g'.started ∧ now < g'.lease.lastTickMs then g'.lease.lastTickMs else now)).2).2 := by
  unfold Gate.command
  dsimp only
  rw [if_neg (by simp [hrunning]), h]
  dsimp only
  rw [if_neg (by simp)]
  split
  · rfl
  · rfl

theorem command_late (h : (g.checkLocked now).1 = .deadlineExpired) (hstopped : (g.checkLocked now).2.stopped = true)
    (m : Message) : (g.command (some m) now).2 = (g.checkLocked now).2 := by
  unfold Gate.command
  dsimp only
  rw [if_neg (by simp [hrunning]), h, if_pos (by decide)]
  exact done_of_stopped hstopped _

theorem command_idle (hidle : g.started = false) (m : Message) :
    (g.command (some m) now).2 =
      if m.requestSeq = 0 then g.stopLocked .protocol else (Gate.done (g.apply m now).1 (g.apply m now).2).2 := by
  rw [command_checked hrunning (checkLocked_idle hrunning hidle now) m, if_neg (c := g.started = true ∧ _) (by simp [hidle])]

include hsound

theorem command_live (hlive : Live g now) (m : Message) :
    (g.command (some m) now).2 =
      if m.requestSeq = 0 then (seen g now).stopLocked .protocol
      else (Gate.done ((seen g now).apply m (seen g now).lease.lastTickMs).1
        ((seen g now).apply m (seen g now).lease.lastTickMs).2).2 := by
  have hclock : (if (seen g now).started ∧ now < (seen g now).lease.lastTickMs then (seen g now).lease.lastTickMs else now) =
      (seen g now).lease.lastTickMs := by
    have hstarted : (seen g now).started = true := hlive.1
    have hlast : (seen g now).lease.lastTickMs = max now g.lease.lastTickMs := rfl
    split
    · rfl
    next h =>
      rw [hstarted] at h
      simp only [true_and] at h
      omega
  rw [command_checked hrunning (checkLocked_live hrunning hsound hlive) m, hclock]

omit hrunning in
theorem Sound.seen (hlive : Live g now) : Sound (seen g now) where
  active := hsound.active
  unexpired := hsound.unexpired
  inTime _ := hlive.2
  ordered := hsound.ordered

theorem command_moves (m : Message) (now : Nat) : Move g (.command (some m) now) (g.command (some m) now).2 := by
  have hdone : ∀ {status : Status} {g' : Gate}, status ≠ .ok → g'.started = g.started →
      (g.started = true → g'.lease.deadlineTickMs = g.lease.deadlineTickMs) →
      Move g (.command (some m) now) (Gate.done status g').2 := by
    intro status g' hstatus hkept hdeadline
    rw [done_error hstatus]
    exact .halted _ _ (stopLocked_stopped g' status) ((stopLocked_started g' status).trans hkept)
      (fun h => by rw [stopLocked_lease]; exact hdeadline h)
  rcases checkLocked_cases hrunning hsound now with ⟨hidle, _⟩ | ⟨hlive, _⟩ | ⟨hexpired, hstopped, _, _, hkept, hdeadline⟩
  · rw [command_idle hrunning hidle]
    have hstarted : ¬ g.started = true := by simp [hidle]
    split
    · exact .halted _ _ (stopLocked_stopped g _) (stopLocked_started g _) (fun h => absurd h hstarted)
    next hseq =>
      by_cases hforeign : Foreign g m
      · rw [foreign_refused hforeign]
        exact hdone (by simp) rfl (fun _ => rfl)
      · cases hbody : m.body with
        | start start =>
            rcases start_applied hsound hbody hidle hseq now with ⟨_, hnow, h⟩ | ⟨hstatus, hnone⟩
            · rw [h]
              exact .opened m start now hbody hidle hseq hnow
            · exact hdone hstatus (hnone.trans hidle.symm) (fun h => absurd h hstarted)
        | _ =>
            unfold Foreign at hforeign
            rw [hbody] at hforeign
            simp [hidle] at hforeign
  · rw [command_live hrunning hsound hlive]
    have hseen := hsound.seen hlive
    split
    · exact .halted _ _ (stopLocked_stopped _ _) (stopLocked_started _ _) (fun _ => by rw [stopLocked_lease]; rfl)
    next hseq =>
      by_cases hforeign : Foreign (seen g now) m
      · rw [foreign_refused hforeign]
        exact hdone (by simp) rfl (fun _ => rfl)
      · unfold Foreign at hforeign
        cases hbody : m.body with
        | start start =>
            rw [hbody] at hforeign
            exact absurd (.inl hlive.1) hforeign
        | renewLease leaseId deadline =>
            rw [hbody] at hforeign
            have hlease : leaseId = (seen g now).leaseId := Decidable.of_not_not fun h => hforeign (.inr h)
            rw [renew_applied hseen hbody hlive.1 hlease]
            split
            next h => exact .renewed m leaseId deadline now hbody hlive hlease h.1 h.2
            · exact .seen _ now rfl hlive
        | stop streamId =>
            rw [hbody] at hforeign
            have hstream : streamId = (seen g now).streamId := Decidable.of_not_not fun h => hforeign (.inr h)
            rw [stop_applied (g := seen g now) hbody hlive.1 hstream]
            exact .halted _ _ (stopLocked_stopped _ _) (stopLocked_started _ _) (fun _ => by
              change ((seen g now).stopLocked .ok).lease.deadlineTickMs = _
              rw [stopLocked_lease]
              rfl)
        | forceIdr streamId =>
            rw [hbody] at hforeign
            have hstream : streamId = (seen g now).streamId := Decidable.of_not_not fun h => hforeign (.inr h)
            rw [idr_applied (g := seen g now) hbody hlive.1 hstream]
            split
            next h => exact .idr m streamId now hbody hlive hstream h
            · exact .seen _ now rfl hlive
        | other type =>
            rw [hbody] at hforeign
            exact absurd trivial hforeign
  · rw [command_late hrunning hexpired hstopped]
    exact .halted _ _ hstopped hkept (fun _ => hdeadline)

theorem step_moves (e : Event) : Move g e (step g e) := by
  cases e with
  | command message now =>
      cases message with
      | none => exact .idle _ (.inr rfl)
      | some m => exact command_moves hrunning hsound m now
  | check now desktop | canSend now desktop => exact check_moves hrunning hsound rfl desktop
  | takeIdr now => exact takeIdr_moves hrunning hsound now
  | stop reason =>
      exact .halted _ _ (stopLocked_stopped g reason) (stopLocked_started g reason) (fun _ => by
        change (g.stopLocked reason).lease.deadlineTickMs = _
        rw [stopLocked_lease])

theorem grants_live {e : Event} (h : grants g e = true) : ∃ now, e.tick = some now ∧ Live g now := by
  cases e with
  | canSend now desktop => exact ⟨now, rfl, canSend_grants hrunning hsound h⟩
  | takeIdr now => exact ⟨now, rfl, takeIdr_grants hrunning hsound h⟩
  | command | check | stop => cases h

end Dispatch

end EtranProcessing.Capture.GateMoves
