import EtranProcessing.Desk.FfmpegSupervisor
import EtranProcessing.Desk.LeaseAgreement

namespace EtranProcessing.Desk.MediaChildren

open CaptureAdapter Inventory FfmpegSupervisor LinkInvariant LeaseAgreement

structure Children where
  used : List Nat
  alive : List Nat

def Children.born (c : Children) (child : Nat) : Children := ⟨child :: c.used, child :: c.alive⟩
def Children.lost (c : Children) (child : Nat) : Children := ⟨c.used, c.alive.erase child⟩

def Children.without (c : Children) (handle : Option Nat) : Children := handle.elim c c.lost

def outlive (c : Children) : Effect → Children
  | .launched child => c.born child
  | .ended child => c.lost child
  | .wrote _ _ | .ready _ _ => c

def survivors (c : Children) (effects : List Effect) : Children := effects.foldl outlive c

def apply (c : Children) (e : Effect) : Option Children :=
  match e with
  | .launched child => if child ∈ c.used then none else some (outlive c e)
  | e => some (outlive c e)

structure Kiosk where
  sup : Supervisor
  children : Children

def Kiosk.init (mediaBackend : CString) : Kiosk := ⟨Supervisor.init mediaBackend, ⟨[], []⟩⟩

inductive Event
  | start (streamInstanceId leaseId mode sourceId profile : CString) (inv : SystemInventory) (w : World)
  | stop (streamInstanceId leaseId : CString) (w : World)
  | stopWithReason (w : World)
  | updateLease (leaseId : CString) (expiresAtMs : Nat) (w : World)
  | tick (inv : Option SystemInventory) (w : World)
  | dies (child : Nat)

def call (s : Supervisor) : Event → Option (Supervisor × List Effect)
  | .start streamInstanceId leaseId mode sourceId profile inv w =>
      (s.start streamInstanceId leaseId mode sourceId profile inv w).map (·.2)
  | .stop streamInstanceId leaseId w => some (s.stop streamInstanceId leaseId w).2
  | .stopWithReason w => some (s.stopWithReason w).2
  | .updateLease leaseId expiresAtMs w => some (s.updateLease leaseId expiresAtMs w)
  | .tick inv w => some (s.tick inv w)
  | .dies _ => some (s, [])

def Kiosk.truthful (s : Kiosk) : Event → Bool
  | .tick _ w =>
      (!w.ffmpegDied || s.sup.process.all (· ∉ s.children.alive)) &&
        (!(w.adapter 0).died || (s.sup.backend.bind (·.process)).all (· ∉ s.children.alive))
  | _ => true

def Kiosk.step? (s : Kiosk) : Event → Option Kiosk
  | .dies child => some ⟨s.sup, s.children.lost child⟩
  | e => do
      if s.truthful e = false then none
      let (sup, effects) ← call s.sup e
      let children ← effects.foldlM apply s.children
      some ⟨sup, children⟩

def step (s : Kiosk) (e : Event) : Kiosk := (s.step? e).getD s

section Effects

variable {c c' : Children} {effects more : List Effect}

theorem apply_eq {e : Effect} (h : apply c e = some c') : c' = outlive c e := by
  unfold apply at h
  split at h
  · split_ifs at h
    exact (Option.some.inj h).symm
  · exact (Option.some.inj h).symm

theorem fold_survivors (h : effects.foldlM apply c = some c') : c' = survivors c effects := by
  induction effects generalizing c with
  | nil => exact (Option.some.inj h).symm
  | cons e effects ih =>
      rw [List.foldlM_cons, Option.bind_eq_bind, Option.bind_eq_some_iff] at h
      obtain ⟨c₁, hfirst, hrest⟩ := h
      rw [ih hrest, apply_eq hfirst]
      rfl

@[simp] theorem survivors_nil (c : Children) : survivors c [] = c := rfl

@[simp] theorem survivors_append (c : Children) (effects more : List Effect) :
    survivors c (effects ++ more) = survivors (survivors c effects) more := List.foldl_append ..

@[simp] theorem survivors_launched (c : Children) (n : Nat) : survivors c (.launched n :: effects) = survivors (c.born n) effects := rfl

@[simp] theorem without_none (c : Children) : c.without none = c := rfl

@[simp] theorem without_some (c : Children) (n : Nat) : c.without (some n) = c.lost n := rfl

theorem without_used (c : Children) (handle : Option Nat) : (c.without handle).used = c.used := by
  cases handle with
  | none => rfl
  | some n => rfl

theorem without_alive (c : Children) (handle : Option Nat) : (c.without handle).alive = handle.elim c.alive c.alive.erase := by
  cases handle with
  | none => rfl
  | some n => rfl

theorem survivors_fewer (c : Children) (effects : List Effect) : c.used.length ≤ (survivors c effects).used.length ∧
    ((survivors c effects).used = c.used → (survivors c effects).alive.Sublist c.alive) := by
  induction effects generalizing c with
  | nil => exact ⟨Nat.le_refl _, fun _ => List.Sublist.refl _⟩
  | cons e effects ih =>
      cases e with
      | launched n =>
          have hmore : c.used.length + 1 ≤ (survivors (c.born n) effects).used.length := (ih (c.born n)).1
          rw [survivors_launched]
          refine ⟨by omega, fun hsame => ?_⟩
          rw [hsame] at hmore
          omega
      | ended n =>
          obtain ⟨hmore, hfewer⟩ := ih (c.lost n)
          exact ⟨hmore, fun hsame => (hfewer hsame).trans List.erase_sublist⟩
      | wrote => exact ih c
      | ready => exact ih c

end Effects

section Adapters

variable (ctx : Adapter) (c : Children) (os : Os)

theorem send_survivors (call : Call) (profile : Option CString) (writes : Bool) :
    survivors c (ctx.send call profile writes).2.2 = c := by
  rcases send_cases ctx call profile writes with hsend | ⟨n, w, -, -, -, -, -, hsend⟩
  · rw [hsend]
    rfl
  · rw [hsend]
    rfl

theorem farewell_survivors (call : Call) (writes : Bool) : survivors c (ctx.farewell call writes).2 = c := by
  obtain ⟨seq, -, hnone | ⟨n, w, -, -, -, -, hsent⟩⟩ := farewell_cases ctx call writes
  · rw [hnone]
    rfl
  · rw [hsent]
    rfl

theorem farewell_ctx (call : Call) (writes : Bool) :
    (ctx.farewell call writes).1.process = ctx.process ∧ (ctx.farewell call writes).1.state = ctx.state := by
  obtain ⟨seq, hctx, -⟩ := farewell_cases ctx call writes
  rw [hctx]
  exact ⟨rfl, rfl⟩

theorem cleanup_exits : (ctx.cleanupProcess true).1 = true ∧ (ctx.cleanupProcess true).2.1.process = none ∧
    survivors c (ctx.cleanupProcess true).2.2 = c.without ctx.process := by
  unfold Adapter.cleanupProcess
  obtain ⟨process⟩ := ctx
  cases process with
  | none => exact ⟨rfl, rfl, rfl⟩
  | some n => exact ⟨rfl, rfl, rfl⟩

theorem cleanup_stays {n : Nat} (h : ctx.process = some n) : (ctx.cleanupProcess false).1 = false ∧
    (ctx.cleanupProcess false).2.1.process = some n ∧ (ctx.cleanupProcess false).2.1.state = ctx.state ∧
      survivors c (ctx.cleanupProcess false).2.2 = c := by
  obtain ⟨process⟩ := ctx
  obtain rfl : process = some n := h
  exact ⟨rfl, rfl, rfl, rfl⟩

theorem cleanup_none (exited : Bool) (h : ctx.process = none) : ctx.cleanupProcess exited = ctx.cleanupProcess true := by
  unfold Adapter.cleanupProcess
  rw [h]

/-- A stop that has not ended the child of the adapter leaves it as it is. -/
inductive Stopped (ctx : Adapter) (os : Os) (c : Children) : Outcome → Prop
  | idle (h : ctx.state = .idle) : Stopped ctx os c (true, ctx, [])
  | ended (ctx' : Adapter) (effects : List Effect) (hstate : ctx'.state = .idle) (hprocess : ctx'.process = none)
      (hall : survivors c effects = c.without ctx.process) : Stopped ctx os c (true, ctx', effects)
  | kept (ctx' : Adapter) (effects : List Effect) (hexits : os.exits 0 = false) (hstate : ctx'.state = .stopping)
      (hprocess : ctx'.process = ctx.process) (hall : survivors c effects = c) : Stopped ctx os c (false, ctx', effects)

theorem settle_cases (h : ctx.state = .stopping) : Stopped ctx os c (ctx.settle (os.exits 0)) := by
  have hended : ctx.cleanupProcess (os.exits 0) = ctx.cleanupProcess true → Stopped ctx os c (ctx.settle (os.exits 0)) := by
    intro hexits
    obtain ⟨hexited, hprocess, hall⟩ := cleanup_exits ctx c
    simp only [Adapter.settle, hexits, hexited, if_true]
    exact .ended _ _ rfl hprocess hall
  cases hexits : os.exits 0 with
  | true => exact hexits ▸ hended (by rw [hexits])
  | false =>
      cases hprocess : ctx.process with
      | none => exact hexits ▸ hended (cleanup_none ctx _ hprocess)
      | some n =>
          obtain ⟨hexited, hkept, hstate, hall⟩ := cleanup_stays ctx c hprocess
          simp only [Adapter.settle, hexited, Bool.false_eq_true, if_false]
          exact .kept _ _ hexits (hstate.trans h) (hkept.trans hprocess.symm) hall

theorem stop_cases : Stopped ctx os c (ctx.stop os) := by
  unfold Adapter.stop
  split_ifs with hidle hstopping
  · exact .idle hidle
  · exact settle_cases ctx c os hstopping
  · obtain ⟨hprocess, hstate⟩ := farewell_ctx { ctx with restartPending := false, state := .stopping } .stop (os.writes 0)
    have hsent := farewell_survivors { ctx with restartPending := false, state := .stopping } c .stop (os.writes 0)
    have hsettled := settle_cases _ c os hstate
    dsimp only at hprocess hsettled ⊢
    generalize ({ ctx with restartPending := false, state := .stopping } : Adapter).farewell .stop (os.writes 0) = said at *
    generalize said.1.settle (os.exits 0) = settled at *
    cases hsettled with
    | idle h =>
        rw [hstate] at h
        cases h
    | ended ctx' effects hidle hnone hall => exact .ended ctx' _ hidle hnone (by rw [survivors_append, hsent, hall, hprocess])
    | kept ctx' effects hexits hkept hsame hall =>
        exact .kept ctx' _ hexits hkept (hsame.trans hprocess) (by rw [survivors_append, hsent, hall])

/-- What an adapter that launches a child when none is alive leaves; a child that has not exited is still its process. -/
inductive Launched (exits : Bool) : Bool → Adapter → List Nat → Prop
  | running (ctx' : Adapter) (n : Nat) (hstate : ctx'.state = .running) (hprocess : ctx'.process = some n) :
      Launched exits true ctx' [n]
  | failed (ctx' : Adapter) (hstate : ctx'.state = .failed) : Launched exits false ctx' []
  | kept (ctx' : Adapter) (n : Nat) (hexits : exits = false) (hstate : ctx'.state = .failed) (hprocess : ctx'.process = some n) :
      Launched exits false ctx' [n]

def Tried (exits : Bool) (o : Outcome) (c : Children) : Prop := Launched exits o.1 o.2.1 (survivors c o.2.2).alive

theorem failed_launched {n : Nat} (exits : Bool) (hprocess : ctx.process = some n) (halive : c.alive = [n]) :
    Tried exits (ctx.failed exits) c := by
  unfold Tried
  cases exits with
  | true =>
      obtain ⟨-, -, hall⟩ := cleanup_exits ctx c
      have hnone : (c.without ctx.process).alive = [] := by simp [hprocess, Children.lost, halive]
      simp only [Adapter.failed, hall, hnone]
      exact .failed _ rfl
  | false =>
      obtain ⟨-, hkept, -, hall⟩ := cleanup_stays ctx c hprocess
      simp only [Adapter.failed, hall, halive]
      exact .kept _ n rfl rfl hkept

theorem open_launched {n : Nat} (call : Call) (profile : Option CString) (write exit : Nat) (hprocess : ctx.process = some n)
    (halive : c.alive = [n]) : Tried (os.exits exit) (ctx.open call profile write exit os) c := by
  have hsent := send_survivors { ctx with requestSeq := 0 } c call profile (os.writes write)
  have hctx := send_ctx { ctx with requestSeq := 0 } call profile (os.writes write)
  simp only [Tried, Adapter.open]
  generalize ({ ctx with requestSeq := 0 } : Adapter).send call profile (os.writes write) = sent at *
  have hkept : sent.2.1.process = some n := by
    rw [hctx]
    exact hprocess
  split_ifs
  · simp only [after, survivors_append, hsent]
    exact failed_launched sent.2.1 c (os.exits exit) hkept halive
  · split
    · simp only [after, survivors_append, hsent]
      exact failed_launched sent.2.1 c (os.exits exit) hkept halive
    · next heard hready =>
        have hheard : survivors c heard = c := by
          simp only [Adapter.waitForReady, Option.bind_eq_bind, Option.bind_eq_some_iff, Option.some.injEq] at hready
          obtain ⟨m, -, tick, -, rfl⟩ := hready
          rfl
        simp only [survivors_append, hsent, hheard, halive]
        exact .running _ n rfl hkept

theorem launch_launched (call : Call) (profile : Option CString) (write exit : Nat) (halive : c.alive = []) :
    Tried (os.exits exit) (ctx.launchAndOpen call profile write exit os) c := by
  cases hlaunched : os.launched with
  | none =>
      simp only [Tried, Adapter.launchAndOpen, Adapter.launchProcess, hlaunched, survivors_nil, halive]
      exact .failed _ rfl
  | some n =>
      simp only [Tried, Adapter.launchAndOpen, Adapter.launchProcess, hlaunched, after, List.singleton_append, survivors_launched]
      exact open_launched { ctx with process := some n, stdinWrite := some n } (c.born n) os call profile write exit rfl
        (by simp [Children.born, halive])

theorem destroy_survivors (h : ctx.state ≠ .idle) :
    survivors c (ctx.destroy os) = survivors c (ctx.cleanupProcess (os.exits 0)).2.2 := by
  unfold Adapter.destroy
  rw [if_pos h]
  obtain ⟨seq, hctx, -⟩ := farewell_cases ctx .destroy (os.writes 0)
  have hsent := farewell_survivors ctx c .destroy (os.writes 0)
  dsimp only
  rw [survivors_append, hsent, hctx]
  unfold Adapter.cleanupProcess
  dsimp only
  cases ctx.process with
  | none => rfl
  | some n => cases os.exits 0 <;> rfl

theorem cleanup_alone (exited : Bool) (h : c.alive = []) : (survivors c (ctx.cleanupProcess exited).2.2).alive = [] := by
  cases exited with
  | true =>
      rw [(cleanup_exits ctx c).2.2, without_alive, h]
      cases ctx.process <;> rfl
  | false =>
      cases hprocess : ctx.process with
      | none =>
          rw [cleanup_none ctx false hprocess, (cleanup_exits ctx c).2.2, hprocess]
          exact h
      | some n =>
          rw [(cleanup_stays ctx c hprocess).2.2.2]
          exact h

theorem begin_launched {params : StreamParams} {o : Outcome} (h : ctx.begin params os = some o) (halive : c.alive = []) :
    Tried (os.exits 1) o c := by
  simp only [Adapter.begin, Option.bind_eq_bind, Option.bind_eq_some_iff, Option.some.injEq] at h
  obtain ⟨leaseId, -, streamId, -, rfl⟩ := h
  exact launch_launched _ c os .start params.profile 1 1 halive

theorem start_launched {params : StreamParams} {o : Outcome} (h : ctx.start params os = some o) (hexits : os.exits 0 = true)
    (halive : c.alive = [] ∨ ctx.state = .running ∧ (c.without ctx.process).alive = []) :
    o = (true, ctx, []) ∨ Tried (os.exits 1) o c := by
  unfold Adapter.start at h
  split_ifs at h with hon hsame
  · exact .inl (Option.some.inj h).symm
  · right
    simp only [Option.map_eq_some_iff] at h
    obtain ⟨o, hbegin, rfl⟩ := h
    have hstopped := stop_cases ctx c os
    have hgone : (survivors c (ctx.stop os).2.2).alive = [] := by
      generalize ctx.stop os = stopped at hstopped
      cases hstopped with
      | idle hidle => exact halive.elim id fun hrunning => by simp [hidle] at hrunning
      | ended ctx' effects hidle hprocess hall =>
          rw [hall]
          rcases halive with hnone | hrunning
          · rw [without_alive, hnone]
            cases ctx.process <;> rfl
          · exact hrunning.2
      | kept ctx' effects hkept =>
          rw [hexits] at hkept
          cases hkept
    have htried := begin_launched _ _ os hbegin hgone
    simp only [Tried, after, survivors_append] at htried ⊢
    exact htried
  · exact .inr (begin_launched ctx c os h (halive.resolve_right fun hrunning => hon (.inl hrunning.1)))

def Survives (ctx : Adapter) (os : Os) : Prop :=
  ctx.state = .running ∧ ¬ (0 < ctx.currentDeadlineTickMs ∧ ctx.currentDeadlineTickMs ≤ os.tick 0) ∧
    ¬ (ctx.process.isSome ∧ os.died = true)

/-- What a poll does that launches nothing. -/
inductive Polled (ctx : Adapter) (os : Os) (c : Children) : Adapter × List Effect → Prop
  | same (hsurvives : ctx.state = .running → Survives ctx os) : Polled ctx os c (ctx, [])
  | ended (ctx' : Adapter) (effects : List Effect) (hrunning : ctx.state = .running) (hstate : ctx'.state ≠ .running)
      (hall : survivors c effects = c.without ctx.process) : Polled ctx os c (ctx', effects)
  | given (ctx' : Adapter) (hrestarting : ctx.state = .restarting) (hstate : ctx'.state ≠ .running) : Polled ctx os c (ctx', [])

theorem checkExit_polled (hdeadline : ¬ (ctx.state = .running ∧ 0 < ctx.currentDeadlineTickMs ∧ ctx.currentDeadlineTickMs ≤ os.tick 0)) :
    Polled ctx os c (ctx.checkExit os) := by
  unfold Adapter.checkExit
  split
  · next hprocess => exact .same fun hrunning => ⟨hrunning, fun h => hdeadline ⟨hrunning, h⟩, by simp [hprocess]⟩
  · next n hprocess =>
      split_ifs with hdied
      · exact .ended _ _ hdied.1 State.noConfusion (by rw [hprocess]; rfl)
      · exact .ended _ _ hdied.1 State.noConfusion (by rw [hprocess]; rfl)
      · exact .same fun hrunning => ⟨hrunning, fun h => hdeadline ⟨hrunning, h⟩, fun h => hdied ⟨hrunning, h.2⟩⟩

theorem executeRestart_quiet (hdue : RestartDue ctx os → os.launched = none) : (ctx.executeRestart os).2 = [] ∧
    (ctx.state = .restarting ∧ (ctx.executeRestart os).1.state ≠ .running ∨ (ctx.executeRestart os).1 = ctx) := by
  unfold Adapter.executeRestart
  split_ifs with hpending hlate htick
  · exact ⟨rfl, .inl ⟨hpending.1, State.noConfusion⟩⟩
  · have hnone := hdue ⟨hpending.1, hpending.2, hlate, htick⟩
    simp only [Adapter.launchAndOpen, hnone, Adapter.launchProcess]
    exact ⟨trivial, .inl ⟨hpending.1, State.noConfusion⟩⟩
  · exact ⟨rfl, .inr rfl⟩
  · exact ⟨rfl, .inr rfl⟩

theorem Polled.restart {ctx' : Adapter} {effects : List Effect} (h : Polled ctx os c (ctx', effects))
    (hdue : RestartDue ctx' os → os.launched = none) :
    Polled ctx os c ((ctx'.executeRestart os).1, effects ++ (ctx'.executeRestart os).2) := by
  obtain ⟨hquiet, hstate⟩ := executeRestart_quiet ctx' os hdue
  rw [hquiet, List.append_nil]
  cases h with
  | same hsurvives =>
      rcases hstate with ⟨hrestarting, hstate⟩ | hsame
      · exact .given _ hrestarting hstate
      · rw [hsame]
        exact .same hsurvives
  | ended _ _ hrunning hnot hall =>
      rcases hstate with ⟨-, hstate⟩ | hsame
      · exact .ended _ _ hrunning hstate hall
      · rw [hsame]
        exact .ended _ _ hrunning hnot hall
  | given _ hrestarting hnot =>
      rcases hstate with ⟨-, hstate⟩ | hsame
      · exact .given _ hrestarting hstate
      · rw [hsame]
        exact .given _ hrestarting hnot

theorem poll_polled (hexits : os.exits 0 = true) (hdue : RestartDue (ctx.checkExit os).1 os → os.launched = none) :
    Polled ctx os c (ctx.poll os) := by
  unfold Adapter.poll
  split_ifs with hidle hexpired
  · exact .same fun hrunning => by rw [hidle] at hrunning; cases hrunning
  · have hstopped := stop_cases ctx c os
    generalize ctx.stop os = o at hstopped
    cases hstopped with
    | idle hidle' => exact absurd hidle' hidle
    | ended ctx' effects hstate _ hall => exact .ended _ _ hexpired.1 (by rw [hstate]; exact State.noConfusion) hall
    | kept ctx' effects hkept =>
        rw [hexits] at hkept
        cases hkept
  · exact (checkExit_polled ctx c os hexpired).restart ctx c os hdue

end Adapters

end EtranProcessing.Desk.MediaChildren
