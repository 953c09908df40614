import EtranProcessing.Desk.MediaChildren

namespace EtranProcessing.Desk.OneMediaChild

open Capture CaptureAdapter Inventory LinkInvariant FfmpegSupervisor LeaseAgreement CommandsUnderstood MediaChildren Library.Runs

/-- The child that may be alive, and where the supervisor holds it. -/
inductive Holds (state : StreamState) (process : Option Nat) (backend : Option Adapter) : List Nat → Prop
  | nobody (hrestarting : state = .restarting → backend = none) : Holds state process backend []
  | ffmpeg (n : Nat) (hprocess : process = some n) (hstate : state = .running ∨ state = .stopping) : Holds state process backend [n]
  | capture (n : Nat) (ctx : Adapter) (hbackend : backend = some ctx) (hprocess : ctx.process = some n)
      (hstate : state = .running ∧ ctx.state = .running ∨ state = .stopping ∧ ctx.state = .stopping) :
      Holds state process backend [n]

def Held (s : Supervisor) (c : Children) : Prop := Holds s.state s.process s.backend c.alive

section Holding

variable {state : StreamState} {process : Option Nat} {backend : Option Adapter} {alive : List Nat} {c : Children}

theorem Holds.restarting (h : Holds state process backend alive) (hstate : state = .restarting) : backend = none ∧ alive = [] := by
  cases h with
  | nobody hrestarting => exact ⟨hrestarting hstate, rfl⟩
  | ffmpeg n _ h => simp [hstate] at h
  | capture n ctx _ _ h => simp [hstate] at h

theorem Holds.quiet (h : Holds state process backend alive) (hrunning : state ≠ .running) (hstopping : state ≠ .stopping) :
    alive = [] := by
  cases h with
  | nobody => rfl
  | ffmpeg n _ h | capture n ctx _ _ h => exact absurd h (by simp [hrunning, hstopping])

theorem erase_single (n m : Nat) : [n].erase m = [] ∧ n = m ∨ [n].erase m = [n] := by
  by_cases h : n = m
  · exact .inl ⟨by simp [h], h⟩
  · exact .inr (by simp [h])

theorem Holds.lost (h : Holds state process backend alive) (m : Nat) : Holds state process backend (alive.erase m) := by
  have hrestarting : state = .restarting → backend = none := fun hstate => (h.restarting hstate).1
  cases h with
  | nobody => exact .nobody hrestarting
  | ffmpeg n hprocess hstate =>
      rcases erase_single n m with ⟨hnone, -⟩ | hsame
      · rw [hnone]
        exact .nobody hrestarting
      · rw [hsame]
        exact .ffmpeg n hprocess hstate
  | capture n ctx hbackend hprocess hstate =>
      rcases erase_single n m with ⟨hnone, -⟩ | hsame
      · rw [hnone]
        exact .nobody hrestarting
      · rw [hsame]
        exact .capture n ctx hbackend hprocess hstate

theorem Holds.without (h : Holds state process backend c.alive) (handle : Option Nat) :
    Holds state process backend (c.without handle).alive := by
  cases handle with
  | none => exact h
  | some m => exact h.lost m

theorem Holds.cleaned (h : Holds state process backend c.alive) : Holds state none backend (c.without process).alive := by
  have hafter := h.without process
  rw [without_alive] at hafter ⊢
  generalize c.alive = alive at *
  cases h with
  | nobody hrestarting => cases process <;> exact .nobody hrestarting
  | ffmpeg n hprocess hstate =>
      subst hprocess
      have hnone : [n].erase n = [] := by simp
      simp only [Option.elim_some, hnone]
      exact .nobody fun hrestarting => by simp [hrestarting] at hstate
  | capture n ctx hbackend hprocess hstate =>
      cases process with
      | none => exact .capture n ctx hbackend hprocess hstate
      | some m =>
          simp only [Option.elim_some]
          rcases erase_single n m with ⟨hnone, -⟩ | hsame
          · rw [hnone]
            exact .nobody fun hrestarting => by simp [hrestarting] at hstate
          · rw [hsame]
            exact .capture n ctx hbackend hprocess hstate

theorem Holds.alone (h : Holds state none backend alive) (hctx : ∀ ctx ∈ backend,
    ¬ (state = .running ∧ ctx.state = .running ∨ state = .stopping ∧ ctx.state = .stopping)) : alive = [] := by
  cases h with
  | nobody => rfl
  | ffmpeg n hprocess => cases hprocess
  | capture n ctx hbackend hprocess hstate => exact absurd hstate (hctx ctx hbackend)

theorem Holds.child (h : Holds state none backend alive) (hstopping : state ≠ .stopping) :
    alive = [] ∨ ∃ n ctx, alive = [n] ∧ backend = some ctx ∧ ctx.process = some n ∧ ctx.state = .running := by
  cases h with
  | nobody => exact .inl rfl
  | ffmpeg n hprocess => cases hprocess
  | capture n ctx hbackend hprocess hstate =>
      exact .inr ⟨n, ctx, rfl, hbackend, hprocess, (hstate.resolve_right fun h => hstopping h.1).2⟩

theorem Holds.freed {ctx : Adapter} (h : Holds state process (some ctx) c.alive) :
    ((c.without ctx.process).without process).alive = [] := by
  rw [without_alive, without_alive]
  generalize c.alive = alive at h ⊢
  cases h with
  | nobody => cases ctx.process <;> cases process <;> rfl
  | ffmpeg n hprocess =>
      subst hprocess
      cases ctx.process with
      | none => simp
      | some m =>
          rcases erase_single n m with ⟨hnone, -⟩ | hsame
          · simp [hnone]
          · simp [hsame]
  | capture n ctx' hbackend hprocess =>
      obtain rfl := Option.some.inj hbackend
      cases process <;> simp [hprocess]

theorem Holds.replaced {ctx ctx' : Adapter} (h : Holds state process (some ctx) alive) (hrunning : state ≠ .running)
    (hctx : ctx.state ≠ .stopping) : Holds state process (some ctx') alive := by
  cases h with
  | nobody hrestarting => exact .nobody fun hstate => by cases hrestarting hstate
  | ffmpeg n hprocess hstate => exact .ffmpeg n hprocess hstate
  | capture n _ hbackend _ hstate =>
      obtain rfl := Option.some.inj hbackend
      exact absurd hstate (by simp [hrunning, hctx])

theorem Holds.stopping {ctx ctx' : Adapter} (h : Holds state process (some ctx) alive) (hstate : ctx'.state = .stopping)
    (hprocess : ctx'.process = ctx.process) : Holds .stopping process (some ctx') alive := by
  cases h with
  | nobody => exact .nobody fun hrestarting => by cases hrestarting
  | ffmpeg n hffmpeg => exact .ffmpeg n hffmpeg (.inr rfl)
  | capture n _ hbackend hchild =>
      obtain rfl := Option.some.inj hbackend
      exact .capture n ctx' rfl (hprocess.trans hchild) (.inr ⟨rfl, hstate⟩)

end Holding

section Pieces

variable (s : Supervisor) (w : World) (c : Children)

theorem cleanup_sup : s.cleanupProcessHandles.1 = { s with process := none } := by
  unfold Supervisor.cleanupProcessHandles
  split
  · next hnone => rw [← hnone]
  · rfl

theorem cleanup_survivors : survivors c s.cleanupProcessHandles.2 = c.without s.process := by
  unfold Supervisor.cleanupProcessHandles
  split
  · next hnone =>
      rw [hnone]
      rfl
  · next n hsome =>
      rw [hsome]
      rfl

/-- What a launch of FFmpeg does. -/
inductive FfmpegTried (s : Supervisor) : Result → Prop
  | failed (s' : Supervisor) (hstate : s'.state = s.state ∨ s'.state = .failed) (hprocess : s'.process = s.process)
      (hbackend : s'.backend = s.backend) : FfmpegTried s (false, s', [])
  | running (s' : Supervisor) (n : Nat) (hstate : s'.state = .running) (hprocess : s'.process = some n)
      (hbackend : s'.backend = s.backend) : FfmpegTried s (true, s', [.launched n])

theorem launchFfmpegProcess_tried : FfmpegTried s (s.launchFfmpegProcess w) := by
  unfold Supervisor.launchFfmpegProcess
  split
  · exact .failed s (.inl rfl) rfl rfl
  · next n _ => exact .running _ n rfl rfl rfl

theorem FfmpegTried.rect {s : Supervisor} {o : Result} {rect : IpcProtocol.Rect}
    (h : FfmpegTried { s with desktopRect := rect } o) : FfmpegTried s o := by
  cases h with
  | failed s' hstate hprocess hbackend => exact .failed s' hstate hprocess hbackend
  | running s' n hstate hprocess hbackend => exact .running s' n hstate hprocess hbackend

theorem restartFfmpegProcess_tried (inv : Option SystemInventory) : FfmpegTried s (s.restartFfmpegProcess inv w) := by
  unfold Supervisor.restartFfmpegProcess
  dsimp only
  split
  · exact .failed s (.inl rfl) rfl rfl
  · split
    · split
      · exact .failed s (.inl rfl) rfl rfl
      · split
        · exact .failed _ (.inl rfl) rfl rfl
        · exact (launchFfmpegProcess_tried _ w).rect
    · split
      · split
        · exact .failed s (.inl rfl) rfl rfl
        · split
          · exact .failed s (.inl rfl) rfl rfl
          · exact launchFfmpegProcess_tried s w
      · exact .failed s (.inl rfl) rfl rfl

theorem countRestart_cases : ((s.countRestart w).state = .failed ∨ (s.countRestart w).state = .restarting) ∧
    (s.countRestart w).process = s.process ∧ (s.countRestart w).backend = s.backend := by
  unfold Supervisor.countRestart
  dsimp only
  split_ifs
  · exact ⟨.inl rfl, rfl, rfl⟩
  · exact ⟨.inr rfl, rfl, rfl⟩
  · exact ⟨.inl rfl, rfl, rfl⟩
  · exact ⟨.inr rfl, rfl, rfl⟩

end Pieces

section Stops

variable {s : Supervisor} {c : Children} {w : World}

theorem stopped_held {s : Supervisor} (h : c.alive = []) : Held s.cleared c := by
  unfold Held
  rw [h]
  exact .nobody fun hrestarting => by cases hrestarting

theorem stopActiveStream_held (h : Held s c) (hnamed : s.streamInstanceId.val ≠ [] ∨ (w.adapter 0).exits 0 = true) :
    Held (s.stopActiveStream w).2.1 (survivors c (s.stopActiveStream w).2.2) ∧
      (survivors c (s.stopActiveStream w).2.2).used = c.used ∧
      ((s.stopActiveStream w).2.1.state = .stopped ∨ (s.stopActiveStream w).2.1.state = .stopping) := by
  have hnow : ∃ s' : Supervisor, (if s.streamInstanceId.val ≠ [] then { s with state := .stopping } else s) = s' ∧
      s'.process = s.process ∧ s'.backend = s.backend ∧ (s'.state = .stopping ∨ (w.adapter 0).exits 0 = true) := by
    split_ifs with hid
    · exact ⟨_, rfl, rfl, rfl, .inl rfl⟩
    · exact ⟨s, rfl, rfl, rfl, .inr (hnamed.resolve_left hid)⟩
  obtain ⟨s', hs', hprocess, hbackend, hstate⟩ := hnow
  unfold Supervisor.stopActiveStream
  rw [hs']
  dsimp only
  cases hnone : s.backend with
  | none =>
      rw [hnone] at hbackend
      have halone : (c.without s.process).alive = [] := h.cleaned.alone (by simp [hnone])
      simp only [hbackend, cleanup_survivors, hprocess, without_used]
      exact ⟨stopped_held halone, trivial, .inl rfl⟩
  | some ctx =>
      rw [hnone] at hbackend
      have hstopped := stop_cases ctx c (w.adapter 0)
      simp only [hbackend]
      generalize ctx.stop (w.adapter 0) = o at hstopped ⊢
      cases hstopped with
      | idle hidle =>
          have halone : (c.without s.process).alive = [] := h.cleaned.alone (by simp [hnone, hidle])
          simp only [Bool.true_eq_false, if_false, List.nil_append, cleanup_survivors, hprocess, without_used]
          exact ⟨stopped_held halone, trivial, .inl rfl⟩
      | ended ctx' effects hidle hgone hall =>
          have halone : ((c.without ctx.process).without s.process).alive = [] := by
            unfold Held at h
            rw [hnone] at h
            exact h.freed
          simp only [Bool.true_eq_false, if_false, survivors_append, hall, cleanup_survivors, hprocess, without_used]
          exact ⟨stopped_held halone, trivial, .inl rfl⟩
      | kept ctx' effects hexits hstopping hkept hall =>
          have hstate' : s'.state = .stopping := hstate.resolve_right (by simp [hexits])
          simp only [if_true, hall, hstate']
          refine ⟨?_, trivial, .inr trivial⟩
          unfold Held at h ⊢
          rw [hnone] at h
          simp only [hprocess]
          exact h.stopping hstopping hkept

end Stops

section Starts

variable {s : Supervisor} {c : Children} {w : World}

theorem launchFfmpeg_held (halive : c.alive = []) : Held (s.launchFfmpeg w).2.1 (survivors c (s.launchFfmpeg w).2.2) := by
  have hfailed : ∀ s' : Supervisor, s'.state = .failed → Held s' c := by
    intro s' hstate
    unfold Held
    rw [halive, hstate]
    exact .nobody fun hrestarting => by cases hrestarting
  unfold Supervisor.launchFfmpeg
  split
  · exact hfailed _ rfl
  · have htried := launchFfmpegProcess_tried s w
    generalize s.launchFfmpegProcess w = o at htried ⊢
    cases htried with
    | failed s' => exact hfailed _ rfl
    | running s' n hstate hprocess =>
        have hone : (survivors c [.launched n]).alive = [n] := by simp [Children.born, halive]
        unfold Held
        rw [hone]
        exact .ffmpeg n hprocess (.inl hstate)

theorem launchCapture_held {state : StreamState} {o : Result} (h : Holds state none s.backend c.alive) (hstate : state ≠ .stopping)
    (hstop : (w.adapter 0).exits 0 = true) (hexits : (w.adapter 0).exits 1 = true ∨ (w.adapter 1).exits 0 = true)
    (ho : s.launchCapture w = some o) : Held o.2.1 (survivors c o.2.2) := by
  unfold Supervisor.launchCapture at ho
  split at ho
  · next hnone =>
      obtain rfl := Option.some.inj ho
      have hbackend : s.backend = none := (Option.or_eq_none_iff.mp hnone).1
      exact launchFfmpeg_held (h.alone (by simp [hbackend]))
  · next ctx hctx =>
      simp only [Option.bind_eq_bind, Option.bind_eq_some_iff] at ho
      obtain ⟨⟨started, ctx', effects⟩, hstart, ho⟩ := ho
      have hchild : c.alive = [] ∨ ∃ n, c.alive = [n] ∧ ctx.process = some n ∧ ctx.state = .running := by
        rcases h.child hstate with hnone | ⟨n, ctx', halive, hbackend, hprocess, hrunning⟩
        · exact .inl hnone
        · rw [hbackend, Option.some_or] at hctx
          obtain rfl := Option.some.inj hctx
          exact .inr ⟨n, halive, hprocess, hrunning⟩
      have halive : c.alive = [] ∨ ctx.state = .running ∧ (c.without ctx.process).alive = [] := by
        refine hchild.imp id ?_
        rintro ⟨n, halive, hprocess, hrunning⟩
        exact ⟨hrunning, by simp [hprocess, Children.lost, halive]⟩
      rcases start_launched ctx c (w.adapter 0) hstart hstop halive with hsame | htried
      · obtain ⟨rfl, hrest⟩ := Prod.mk.inj hsame
        obtain ⟨rfl, rfl⟩ := Prod.mk.inj hrest
        obtain rfl := Option.some.inj ho
        unfold Held
        rcases hchild with hnone | ⟨n, hone, hprocess, hrunning⟩
        · simp only [survivors_nil, hnone]
          exact .nobody fun hrestarting => by cases hrestarting
        · simp only [survivors_nil, hone]
          exact .capture n _ rfl hprocess (.inl ⟨rfl, hrunning⟩)
      · unfold Tried at htried
        dsimp only at htried ho
        generalize hafter : (survivors c effects).alive = alive at htried
        cases htried with
        | running ctx' n hrunning hprocess =>
            obtain rfl := Option.some.inj ho
            unfold Held
            simp only [hafter]
            exact .capture n _ rfl hprocess (.inl ⟨rfl, hrunning⟩)
        | failed ctx' hfailed =>
            obtain rfl := Option.some.inj ho
            have hgone : (survivors (survivors c effects) (ctx'.destroy (w.adapter 1))).alive = [] := by
              rw [destroy_survivors ctx' _ _ (by rw [hfailed]; exact State.noConfusion)]
              exact cleanup_alone ctx' _ _ hafter
            simp only [survivors_append]
            exact launchFfmpeg_held hgone
        | kept ctx' n hexit hfailed hprocess =>
            obtain rfl := Option.some.inj ho
            have hgone : (survivors (survivors c effects) (ctx'.destroy (w.adapter 1))).alive = [] := by
              rw [destroy_survivors ctx' _ _ (by rw [hfailed]; exact State.noConfusion), hexits.resolve_left (by simp [hexit]),
                (cleanup_exits ctx' _).2.2, hprocess]
              simp [Children.lost, hafter]
            simp only [survivors_append]
            exact launchFfmpeg_held hgone

def captureAlive (s : Supervisor) (c : Children) : Prop :=
  ∃ ctx ∈ s.backend, ∃ child ∈ ctx.process, child ∈ c.alive

def Switches (s : Supervisor) (streamInstanceId mode sourceId profile : CString) (inv : SystemInventory) (w : World) : Prop :=
  ¬ (s.state = .starting ∨ s.state = .stopping) ∧ inv.isProfileAllowed profile = true ∧ findSource mode sourceId inv w ≠ none ∧
    ¬ (s.state = .running ∧ s.sourceId = sourceId ∧ s.streamInstanceId = streamInstanceId)

/-- The adapter confirms the exits of its children, and a child of l4capture is followed by l4capture only. -/
def SoundStart (s : Supervisor) (c : Children) (streamInstanceId mode sourceId profile : CString) (inv : SystemInventory)
    (w : World) : Prop :=
  (w.adapter 0).exits 0 = true ∧ ((w.adapter 0).exits 1 = true ∨ (w.adapter 1).exits 0 = true) ∧
    (captureAlive s c → Switches s streamInstanceId mode sourceId profile inv w →
      (stricmp s.mediaBackend "l4capture" && isDesktop mode) = true)

theorem switched_holds (h : Held s c) (hbusy : ¬ (s.state = .starting ∨ s.state = .stopping)) :
    s.controlledSwitch.1.backend = s.backend ∧ s.controlledSwitch.1.mediaBackend = s.mediaBackend ∧
      Holds s.state none s.backend (survivors c s.controlledSwitch.2).alive ∧
      (survivors c s.controlledSwitch.2).alive ⊆ c.alive := by
  unfold Supervisor.controlledSwitch
  split_ifs with hon
  · dsimp only
    rw [cleanup_survivors, cleanup_sup]
    refine ⟨rfl, rfl, h.cleaned, ?_⟩
    rw [without_alive]
    cases s.process with
    | none => exact fun _ hm => hm
    | some n => exact fun _ hm => List.mem_of_mem_erase hm
  · simp only [not_or] at hon hbusy
    have hnone : c.alive = [] := Holds.quiet h hon.1 hbusy.2
    simp only [survivors_nil, hnone]
    exact ⟨trivial, trivial, .nobody fun hrestarting => absurd hrestarting hon.2, fun _ hm => hm⟩

theorem start_held {streamInstanceId leaseId mode sourceId profile : CString} {inv : SystemInventory} {o : Result} (h : Held s c)
    (hsound : SoundStart s c streamInstanceId mode sourceId profile inv w)
    (hstart : s.start streamInstanceId leaseId mode sourceId profile inv w = some o) : Held o.2.1 (survivors c o.2.2) := by
  have hsame : ∀ started : Bool, (some (started, s, []) : Option Result) = some o → Held o.2.1 (survivors c o.2.2) := by
    rintro started ⟨⟩
    exact h
  unfold Supervisor.start at hstart
  split at hstart
  · exact hsame false hstart
  next hbusy =>
  split at hstart
  · exact hsame false hstart
  next hprofile =>
  split at hstart
  · exact hsame false hstart
  next source hsource =>
  split at hstart
  · exact hsame true hstart
  next hrunning =>
  obtain ⟨hbackend, hmedia, hholds, hsub⟩ := switched_holds h hbusy
  generalize s.controlledSwitch = switched at *
  obtain ⟨s', ended⟩ := switched
  simp only [Option.bind_eq_bind, Option.bind_eq_some_iff] at hstart
  obtain ⟨_, -, _, -, _, -, _, -, ⟨launched, s'', effects⟩, hlaunch, ho⟩ := hstart
  obtain rfl := Option.some.inj ho
  simp only [survivors_append]
  have hswitches : Switches s streamInstanceId mode sourceId profile inv w :=
    ⟨hbusy, by simpa using hprofile, by simp [hsource], hrunning⟩
  have hcapture : (stricmp s.mediaBackend "l4capture" && isDesktop mode) = false → (survivors c ended).alive = [] := by
    intro hffmpeg
    rcases hholds.child fun hstopping => hbusy (.inr hstopping) with hnone | ⟨n, ctx, hone, hctx, hchild, -⟩
    · exact hnone
    · have halive : captureAlive s c := ⟨ctx, hctx, n, hchild, hsub (by simp [hone])⟩
      rw [hsound.2.2 halive hswitches] at hffmpeg
      cases hffmpeg
  unfold Supervisor.launch at hlaunch
  split at hlaunch
  · refine launchCapture_held ?_ (fun hstopping => hbusy (.inr hstopping)) hsound.1 hsound.2.1 hlaunch
    change Holds s.state none s'.backend _
    rw [hbackend]
    exact hholds
  · next hffmpeg =>
      have hmode : (stricmp s'.mediaBackend "l4capture" && isDesktop mode) = false := Bool.eq_false_iff.mpr hffmpeg
      rw [hmedia] at hmode
      have hheld := @launchFfmpeg_held (s'.admitted streamInstanceId leaseId mode profile source) _ w (hcapture hmode)
      rw [Option.some.inj hlaunch] at hheld
      exact hheld

end Starts

section Ticks

variable {s : Supervisor} {c : Children} {w : World} {inv : Option SystemInventory}

def Overdue (s : Supervisor) (w : World) : Prop := 0 < s.leaseExpiresAtMs ∧ s.leaseExpiresAtMs + 5000 < w.nowMs

def Goes (s : Supervisor) (inv : Option SystemInventory) (w : World) : Prop :=
  ¬ Overdue s w ∧ ¬ (isDesktop s.mode = true ∧ w.interactive = false) ∧ s.sourceGone inv = false ∧ ¬ s.stalled w

structure SoundPoll (s : Supervisor) (ctx : Adapter) (inv : Option SystemInventory) (w : World) : Prop where
  exits : (w.adapter 0).exits 0 = true
  /-- No restart of l4capture by its adapter is due. -/
  restart : RestartDue (ctx.checkExit (w.adapter 0)).1 (w.adapter 0) → (w.adapter 0).launched = none
  /-- No stream runs by FFmpeg next to an adapter. -/
  ffmpeg : s.state = .running → s.process = none
  goes : s.state = .running → Survives ctx (w.adapter 0) → Goes s inv w

structure SoundTick (s : Supervisor) (inv : Option SystemInventory) (w : World) : Prop where
  stopping : s.state = .stopping → ¬ Overdue s w
  poll : ∀ ctx ∈ s.backend, SoundPoll s ctx inv w

structure Watched (s : Supervisor) (inv : Option SystemInventory) (w : World) : Prop where
  process : s.state = .running → s.backend ≠ none → s.process = none
  goes : s.state = .running → s.backend ≠ none → Goes s inv w

structure Polls (s s' : Supervisor) : Prop where
  state : s'.state = s.state ∨ s.state = .running ∧ s'.state = .failed
  lease : s'.leaseExpiresAtMs = s.leaseExpiresAtMs

theorem judged {ctx' : Adapter} {c' : Children}
    (hlost : s.state = .running → ctx'.state ≠ .running → c'.alive = [])
    (hkept : ¬ (s.state = .running ∧ ctx'.state ≠ .running) → Holds s.state s.process (some ctx') c'.alive)
    (hgoes : s.state = .running → ctx'.state = .running → s.process = none ∧ Goes s inv w) {s' : Supervisor}
    (hs' : s' = if s.state = .running ∧ ctx'.isRunning = false then { s with backend := some ctx', state := .failed }
      else { s with backend := some ctx' }) : Held s' c' ∧ Watched s' inv w ∧ Polls s s' := by
  have hstate : ctx'.isRunning = false ↔ ctx'.state ≠ .running := by simp [Adapter.isRunning]
  simp only [hstate] at hs'
  split_ifs at hs' with hfailed
  · subst hs'
    refine ⟨?_, ⟨fun hrunning => (by cases hrunning), fun hrunning => (by cases hrunning)⟩, .inr ⟨hfailed.1, rfl⟩, rfl⟩
    unfold Held
    rw [hlost hfailed.1 hfailed.2]
    exact .nobody fun hrestarting => by cases hrestarting
  · subst hs'
    have hstill : s.state = .running → ctx'.state = .running := fun hrunning => not_not.mp fun hnot => hfailed ⟨hrunning, hnot⟩
    exact ⟨hkept hfailed, ⟨fun hrunning _ => (hgoes hrunning (hstill hrunning)).1,
      fun hrunning _ => (hgoes hrunning (hstill hrunning)).2⟩, .inl rfl, rfl⟩

theorem pollBackend_held (h : Held s c) (hsound : SoundTick s inv w) :
    (survivors c (s.pollBackend w).2).used = c.used ∧ Held (s.pollBackend w).1 (survivors c (s.pollBackend w).2) ∧
      Watched (s.pollBackend w).1 inv w ∧ Polls s (s.pollBackend w).1 := by
  unfold Supervisor.pollBackend
  split
  · next hnone => exact ⟨rfl, h, ⟨fun _ hsome => absurd hnone hsome, fun _ hsome => absurd hnone hsome⟩, .inl rfl, rfl⟩
  · next ctx hctx =>
      have hpoll := hsound.poll ctx hctx
      have hpolled := poll_polled ctx c (w.adapter 0) hpoll.exits hpoll.restart
      have hheld : Holds s.state s.process (some ctx) c.alive := hctx ▸ h
      have halone : s.state = .running → ctx.state ≠ .running → c.alive = [] := by
        intro hrunning hnot
        rw [hpoll.ffmpeg hrunning, hrunning] at hheld
        exact hheld.alone (by simp [hnot])
      generalize ctx.poll (w.adapter 0) = o at hpolled ⊢
      cases hpolled with
      | same hsurvives =>
          exact ⟨rfl, judged halone (fun _ => hheld)
            (fun hrunning hctx => ⟨hpoll.ffmpeg hrunning, hpoll.goes hrunning (hsurvives hctx)⟩) rfl⟩
      | ended ctx' effects hrunning hnot hall =>
          refine ⟨by rw [hall, without_used], judged (fun hon _ => ?_) (fun hoff => ?_) (fun _ hstill => absurd hstill hnot) rfl⟩
          · have hfreed := hheld.freed
            rw [hpoll.ffmpeg hon, without_none] at hfreed
            rw [hall]
            exact hfreed
          · rw [hall]
            exact (hheld.without ctx.process).replaced (fun hon => hoff ⟨hon, hnot⟩) (by rw [hrunning]; exact State.noConfusion)
      | given ctx' hrestarting hnot =>
          refine ⟨rfl, judged (fun hon _ => halone hon (by rw [hrestarting]; exact State.noConfusion)) (fun hoff => ?_)
            (fun _ hstill => absurd hstill hnot) rfl⟩
          exact hheld.replaced (fun hon => hoff ⟨hon, hnot⟩) (by rw [hrestarting]; exact State.noConfusion)

theorem cleaned_held (h : Held s c) (hbackend : s.backend = none) : (survivors c s.cleanupProcessHandles.2).alive = [] := by
  rw [cleanup_survivors]
  exact h.cleaned.alone (by simp [hbackend])

theorem held_of_nobody {s : Supervisor} {c : Children} (halive : c.alive = []) (h : s.state = .restarting → s.backend = none) : Held s c := by
  unfold Held
  rw [halive]
  exact .nobody h

theorem recover_held (h : Held s c) (hstate : s.state = .restarting) :
    Held (s.recover inv w).1 (survivors c (s.recover inv w).2) := by
  obtain ⟨hbackend, halive⟩ := h.restarting hstate
  have hclean := cleaned_held h hbackend
  unfold Supervisor.recover
  split
  · dsimp only
    rw [cleanup_sup]
    have htried := restartFfmpegProcess_tried { s with process := none } w inv
    generalize Supervisor.restartFfmpegProcess { s with process := none } inv w = o at htried ⊢
    cases htried with
    | failed s' hstate hprocess hsame =>
        obtain ⟨-, -, hkept⟩ := countRestart_cases s' w
        simp only [List.append_nil]
        exact held_of_nobody hclean fun _ => hkept.trans (hsame.trans hbackend)
    | running s' n hstate hprocess hsame =>
        have hone : (survivors c (s.cleanupProcessHandles.2 ++ [.launched n])).alive = [n] := by
          rw [survivors_append]
          simp [Children.born, hclean]
        unfold Held
        dsimp only
        rw [hone]
        exact .ffmpeg n hprocess (.inl rfl)
  · exact h

theorem watch_held (h : Held s c) (hstate : s.state = .running) (hwatched : Watched s inv w) :
    Held (s.watch inv w).1 (survivors c (s.watch inv w).2) := by
  by_cases hbackend : s.backend = none
  · have hclean := cleaned_held h hbackend
    unfold Supervisor.watch
    simp only [cleanup_sup]
    have hcounted := countRestart_cases { s with process := none } w
    split
    · exact held_of_nobody hclean fun _ => hcounted.2.2.trans hbackend
    · split
      · exact held_of_nobody hclean fun _ => hbackend
      · split
        · exact held_of_nobody hclean fun _ => hbackend
        · split
          · exact held_of_nobody hclean fun _ => hcounted.2.2.trans hbackend
          · exact h
  · obtain ⟨-, hinteractive, hsource, hstall⟩ := hwatched.goes hstate hbackend
    have hnone := hwatched.process hstate hbackend
    unfold Supervisor.watch
    rw [if_neg (by simp [hnone]), if_neg hinteractive, if_neg (by simp [hsource]), if_neg hstall]
    exact h

theorem leaseOver_clean (h : Held s c) (hwatched : Watched s inv w) (hover : s.leaseOver w) :
    (survivors c s.cleanupProcessHandles.2).alive = [] := by
  refine cleaned_held h ?_
  by_contra hbackend
  rcases hover.1 with hrunning | hrestarting
  · exact (hwatched.goes hrunning hbackend).1 hover.2
  · exact hbackend (h.restarting hrestarting).1

theorem tick_held (h : Held s c) (hsound : SoundTick s inv w) : Held (s.tick inv w).1 (survivors c (s.tick inv w).2) := by
  obtain ⟨-, hheld, hwatched, -⟩ := pollBackend_held h hsound
  unfold Supervisor.tick
  generalize s.pollBackend w = polled at *
  obtain ⟨s', effects⟩ := polled
  dsimp only at *
  split
  · next hover =>
      rw [cleanup_sup, survivors_append]
      exact stopped_held (leaseOver_clean hheld hwatched hover)
  · split
    · next hrestarting =>
        rw [survivors_append]
        exact recover_held hheld hrestarting
    · split
      · next hrunning =>
          rw [survivors_append]
          exact watch_held hheld hrunning hwatched
      · exact hheld

theorem tick_overdue (h : Held s c) (hsound : SoundTick s inv w) (hover : Overdue s w) :
    (survivors c (s.tick inv w).2).alive = [] := by
  obtain ⟨-, hheld, hwatched, hpolls⟩ := pollBackend_held h hsound
  have hstopping := hsound.stopping
  unfold Supervisor.tick
  generalize s.pollBackend w = polled at *
  obtain ⟨s', effects⟩ := polled
  dsimp only at *
  have hlease : Overdue s' w := by
    unfold Overdue
    rw [hpolls.lease]
    exact hover
  by_cases hon : s'.state = .running ∨ s'.state = .restarting
  · have hleaseOver : s'.leaseOver w := ⟨hon, hlease⟩
    rw [if_pos hleaseOver, survivors_append]
    exact leaseOver_clean hheld hwatched hleaseOver
  · have hnotOver : ¬ s'.leaseOver w := fun h => hon h.1
    simp only [not_or] at hon
    rw [if_neg hnotOver, if_neg hon.2, if_neg hon.1]
    refine Holds.quiet hheld hon.1 fun hstate => ?_
    rcases hpolls.state with hsame | ⟨-, hfailed⟩
    · exact hstopping (hsame.symm.trans hstate) hover
    · rw [hfailed] at hstate
      cases hstate

theorem tick_rests (h : Held s c) (hsound : SoundTick s inv w) (hrunning : s.state ≠ .running) (hrestarting : s.state ≠ .restarting) :
    (s.tick inv w).1.state = s.state ∧ (survivors c (s.tick inv w).2).used = c.used := by
  obtain ⟨hused, -, -, hpolls⟩ := pollBackend_held h hsound
  unfold Supervisor.tick
  generalize s.pollBackend w = polled at *
  obtain ⟨s', effects⟩ := polled
  dsimp only at *
  have hstate : s'.state = s.state := hpolls.state.resolve_right fun h => hrunning h.1
  rw [if_neg fun hover => hover.1.elim (fun h => hrunning (hstate ▸ h)) fun h => hrestarting (hstate ▸ h),
    if_neg fun h => hrestarting (hstate ▸ h), if_neg fun h => hrunning (hstate ▸ h)]
  exact ⟨hstate, hused⟩

end Ticks

section Runs

def Sound (s : Kiosk) : Event → Prop
  | .start streamInstanceId _ mode sourceId profile inv w =>
      SoundStart s.sup s.children streamInstanceId mode sourceId profile inv w
  | .stop _ _ w | .stopWithReason w => s.sup.streamInstanceId.val ≠ [] ∨ (w.adapter 0).exits 0 = true
  | .tick inv w => SoundTick s.sup inv w
  | .updateLease .. | .dies _ => True

def isStart : Event → Bool
  | .start .. => true
  | _ => false

def dead (state : StreamState) : Prop :=
  state = .stopped ∨ state = .failed ∨ state = .sourceUnavailable ∨ state = .sessionUnavailable

variable {s : Kiosk} {e : Event}

theorem Holds.renewed {state : StreamState} {process : Option Nat} {alive : List Nat} {ctx ctx' : Adapter}
    (h : Holds state process (some ctx) alive) (hprocess : ctx'.process = ctx.process) (hstate : ctx'.state = ctx.state) :
    Holds state process (some ctx') alive := by
  cases h with
  | nobody hrestarting => exact .nobody fun h => by cases hrestarting h
  | ffmpeg n hffmpeg hon => exact .ffmpeg n hffmpeg hon
  | capture n _ hbackend hchild hon =>
      obtain rfl := Option.some.inj hbackend
      exact .capture n ctx' rfl (hprocess.trans hchild) (by rw [hstate]; exact hon)

theorem renewLease_quiet (ctx : Adapter) (c : Children) (leaseId : Option CString) (deadline : UInt64) (os : Os) :
    (ctx.renewLease leaseId deadline os).2.1.process = ctx.process ∧ (ctx.renewLease leaseId deadline os).2.1.state = ctx.state ∧
      survivors c (ctx.renewLease leaseId deadline os).2.2 = c := by
  unfold Adapter.renewLease
  split_ifs
  · exact ⟨rfl, rfl, rfl⟩
  · exact ⟨rfl, rfl, rfl⟩
  · exact ⟨rfl, rfl, rfl⟩
  · have hctx := send_ctx { ctx with currentDeadlineTickMs := deadline } .renewLease none (os.writes 0)
    dsimp only
    refine ⟨?_, ?_, send_survivors _ c .renewLease none _⟩
    · rw [hctx]
    · rw [hctx]
  · exact ⟨rfl, rfl, rfl⟩

theorem updateLease_held {s : Supervisor} {c : Children} (h : Held s c) (leaseId : CString) (expiresAtMs : Nat) (w : World) :
    Held (s.updateLease leaseId expiresAtMs w).1 (survivors c (s.updateLease leaseId expiresAtMs w).2) ∧
      (survivors c (s.updateLease leaseId expiresAtMs w).2).used = c.used ∧
      (s.updateLease leaseId expiresAtMs w).1.state = s.state := by
  unfold Supervisor.updateLease
  split
  · split
    · dsimp only
      split
      · exact ⟨h, rfl, rfl⟩
      · next ctx hctx =>
          obtain ⟨hprocess, hstate, hall⟩ := renewLease_quiet ctx c (some leaseId)
            (w.nowTick + UInt64.ofNat (expiresAtMs - w.nowMs)) (w.adapter 0)
          have hheld : Holds s.state s.process (some ctx) c.alive := hctx ▸ h
          dsimp only
          rw [hall]
          exact ⟨hheld.renewed hprocess hstate, rfl, rfl⟩
    · exact ⟨h, rfl, rfl⟩
  · exact ⟨h, rfl, rfl⟩

def Rests (s s' : Supervisor) (c c' : Children) : Prop :=
  s.state ≠ .running ∧ s.state ≠ .restarting → s'.state ≠ .running ∧ s'.state ≠ .restarting ∧ c'.used = c.used

theorem stop_rests {s s' : Supervisor} {c c' : Children} (hused : c'.used = c.used) (hstate : s'.state = .stopped ∨ s'.state = .stopping) :
    Rests s s' c c' := by
  intro _
  rcases hstate with hstate | hstate <;> simp [hstate, hused]

theorem same_rests {s s' : Supervisor} {c c' : Children} (hstate : s'.state = s.state) (hused : c'.used = c.used) :
    Rests s s' c c' := by
  intro hrests
  rw [hstate]
  exact ⟨hrests.1, hrests.2, hused⟩

theorem rests_refl (s : Supervisor) (c : Children) : Rests s s c c := same_rests rfl rfl

theorem call_held {s s' : Supervisor} {c : Children} {effects : List Effect} (h : Held s c) (hsound : Sound ⟨s, c⟩ e)
    (hcall : call s e = some (s', effects)) :
    Held s' (survivors c effects) ∧ (isStart e = false → Rests s s' c (survivors c effects)) := by
  cases e with
  | start =>
      simp only [call, Option.map_eq_some_iff] at hcall
      obtain ⟨o, hstart, ho⟩ := hcall
      obtain ⟨rfl, rfl⟩ := Prod.mk.inj ho
      exact ⟨start_held h hsound hstart, fun hnot => by cases hnot⟩
  | stop streamInstanceId leaseId w =>
      obtain ⟨rfl, rfl⟩ := Prod.mk.inj (Option.some.inj hcall)
      unfold Supervisor.stop
      split_ifs
      · exact ⟨h, fun _ => rests_refl s c⟩
      · exact ⟨h, fun _ => rests_refl s c⟩
      · exact ⟨h, fun _ => rests_refl s c⟩
      · obtain ⟨hheld, hused, hstate⟩ := stopActiveStream_held h hsound
        exact ⟨hheld, fun _ => stop_rests hused hstate⟩
  | stopWithReason w =>
      obtain ⟨rfl, rfl⟩ := Prod.mk.inj (Option.some.inj hcall)
      unfold Supervisor.stopWithReason
      split_ifs
      · exact ⟨h, fun _ => rests_refl s c⟩
      · obtain ⟨hheld, hused, hstate⟩ := stopActiveStream_held h hsound
        exact ⟨hheld, fun _ => stop_rests hused hstate⟩
  | updateLease leaseId expiresAtMs w =>
      obtain ⟨rfl, rfl⟩ := Prod.mk.inj (Option.some.inj hcall)
      obtain ⟨hheld, hused, hstate⟩ := updateLease_held h leaseId expiresAtMs w
      exact ⟨hheld, fun _ => same_rests hstate hused⟩
  | tick =>
      obtain ⟨rfl, rfl⟩ := Prod.mk.inj (Option.some.inj hcall)
      refine ⟨tick_held h hsound, fun _ hrests => ?_⟩
      obtain ⟨hstate, hused⟩ := tick_rests h hsound hrests.1 hrests.2
      exact same_rests hstate hused hrests
  | dies child =>
      obtain ⟨rfl, rfl⟩ := Prod.mk.inj (Option.some.inj hcall)
      exact ⟨h, fun _ => rests_refl s c⟩

theorem step?_cases {s' : Kiosk} (h : s.step? e = some s') :
    (∃ child, e = .dies child ∧ s' = ⟨s.sup, s.children.lost child⟩) ∨
      ∃ effects, call s.sup e = some (s'.sup, effects) ∧ s'.children = survivors s.children effects := by
  have hcall : (∀ child, e ≠ .dies child) → ∃ effects, call s.sup e = some (s'.sup, effects) ∧
      s'.children = survivors s.children effects := by
    intro hdies
    unfold Kiosk.step? at h
    split at h
    · next child => exact absurd rfl (hdies child)
    · split at h
      · cases h
      · simp only [Option.bind_eq_bind, Option.bind_eq_some_iff] at h
        obtain ⟨⟨sup, effects⟩, hcall, children, hfold, hs'⟩ := h
        obtain rfl := Option.some.inj hs'
        exact ⟨effects, hcall, fold_survivors hfold⟩
  cases e with
  | dies child => exact .inl ⟨child, rfl, (Option.some.inj h).symm⟩
  | _ => exact .inr (hcall fun child hdies => by cases hdies)

theorem step?_held {s' : Kiosk} (h : Held s.sup s.children) (hsound : Sound s e) (hstep : s.step? e = some s') :
    Held s'.sup s'.children ∧ (isStart e = false → Rests s.sup s'.sup s.children s'.children) := by
  rcases step?_cases hstep with ⟨child, rfl, rfl⟩ | ⟨effects, hcall, hchildren⟩
  · exact ⟨h.lost child, fun _ hrests => ⟨hrests.1, hrests.2, rfl⟩⟩
  · rw [hchildren]
    exact call_held h hsound hcall

theorem step_held (h : Held s.sup s.children) (hsound : Sound s e) : Held (step s e).sup (step s e).children ∧
    (isStart e = false → Rests s.sup (step s e).sup s.children (step s e).children) := by
  unfold step
  cases hstep : s.step? e with
  | none => exact ⟨h, fun _ => rests_refl s.sup s.children⟩
  | some s' => exact step?_held h hsound hstep

theorem run_held {events : List Event} (h : Held s.sup s.children) (hsound : Along step Sound s events) :
    Held (run step s events).sup (run step s events).children := by
  induction events generalizing s with
  | nil => exact h
  | cons e events ih => exact ih (step_held h hsound.1).1 hsound.2

theorem step_fewer (hused : (step s e).children.used = s.children.used) :
    (step s e).children.alive.Sublist s.children.alive := by
  unfold step at hused ⊢
  cases hstep : s.step? e with
  | none => exact List.Sublist.refl _
  | some s' =>
      rw [hstep] at hused
      rcases step?_cases hstep with ⟨child, rfl, rfl⟩ | ⟨effects, -, hchildren⟩
      · exact List.erase_sublist
      · simp only [Option.getD_some] at hused ⊢
        rw [hchildren] at hused ⊢
        exact (survivors_fewer s.children effects).2 hused

theorem run_rests {events : List Event} (h : Held s.sup s.children) (hsound : Along step Sound s events)
    (hnone : ∀ e ∈ events, isStart e = false) (hrunning : s.sup.state ≠ .running) (hrestarting : s.sup.state ≠ .restarting) :
    (run step s events).children.used = s.children.used ∧ (run step s events).children.alive.Sublist s.children.alive := by
  induction events generalizing s with
  | nil => exact ⟨rfl, List.Sublist.refl _⟩
  | cons e events ih =>
      obtain ⟨hheld, hstep⟩ := step_held h hsound.1
      obtain ⟨hrunning', hrestarting', hused⟩ := hstep (hnone e List.mem_cons_self) ⟨hrunning, hrestarting⟩
      obtain ⟨hlater, hfewer⟩ := ih hheld hsound.2 (fun e he => hnone e (List.mem_cons_of_mem _ he)) hrunning' hrestarting'
      exact ⟨hlater.trans hused, hfewer.trans (step_fewer hused)⟩

theorem held_init (mediaBackend : CString) : Held (Kiosk.init mediaBackend).sup (Kiosk.init mediaBackend).children :=
  .nobody fun _ => rfl

end Runs

theorem one_media_child (mediaBackend : CString) (first during : List Event)
    (hsound : Along step Sound (Kiosk.init mediaBackend) (first ++ during)) :
    let s := run step (Kiosk.init mediaBackend) first
    s.children.alive.length ≤ 1 ∧
      (dead s.sup.state → (∀ e ∈ during, isStart e = false) →
        (run step s during).children.alive = [] ∧ (run step s during).children.used = s.children.used) ∧
      ∀ inv w s', SoundTick s.sup inv w → Overdue s.sup w → s.step? (.tick inv w) = some s' → s'.children.alive = [] := by
  intro s
  obtain ⟨hfirst, hduring⟩ := hsound.split
  have hheld : Held s.sup s.children := run_held (held_init mediaBackend) hfirst
  refine ⟨?_, fun hdead hnone => ?_, fun inv w s' htick hover hstep => ?_⟩
  · unfold Held at hheld
    generalize s.children.alive = alive at hheld
    cases hheld with
    | nobody => exact Nat.zero_le 1
    | ffmpeg n => exact Nat.le_refl 1
    | capture n => exact Nat.le_refl 1
  · have hstates : s.sup.state ≠ .running ∧ s.sup.state ≠ .restarting := by
      rcases hdead with h | h | h | h <;> simp [h]
    obtain ⟨hused, hfewer⟩ := run_rests hheld hduring hnone hstates.1 hstates.2
    have hnobody : s.children.alive = [] := Holds.quiet hheld hstates.1 (by rcases hdead with h | h | h | h <;> simp [h])
    rw [hnobody] at hfewer
    exact ⟨List.sublist_nil.mp hfewer, hused⟩
  · rcases step?_cases hstep with ⟨child, he, -⟩ | ⟨effects, hcall, hchildren⟩
    · cases he
    · obtain ⟨-, rfl⟩ := Prod.mk.inj (Option.some.inj hcall)
      rw [hchildren]
      exact tick_overdue hheld htick hover

def bytes (word : String) : List UInt8 := word.toList.map fun c => UInt8.ofNat c.toNat

def desktopMode : CString := ⟨bytes "desktop", by decide⟩
def cameraMode : CString := ⟨bytes "usb-camera", by decide⟩
def l4captureBackend : CString := ⟨bytes "l4capture", by decide⟩
def firstStream : CString := ⟨bytes "a", by decide⟩
def secondStream : CString := ⟨bytes "b", by decide⟩

def inventory : SystemInventory where
  displays := [⟨firstStream, empty, true, 0, 0, 640, 480, 1, empty⟩]
  cameras := [⟨firstStream, empty, firstStream, true⟩]
  allowedProfiles := []

/-- A system in which everything works. -/
def worldAt (nowMs launched : Nat) : World where
  nowMs := nowMs
  nowTick := UInt64.ofNat nowMs
  time := 1
  random := 0
  fastBackoff := false
  interactive := true
  ffmpegPresent := true
  cmdlineBuilt := true
  ffmpegLaunched := some launched
  ffmpegDied := false
  backendCreated := true
  adapter _ := osAt (UInt64.ofNat nowMs) launched

def startCamera (nowMs launched : Nat) : MediaChildren.Event :=
  .start secondStream firstStream cameraMode firstStream empty inventory (worldAt nowMs launched)

def startDesktop (nowMs launched : Nat) : MediaChildren.Event :=
  .start firstStream firstStream desktopMode firstStream empty inventory (worldAt nowMs launched)

def cameraStream : List MediaChildren.Event := [startCamera 1 7, .updateLease firstStream 1000 (worldAt 2 0)]

theorem one_media_child_lease : (run step (Kiosk.init l4captureBackend) cameraStream).children.alive = [7] ∧
    ∃ s', (run step (Kiosk.init l4captureBackend) cameraStream).step? (.tick (some inventory) (worldAt 7000 0)) = some s' ∧
      s'.children.alive = [] := by
  have hstart : Sound (Kiosk.init l4captureBackend) (startCamera 1 7) :=
    ⟨rfl, .inl rfl, by rintro ⟨ctx, hctx, -⟩; cases hctx⟩
  have hsound : Along step Sound (Kiosk.init l4captureBackend) (cameraStream ++ []) := ⟨hstart, trivial, trivial⟩
  have hbackend : (run step (Kiosk.init l4captureBackend) cameraStream).sup.backend = none := by
    rw [← Option.isNone_iff_eq_none]
    decide +kernel
  have hstate : (run step (Kiosk.init l4captureBackend) cameraStream).sup.state = .running := by decide +kernel
  have htick : SoundTick (run step (Kiosk.init l4captureBackend) cameraStream).sup (some inventory) (worldAt 7000 0) := by
    refine ⟨fun hstopping => ?_, fun ctx hctx => ?_⟩
    · rw [hstate] at hstopping
      cases hstopping
    · rw [hbackend] at hctx
      cases hctx
  have hover : Overdue (run step (Kiosk.init l4captureBackend) cameraStream).sup (worldAt 7000 0) := by
    unfold Overdue
    decide +kernel
  obtain ⟨-, -, hend⟩ := one_media_child l4captureBackend cameraStream [] hsound
  refine ⟨by decide +kernel, ?_⟩
  obtain ⟨s', hs'⟩ := Option.isSome_iff_exists.mp (show ((run step (Kiosk.init l4captureBackend) cameraStream).step?
    (.tick (some inventory) (worldAt 7000 0))).isSome = true by decide +kernel)
  exact ⟨s', hs', hend _ _ s' htick hover hs'⟩

theorem switch_leaves_capture : ¬ ∀ mediaBackend events, (run step (Kiosk.init mediaBackend) events).children.alive.length ≤ 1 := by
  intro h
  have htwo : (run step (Kiosk.init l4captureBackend) [startDesktop 1 1, startCamera 2 2]).children.alive.length = 2 := by
    decide +kernel
  have hone := h l4captureBackend [startDesktop 1 1, startCamera 2 2]
  omega

end EtranProcessing.Desk.OneMediaChild
