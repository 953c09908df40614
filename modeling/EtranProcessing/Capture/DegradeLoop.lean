import EtranProcessing.Capture.DegradeController
import EtranProcessing.Library.Runs

namespace EtranProcessing.Capture.DegradeLoop

open DegradeController Library.Runs

inductive Request
  | low | default
  deriving DecidableEq, Repr

def parseRequest (wireProfileId : Nat) : Option Request :=
  if wireProfileId = 1 then some .low
  else if wireProfileId = 2 ∨ wireProfileId = 3 then some .default
  else none

/-- The profile and the frame rate a session starts with. -/
def resolve (request : Request) (win7 hardwareMft720 openh264720 : Bool) : Profile × Nat :=
  match request with
  | .low => (.p480, 15)
  | .default =>
      if win7 then (.p480, 15)
      else if hardwareMft720 then (.p720, 25)
      else if openh264720 then (.p720, 15)
      else (.p480, 15)

structure PipelineState where
  active : Bool
  actualProfile : Profile
  currentFps : Nat
  degradeState : DegradeState
  configGen : Nat
  winStartMs : Nat
  degrade : Controller
  deriving DecidableEq, Repr

def PipelineState.zero : PipelineState := ⟨false, .p480, 0, .nominal, 0, 0, Controller.zero⟩

/-- One turn of the main loop with all that the outside decides in it. -/
structure Pass where
  now : Nat
  -- the pipe, the safety gate and the stall test let the loop go on
  alive : Bool
  started : Bool
  profileId : Nat
  win7 : Bool
  mftSupported : Bool
  startupOk : Bool
  -- the session is available and the gate lets a frame be sent
  sendable : Bool
  winAcc : Window
  reconfigured : Bool
  deriving DecidableEq, Repr

/-- The running loop, or nothing once the session is stopped. -/
structure World where
  running : Bool
  clock : Nat
  ps : PipelineState
  deriving DecidableEq, Repr

def World.init : World := ⟨true, 0, PipelineState.zero⟩

def pipelineStart (p : Pass) : Option PipelineState :=
  match parseRequest p.profileId with
  | none => none
  | some request =>
      let mft := !p.win7 && request == .default && p.mftSupported
      let (profile, fps) := resolve request p.win7 mft (!p.win7 && request == .default)
      if p.startupOk then some ⟨true, profile, fps, .nominal, 1, 0, Controller.zero⟩ else none

def started (ps : PipelineState) (p : Pass) : Option PipelineState :=
  if p.started ∧ ps.active = false then
    (pipelineStart p).map fun ps =>
      { ps with degrade := ps.degrade.init ps.actualProfile ps.currentFps p.now, winStartMs := p.now }
  else some ps

def accumulateWindowSample (ps : PipelineState) (now : Nat) : PipelineState :=
  if ps.winStartMs = 0 then { ps with winStartMs := now } else ps

def reconfigureRaster (ps : PipelineState) (profile : Profile) (p : Pass) : Option PipelineState :=
  if p.reconfigured then
    let ps := { ps with actualProfile := profile, configGen := ps.configGen + 1, winStartMs := p.now }
    some { ps with degrade := ps.degrade.notifyApplied ps.actualProfile ps.currentFps ps.degradeState ps.configGen p.now }
  else none

def applyDegradeAction (ps : PipelineState) (act : Action) (p : Pass) : Option PipelineState :=
  match act with
  | .d1FpsThrottle =>
      let ps := { ps with currentFps := 10, degradeState := .fpsThrottled }
      some { ps with degrade := ps.degrade.notifyApplied ps.actualProfile ps.currentFps ps.degradeState ps.configGen p.now }
  | .d2Raster540 => reconfigureRaster { ps with degradeState := .degraded540 } .p540 p
  | .d3Raster480 => reconfigureRaster { ps with degradeState := .degraded480 } .p480 p
  | .stopHighLoad => none
  | _ => some ps

/-- The session as this pass finds it when it closes a window. -/
def closing (w : World) (p : Pass) : Option PipelineState :=
  if w.running = true ∧ p.alive = true then
    match started w.ps p with
    | none => none
    | some ps =>
        let ps' := accumulateWindowSample ps p.now
        if ps.active = true ∧ p.sendable = true ∧ ps'.winStartMs ≠ 0 ∧ windowMs ≤ p.now - ps'.winStartMs then some ps' else none
  else none

def answer (ps : PipelineState) (p : Pass) : Action × Controller :=
  ps.degrade.onWindow (ps.winStartMs + windowMs) p.winAcc.closed

def closeWindow (ps : PipelineState) (p : Pass) : Option PipelineState :=
  let (act, ctl) := answer ps p
  let ps := { ps with degrade := ctl, winStartMs := ps.winStartMs + windowMs }
  if act ≠ .none then applyDegradeAction ps act p else some ps

def capture (ps : PipelineState) (p : Pass) : Option PipelineState :=
  if ps.active = true ∧ p.sendable = true then
    let ps := accumulateWindowSample ps p.now
    if ps.winStartMs ≠ 0 ∧ windowMs ≤ p.now - ps.winStartMs then closeWindow ps p else some ps
  else some ps

def step (w : World) (p : Pass) : World :=
  if w.running = true ∧ p.alive = true then
    match (started w.ps p).bind (capture · p) with
    | none => ⟨false, p.now, w.ps⟩
    | some ps => ⟨true, p.now, ps⟩
  else ⟨false, p.now, w.ps⟩

def floorDue (ctl : Controller) : Bool :=
  ctl.floorCounting && (ctl.d0Done || ctl.d3Done) && floorBadWindows ≤ ctl.floorBadStreak + 1

def d1Due (ctl : Controller) (windowEnd : Nat) (wm : Window) : Bool :=
  wm.bad ctl.currentFps && !floorDue ctl && 1 ≤ ctl.consecutiveBad && !ctl.holdoffBlocks windowEnd &&
    ctl.chooseLadderStep.1 = .d1FpsThrottle

def Forward (w : World) (p : Pass) : Prop := w.clock ≤ p.now

/-- The clock never goes back, a session does not start at tick 0, and the pass that throttles the frame rate
    comes at the very end of its window. -/
def OnTime (w : World) (p : Pass) : Prop :=
  Forward w p ∧ (w.ps.active = false → p.started = true → p.now ≠ 0) ∧
    ∀ ps ∈ closing w p, d1Due ps.degrade (ps.winStartMs + windowMs) p.winAcc.closed = true →
      p.now = ps.winStartMs + windowMs

instance (w : World) (p : Pass) : Decidable (Forward w p) := inferInstanceAs (Decidable (_ ≤ _))

instance (w : World) (p : Pass) : Decidable (OnTime w p) := inferInstanceAs (Decidable (_ ∧ _ ∧ _))

def InStep (w : World) (p : Pass) : Prop :=
  ∀ ps, closing w p = some ps → ps.degrade.windowStartMs = ps.winStartMs ∧
    answer ps p = ps.degrade.evaluate (ps.winStartMs + windowMs) p.winAcc.closed

def BadWindow (w : World) (p : Pass) : Prop :=
  ∃ ps, closing w p = some ps ∧ p.winAcc.closed.bad ps.degrade.currentFps = true

def HoldoffOver (w : World) (p : Pass) : Prop :=
  ∀ ps, closing w p = some ps → ps.degrade.holdoffBlocks (ps.winStartMs + windowMs) = false

def StepLeft (w : World) (p : Pass) : Prop :=
  ∀ ps, closing w p = some ps → ps.degrade.chooseLadderStep.1 ≠ .none ∨ floorDue ps.degrade = true

def Sheds (w : World) (p : Pass) : Prop :=
  ∃ ps, closing w p = some ps ∧ (answer ps p).1 ≠ .none ∧
    ((answer ps p).1 = .stopHighLoad ∨ (answer ps p).1 = ps.degrade.chooseLadderStep.1)

structure Aligned (ps : PipelineState) : Prop where
  opened : ps.degrade.windowOpen = true
  start : ps.degrade.windowStartMs = ps.winStartMs
  pos : ps.winStartMs ≠ 0

structure Inv (w : World) : Prop where
  aligned : w.running = true → w.ps.active = true → Aligned w.ps
  behind : w.running = true → w.ps.active = true → w.ps.winStartMs ≤ w.clock

section Windows

variable {ctl : Controller} {windowEnd : Nat} {wm : Window}

theorem onWindow_aligned (hopen : ctl.windowOpen = true) (hstart : ctl.windowStartMs + windowMs = windowEnd) :
    ctl.onWindow windowEnd wm = ctl.evaluate windowEnd wm := by
  have hclosed : ¬ ctl.windowOpen = false := by simp [hopen]
  unfold Controller.onWindow
  rw [if_neg hclosed]
  dsimp only
  rw [if_neg (by omega), if_neg (by omega)]

theorem overThreshold_zero : (⟨0, 0⟩ : DropClass).overThreshold = false := by
  simp [DropClass.overThreshold]

theorem noData_of_bad {fps : Nat} (h : wm.bad fps = true) : wm.noData = false := by
  simp only [Window.bad, Bool.or_eq_true, Bool.and_eq_true, decide_eq_true_eq] at h
  simp only [Window.noData, Bool.and_eq_false_iff, beq_eq_false_iff_ne, Bool.not_eq_false', Bool.and_eq_true,
    decide_eq_true_eq]
  rcases h with ((h | h) | h) | ⟨⟨⟨hp, hs⟩, -⟩, -⟩
  · exact .inl (.inl (.inl fun he => by simp [he, overThreshold_zero] at h))
  · exact .inl (.inl (.inr fun he => by simp [he, overThreshold_zero] at h))
  · exact .inl (.inr fun he => by simp [he, overThreshold_zero] at h)
  · exact .inr ⟨hp, by unfold p95MinSamples at hs; omega⟩

theorem chooseLadderStep_count (ctl : Controller) (bad : Bool) :
    (ctl.count bad).chooseLadderStep.1 = ctl.chooseLadderStep.1 := by
  unfold Controller.chooseLadderStep Controller.count
  cases bad <;> simp only [Bool.false_eq_true, if_true, if_false] <;> split_ifs <;> rfl

theorem chooseLadderStep_keeps (ctl : Controller) :
    ctl.chooseLadderStep.2.windowOpen = ctl.windowOpen ∧ ctl.chooseLadderStep.2.consecutiveBad = ctl.consecutiveBad := by
  unfold Controller.chooseLadderStep
  dsimp only
  split_ifs <;> exact ⟨rfl, rfl⟩

@[simp] theorem count_windowOpen (bad : Bool) : (ctl.count bad).windowOpen = ctl.windowOpen := by
  cases bad <;> rfl

theorem markActionTaken_window (act : Action) (now : Nat) :
    (ctl.markActionTaken act now).windowOpen = true ∧ (ctl.markActionTaken act now).windowStartMs = now :=
  ⟨rfl, rfl⟩

theorem evaluate_window (hopen : ctl.windowOpen = true) :
    (ctl.evaluate windowEnd wm).2.windowOpen = true ∧ (ctl.evaluate windowEnd wm).2.windowStartMs = windowEnd := by
  unfold Controller.evaluate
  dsimp only
  split_ifs with hdata hfloor hladder
  · exact ⟨rfl, rfl⟩
  · exact ⟨rfl, rfl⟩
  · split
    · next ctl' hchoice =>
        have hkeeps := (chooseLadderStep_keeps (ctl.count (wm.bad ctl.currentFps))).1
        rw [hchoice] at hkeeps
        exact ⟨by simpa [hopen] using hkeeps, rfl⟩
    · exact markActionTaken_window _ _
  · exact ⟨by simpa using hopen, rfl⟩

theorem floorDue_count (ctl : Controller) :
    ((ctl.count true).floorCounting = true ∧ ((ctl.count true).d0Done = true ∨ (ctl.count true).d3Done = true) ∧
      floorBadWindows ≤ (ctl.count true).floorBadStreak) ↔ floorDue ctl = true := by
  simp only [Controller.count, if_true, floorDue, Bool.and_eq_true, Bool.or_eq_true, decide_eq_true_eq]
  by_cases hfloor : ctl.floorCounting = true
  · simp only [hfloor, if_true, true_and, floorBadWindows]
    exact and_congr_right fun _ => by omega
  · simp [hfloor]

theorem consecutive_count (ctl : Controller) : 2 ≤ (ctl.count true).consecutiveBad ↔ 1 ≤ ctl.consecutiveBad := by
  simp only [Controller.count, if_true]
  omega

theorem evaluate_bad (hbad : wm.bad ctl.currentFps = true) :
    (ctl.evaluate windowEnd wm).1 =
      if floorDue ctl = true then .stopHighLoad
      else if 1 ≤ ctl.consecutiveBad ∧ ctl.holdoffBlocks windowEnd = false then ctl.chooseLadderStep.1 else .none := by
  have hblocks : (ctl.count true).holdoffBlocks windowEnd = ctl.holdoffBlocks windowEnd := rfl
  unfold Controller.evaluate
  dsimp only
  rw [noData_of_bad hbad, if_neg (by simp), hbad]
  simp only [floorDue_count, consecutive_count, hblocks]
  split_ifs with hfloor hladder
  · rfl
  · rw [← chooseLadderStep_count ctl true]
    split
    · next hchoice => rw [hchoice]
    · next hchoice => rw [hchoice]
  · rfl

theorem evaluate_good (hbad : wm.bad ctl.currentFps = false) (hfloor : (ctl.evaluate windowEnd wm).1 = .d1FpsThrottle) :
    False := by
  unfold Controller.evaluate at hfloor
  dsimp only at hfloor
  rw [hbad] at hfloor
  split_ifs at hfloor with hdata hstop hladder
  exact absurd hladder.1 (by simp [Controller.count])

theorem evaluate_d1 : (ctl.evaluate windowEnd wm).1 = .d1FpsThrottle ↔ d1Due ctl windowEnd wm = true := by
  by_cases hbad : wm.bad ctl.currentFps = true
  · rw [evaluate_bad hbad]
    simp only [d1Due, hbad, Bool.true_and, Bool.and_eq_true, Bool.not_eq_true', decide_eq_true_eq]
    split_ifs with hfloor hladder
    · simp [hfloor]
    · simp [hfloor, hladder]
    · simp only [hfloor, true_and, false_iff]
      tauto
  · have hgood : wm.bad ctl.currentFps = false := by simpa using hbad
    constructor
    · intro h
      exact (evaluate_good hgood h).elim
    · intro h
      simp [d1Due, hgood] at h

theorem evaluate_remembers (hbad : wm.bad ctl.currentFps = true) (hnone : (ctl.evaluate windowEnd wm).1 = .none) :
    1 ≤ (ctl.evaluate windowEnd wm).2.consecutiveBad := by
  have hcount : 1 ≤ (ctl.count true).consecutiveBad := by
    simp only [Controller.count, if_true]
    omega
  unfold Controller.evaluate at hnone ⊢
  dsimp only at hnone ⊢
  rw [noData_of_bad hbad, if_neg (by simp), hbad] at hnone ⊢
  split_ifs at hnone ⊢ with hfloor hladder
  · split at hnone
    · next ctl' hchoice =>
        have hkeeps : ctl'.consecutiveBad = (ctl.count true).consecutiveBad := by
          simpa [hchoice] using (chooseLadderStep_keeps (ctl.count true)).2
        exact hkeeps ▸ hcount
    · next hne hchoice => exact absurd hnone (by simpa using hne)
  · exact hcount

end Windows

section Start

theorem resolve_startable (request : Request) (win7 hardwareMft720 openh264720 : Bool) :
    (resolve request win7 hardwareMft720 openh264720).2 ≠ 0 ∧ (resolve request win7 hardwareMft720 openh264720).1 ≠ .p540 := by
  cases request with
  | low => simp [resolve]
  | default =>
      simp only [resolve]
      split_ifs <;> simp

variable {ps : PipelineState}

theorem pipelineStart_startable {p : Pass} (h : pipelineStart p = some ps) :
    ps.currentFps ≠ 0 ∧ ps.actualProfile ≠ .p540 := by
  unfold pipelineStart at h
  split at h
  · exact absurd h (by simp)
  · next request hrequest =>
      dsimp only at h
      split at h
      · obtain rfl := Option.some.inj h
        exact resolve_startable _ _ _ _
      · exact absurd h (by simp)

theorem init_window {ctl : Controller} {actualId : Profile} {fps now : Nat} (hfps : fps ≠ 0) (hid : actualId ≠ .p540) :
    (ctl.init actualId fps now).windowOpen = true ∧ (ctl.init actualId fps now).windowStartMs = now := by
  unfold Controller.init
  rw [if_neg (by simp [hfps, hid])]
  exact ⟨rfl, rfl⟩

theorem started_aligned {w : World} {p : Pass} (hinv : Inv w) (hrunning : w.running = true)
    (hforward : Forward w p) (htick : w.ps.active = false → p.started = true → p.now ≠ 0)
    (h : started w.ps p = some ps) (hactive : ps.active = true) : Aligned ps ∧ ps.winStartMs ≤ p.now := by
  unfold started at h
  split at h
  · next hstart =>
      obtain ⟨fresh, hfresh, rfl⟩ := Option.map_eq_some_iff.mp h
      obtain ⟨hfps, hid⟩ := pipelineStart_startable hfresh
      obtain ⟨hopen, hwindow⟩ := @init_window fresh.degrade _ _ p.now hfps hid
      exact ⟨⟨hopen, hwindow, htick hstart.2 hstart.1⟩, le_refl _⟩
  · obtain rfl := Option.some.inj h
    exact ⟨hinv.aligned hrunning hactive, (hinv.behind hrunning hactive).trans hforward⟩

theorem accumulate_aligned (h : Aligned ps) (now : Nat) : accumulateWindowSample ps now = ps := by
  unfold accumulateWindowSample
  rw [if_neg h.pos]

end Start

section Step

variable {p : Pass} {ps ps' : PipelineState}

theorem reconfigureRaster_aligned {profile : Profile} (hpos : p.now ≠ 0)
    (h : reconfigureRaster ps profile p = some ps') : Aligned ps' ∧ ps'.winStartMs ≤ p.now := by
  unfold reconfigureRaster at h
  split at h
  · obtain rfl := Option.some.inj h
    exact ⟨⟨rfl, rfl, hpos⟩, le_refl _⟩
  · exact absurd h (by simp)

theorem applyDegradeAction_aligned {act : Action} (halign : Aligned ps)
    (hbehind : ps.winStartMs ≤ p.now) (hd1 : act = .d1FpsThrottle → p.now = ps.winStartMs)
    (h : applyDegradeAction ps act p = some ps') : Aligned ps' ∧ ps'.winStartMs ≤ p.now := by
  have hpos : p.now ≠ 0 := fun hzero => halign.pos (by omega)
  cases act with
  | none | d0DropLateRaw =>
      obtain rfl := Option.some.inj h
      exact ⟨halign, hbehind⟩
  | d1FpsThrottle =>
      obtain rfl := Option.some.inj h
      exact ⟨⟨rfl, hd1 rfl, halign.pos⟩, hbehind⟩
  | d2Raster540 | d3Raster480 => exact reconfigureRaster_aligned hpos h
  | stopHighLoad => exact absurd h (by simp [applyDegradeAction])

theorem answer_aligned {ps : PipelineState} (halign : Aligned ps) (p : Pass) :
    answer ps p = ps.degrade.evaluate (ps.winStartMs + windowMs) p.winAcc.closed :=
  onWindow_aligned halign.opened (by rw [halign.start])

theorem closeWindow_aligned (halign : Aligned ps) (hend : ps.winStartMs + windowMs ≤ p.now)
    (hd1 : d1Due ps.degrade (ps.winStartMs + windowMs) p.winAcc.closed = true → p.now = ps.winStartMs + windowMs)
    (h : closeWindow ps p = some ps') : Aligned ps' ∧ ps'.winStartMs ≤ p.now := by
  unfold closeWindow at h
  rw [answer_aligned halign] at h
  dsimp only at h
  obtain ⟨hopen, hstart⟩ := @evaluate_window _ (ps.winStartMs + windowMs) p.winAcc.closed halign.opened
  have hnext : Aligned { ps with
      degrade := (ps.degrade.evaluate (ps.winStartMs + windowMs) p.winAcc.closed).2
      winStartMs := ps.winStartMs + windowMs } := ⟨hopen, hstart, by simp [windowMs]⟩
  split_ifs at h with hact
  · exact applyDegradeAction_aligned hnext hend (fun he => hd1 (evaluate_d1.mp he)) h
  · obtain rfl := Option.some.inj h
    exact ⟨hnext, hend⟩

theorem closing_of {w : World} {ps : PipelineState} (hgo : w.running = true ∧ p.alive = true)
    (hstarted : started w.ps p = some ps) (hactive : ps.active = true) (hsend : p.sendable = true)
    (hend : (accumulateWindowSample ps p.now).winStartMs ≠ 0 ∧
      windowMs ≤ p.now - (accumulateWindowSample ps p.now).winStartMs) :
    closing w p = some (accumulateWindowSample ps p.now) := by
  unfold closing
  rw [if_pos hgo, hstarted]
  exact if_pos ⟨hactive, hsend, hend⟩

theorem of_closing {w : World} {ps : PipelineState} (h : closing w p = some ps) :
    (w.running = true ∧ p.alive = true) ∧ ∃ ps₀, started w.ps p = some ps₀ ∧ ps₀.active = true ∧ p.sendable = true ∧
      ps = accumulateWindowSample ps₀ p.now ∧ ps.winStartMs ≠ 0 ∧ windowMs ≤ p.now - ps.winStartMs := by
  unfold closing at h
  split_ifs at h with hgo
  split at h
  · exact absurd h (by simp)
  · next ps₀ hstarted =>
      dsimp only at h
      split_ifs at h with hend
      obtain rfl := Option.some.inj h
      exact ⟨hgo, ps₀, hstarted, hend.1, hend.2.1, rfl, hend.2.2⟩

theorem step_inv {w : World} (hinv : Inv w) (hok : OnTime w p) : Inv (step w p) := by
  obtain ⟨hforward, htick, hd1⟩ := hok
  suffices haligned : (step w p).running = true → (step w p).ps.active = true →
      Aligned (step w p).ps ∧ (step w p).ps.winStartMs ≤ (step w p).clock from
    ⟨fun hr ha => (haligned hr ha).1, fun hr ha => (haligned hr ha).2⟩
  intro hrunning hactive
  unfold step at hrunning hactive ⊢
  split_ifs at hrunning hactive ⊢ with hgo
  split at hrunning
  · exact absurd hrunning (by simp)
  · next ps' hcapture =>
      obtain ⟨ps, hstarted, hcapture⟩ := Option.bind_eq_some_iff.mp hcapture
      simp only [hstarted, Option.bind_some, hcapture] at hactive ⊢
      unfold capture at hcapture
      split_ifs at hcapture with hsend
      · obtain ⟨halign, hbehind⟩ := started_aligned hinv hgo.1 hforward htick hstarted hsend.1
        dsimp only at hcapture
        split_ifs at hcapture with hend
        · have hclosing := closing_of hgo hstarted hsend.1 hsend.2 hend
          rw [accumulate_aligned halign] at hcapture hend hclosing
          exact closeWindow_aligned halign (by omega) (hd1 ps hclosing) hcapture
        · rw [accumulate_aligned halign] at hcapture
          obtain rfl := Option.some.inj hcapture
          exact ⟨halign, hbehind⟩
      · obtain rfl := Option.some.inj hcapture
        exact started_aligned hinv hgo.1 hforward htick hstarted hactive

end Step

section Runs

theorem init_inv : Inv World.init := ⟨fun _ h => absurd h (by decide), fun _ h => absurd h (by decide)⟩

theorem run_inv (passes : List Pass) {w : World} (hinv : Inv w) (hok : Along step OnTime w passes) :
    Inv (run step w passes) := by
  induction passes generalizing w with
  | nil => exact hinv
  | cons p passes ih => exact ih (step_inv hinv hok.1) hok.2

variable {w : World} {ps : PipelineState} {p : Pass}

theorem run_stopped (passes : List Pass) (h : w.running = false) : (run step w passes).running = false := by
  induction passes generalizing w with
  | nil => exact h
  | cons p passes ih =>
      have hstep : (step w p).running = false := by
        unfold step
        rw [if_neg (by simp [h])]
      exact ih hstep

theorem closing_aligned (hinv : Inv w) (hok : OnTime w p)
    (h : closing w p = some ps) : Aligned ps := by
  obtain ⟨hgo, ps₀, hstarted, hactive, -, rfl, -⟩ := of_closing h
  have halign := (started_aligned hinv hgo.1 hok.1 hok.2.1 hstarted hactive).1
  rwa [accumulate_aligned halign]

theorem inStep (hinv : Inv w) (hok : OnTime w p) : InStep w p := fun _ h =>
  have halign := closing_aligned hinv hok h
  ⟨halign.start, answer_aligned halign p⟩

theorem step_quiet (hinv : Inv w) (hactive : w.ps.active = true) (hquiet : closing w p = none)
    (hrunning : (step w p).running = true) : (step w p).ps = w.ps := by
  unfold step at hrunning ⊢
  split_ifs at hrunning ⊢ with hgo
  have hstarted : started w.ps p = some w.ps := by
    unfold started
    rw [if_neg (by simp [hactive])]
  have halign := hinv.aligned hgo.1 hactive
  have hcapture : capture w.ps p = some w.ps := by
    unfold capture
    split_ifs with hsend
    · dsimp only
      split_ifs with hend
      · exact absurd (closing_of hgo hstarted hsend.1 hsend.2 hend) (by simp [hquiet])
      · rw [accumulate_aligned halign]
    · rfl
  rw [hstarted, Option.bind_some, hcapture]

theorem run_quiet (quiet : List Pass) (hinv : Inv w) (hok : Along step OnTime w quiet) (hactive : w.ps.active = true)
    (hquiet : Along step (fun w p => closing w p = none) w quiet) (hrunning : (run step w quiet).running = true) :
    (run step w quiet).ps = w.ps := by
  induction quiet generalizing w with
  | nil => rfl
  | cons p quiet ih =>
      have hstep : (step w p).running = true := by
        by_contra hstopped
        have := run_stopped quiet (by simpa using hstopped)
        simp [run] at this hrunning
        simp [this] at hrunning
      have hps := step_quiet hinv hactive hquiet.1 hstep
      exact (ih (step_inv hinv hok.1) hok.2 (hps ▸ hactive) hquiet.2 hrunning).trans hps

theorem sheds_of_answer (halign : Aligned ps) (hclosing : closing w p = some ps)
    (hbad : p.winAcc.closed.bad ps.degrade.currentFps = true) (hact : (answer ps p).1 ≠ .none) : Sheds w p := by
  refine ⟨ps, hclosing, hact, ?_⟩
  rw [answer_aligned halign, evaluate_bad hbad] at hact ⊢
  split_ifs at hact ⊢ with hfloor hladder
  · exact .inl rfl
  · exact .inr rfl
  · exact absurd rfl hact

theorem sheds_of_remembered (halign : Aligned ps)
    (hclosing : closing w p = some ps) (hbad : p.winAcc.closed.bad ps.degrade.currentFps = true)
    (hremembered : 1 ≤ ps.degrade.consecutiveBad) (hover : HoldoffOver w p) (hleft : StepLeft w p) : Sheds w p := by
  refine sheds_of_answer halign hclosing hbad ?_
  rw [answer_aligned halign, evaluate_bad hbad]
  split_ifs with hfloor hladder
  · simp
  · exact (hleft ps hclosing).resolve_right hfloor
  · exact absurd ⟨hremembered, hover ps hclosing⟩ hladder

theorem step_remembers (halign : Aligned ps) (hclosing : closing w p = some ps)
    (hbad : p.winAcc.closed.bad ps.degrade.currentFps = true) (hact : (answer ps p).1 = .none) :
    (step w p).ps.active = true ∧ 1 ≤ (step w p).ps.degrade.consecutiveBad := by
  obtain ⟨hgo, ps₀, hstarted, hactive, hsend, rfl, hpos, hend⟩ := of_closing hclosing
  have hkept : (accumulateWindowSample ps₀ p.now).active = true := by
    unfold accumulateWindowSample
    split_ifs <;> exact hactive
  have hcapture : capture ps₀ p = closeWindow (accumulateWindowSample ps₀ p.now) p := by
    unfold capture
    rw [if_pos ⟨hactive, hsend⟩]
    exact if_pos ⟨hpos, hend⟩
  have hremembers := evaluate_remembers hbad ((answer_aligned halign p) ▸ hact)
  unfold step
  rw [if_pos hgo, hstarted, Option.bind_some, hcapture]
  unfold closeWindow
  dsimp only
  rw [if_neg (by simp [hact]), answer_aligned halign]
  exact ⟨hkept, hremembers⟩

theorem sheds {p₁ p₂ : Pass} {quiet : List Pass} (hinv : Inv w) (hok : Along step OnTime w (p₁ :: quiet ++ [p₂]))
    (hbad₁ : BadWindow w p₁) (hquiet : Along step (fun w p => closing w p = none) (step w p₁) quiet)
    (hbad₂ : BadWindow (run step w (p₁ :: quiet)) p₂) (hover : HoldoffOver (run step w (p₁ :: quiet)) p₂)
    (hleft : StepLeft (run step w (p₁ :: quiet)) p₂) : Sheds w p₁ ∨ Sheds (run step w (p₁ :: quiet)) p₂ := by
  obtain ⟨ps₁, hclosing₁, hbad₁⟩ := hbad₁
  obtain ⟨ps₂, hclosing₂, hbad₂⟩ := hbad₂
  obtain ⟨hfirst, hsecond⟩ := hok.split
  have hinv₂ := run_inv (p₁ :: quiet) hinv hfirst
  have halign₁ := closing_aligned hinv hfirst.1 hclosing₁
  have halign₂ := closing_aligned hinv₂ hsecond.1 hclosing₂
  by_cases hact : (answer ps₁ p₁).1 = .none
  · obtain ⟨hactive, hremembers⟩ := step_remembers halign₁ hclosing₁ hbad₁ hact
    obtain ⟨hgo, ps₀, hstarted, -, -, hps₂, -⟩ := of_closing hclosing₂
    have hkept : (run step w (p₁ :: quiet)).ps = (step w p₁).ps :=
      run_quiet quiet (step_inv hinv hfirst.1) hfirst.2 hactive hquiet hgo.1
    have hsame : ps₂.degrade = (step w p₁).ps.degrade := by
      unfold started at hstarted
      rw [if_neg (by simp [hkept, hactive])] at hstarted
      obtain rfl := Option.some.inj hstarted
      rw [hps₂, ← hkept]
      unfold accumulateWindowSample
      split_ifs <;> rfl
    exact .inr (sheds_of_remembered halign₂ hclosing₂ hbad₂ (hsame ▸ hremembers) hover hleft)
  · exact .inl (sheds_of_answer halign₁ hclosing₁ hbad₁ hact)

/-- In a run whose passes are on time every window that is closed is evaluated, and two bad windows in a row outside the
    hold-off give the next rung of the ladder or a stop. -/
theorem detector_in_step (passes : List Pass) (hok : Along step OnTime World.init passes) :
    (∀ before p after, passes = before ++ p :: after → InStep (run step World.init before) p) ∧
      ∀ before p₁ quiet p₂ after, passes = before ++ (p₁ :: quiet ++ [p₂]) ++ after →
        BadWindow (run step World.init before) p₁ →
        Along step (fun w p => closing w p = none) (run step World.init (before ++ [p₁])) quiet →
        BadWindow (run step World.init (before ++ p₁ :: quiet)) p₂ →
        HoldoffOver (run step World.init (before ++ p₁ :: quiet)) p₂ →
        StepLeft (run step World.init (before ++ p₁ :: quiet)) p₂ →
        Sheds (run step World.init before) p₁ ∨ Sheds (run step World.init (before ++ p₁ :: quiet)) p₂ := by
  constructor
  · rintro before p after rfl
    obtain ⟨hbefore, hrest⟩ := hok.split
    exact inStep (run_inv before init_inv hbefore) hrest.1
  · rintro before p₁ quiet p₂ after rfl
    obtain ⟨hbefore, hrest⟩ := hok.split.1.split
    simp only [run_append]
    exact sheds (run_inv before init_inv hbefore) hrest

/-- A session at 480p that drops frames in every window. -/
def latePass (now : Nat) : Pass where
  now := now
  alive := true
  started := true
  profileId := 1
  win7 := false
  mftSupported := false
  startupOk := true
  sendable := true
  winAcc := ⟨⟨1, 1⟩, ⟨0, 0⟩, ⟨0, 0⟩, false, 0, 0, []⟩
  reconfigured := true

theorem detector_in_step_sample :
    (closing (run step World.init ([1000, 4000, 7000, 10000, 13000].map latePass)) (latePass 16000)).isSome = true ∧
      InStep (run step World.init ([1000, 4000, 7000, 10000, 13000].map latePass)) (latePass 16000) ∧
      (Sheds (run step World.init ([1000, 4000, 7000].map latePass)) (latePass 10000) ∨
        Sheds (run step World.init ([1000, 4000, 7000, 10000].map latePass)) (latePass 13000)) := by
  have hok : Along step OnTime World.init ([1000, 4000, 7000, 10000, 13000, 16000].map latePass) := by decide
  have hgoes := detector_in_step _ hok
  refine ⟨by decide, hgoes.1 _ _ [] rfl, ?_⟩
  refine hgoes.2 ([1000, 4000, 7000].map latePass) (latePass 10000) [] (latePass 13000) [latePass 16000] rfl
    ⟨_, rfl, by decide⟩ trivial ⟨_, rfl, by decide⟩ ?_ ?_
  · rintro ps ⟨⟩
    decide
  · rintro ps ⟨⟩
    decide

/-- The frame rate is throttled five milliseconds late; the next window is closed but not evaluated. -/
theorem late_throttle_out_of_step :
    ¬ ∀ passes, Along step Forward World.init passes →
      ∀ before p after, passes = before ++ p :: after → InStep (run step World.init before) p := by
  intro h
  have hforward : Along step Forward World.init ([1000, 4000, 7000, 10000, 13005, 16000].map latePass) := by
    decide
  obtain ⟨hstart, -⟩ := h _ hforward ([1000, 4000, 7000, 10000, 13005].map latePass) (latePass 16000) [] rfl _ rfl
  exact absurd hstart (by decide)

end Runs

end EtranProcessing.Capture.DegradeLoop
