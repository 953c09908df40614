import EtranProcessing.Capture.DegradeController
import EtranProcessing.Library.Histories
import EtranProcessing.Library.Runs

namespace EtranProcessing.Capture.DegradeLadder

open DegradeController Library.Histories Library.Runs

inductive Kind
  | skipped | empty | good | bad
  deriving DecidableEq

/-- What happened to a controller: a window with its end, its kind, the action
it was answered with and the profile at that time, or a report of an action. -/
inductive Seen
  | window (end' : Nat) (kind : Kind) (act : Action) (at' : Profile)
  | applied (act : Action)
  deriving DecidableEq

abbrev History := List Seen

def ladder : List Action := [.d0DropLateRaw, .d1FpsThrottle, .d2Raster540, .d3Raster480]

def Seen.rung : Seen → Option Action
  | .window _ _ act _ => if act ∈ ladder then some act else none
  | .applied _ => none

def rungs (h : History) : List Action := h.filterMap Seen.rung

def kindOf (ctl : Controller) (windowEnd : Nat) (wm : Window) : Kind :=
  let ctl := if ctl.windowOpen = false then ctl.resetWindowHistory (windowEnd - windowMs) else ctl
  if windowEnd < ctl.windowStartMs ∨ windowEnd - ctl.windowStartMs ≠ windowMs then .skipped
  else if wm.noData then .empty
  else if wm.bad ctl.currentFps then .bad
  else .good

inductive Event
  | window (windowEnd : Nat) (wm : Window)
  | applied (fps : Nat) (state : DegradeState) (generation now : Nat)

def reported (act : Action) (actualId : Profile) : Profile :=
  match act with
  | .d2Raster540 => .p540
  | .d3Raster480 => .p480
  | _ => actualId

structure Session where
  ctl : Controller
  last : Action
  history : History

/-- A report without an action to report is no event. -/
def step (s : Session) : Event → Session
  | .window windowEnd wm =>
      let answer := s.ctl.onWindow windowEnd wm
      ⟨answer.2, answer.1, s.history ++ [.window windowEnd (kindOf s.ctl windowEnd wm) answer.1 s.ctl.actualId]⟩
  | .applied fps state generation now =>
      if s.last ∈ ladder then
        ⟨s.ctl.notifyApplied (reported s.last s.ctl.actualId) fps state generation now, s.last,
          s.history ++ [.applied s.last]⟩
      else s

def startSession (ctl : Controller) (profile : Profile) (fps now : Nat) : Session := ⟨ctl.init profile fps now, .none, []⟩

def badRun (h : History) : Nat :=
  h.foldl (fun n seen =>
    match seen with
    | .window _ .bad .none _ => n + 1
    | .window _ .skipped _ _ | .applied _ => n
    | _ => 0) 0

def floorRun (h : History) : Nat :=
  h.foldl (fun n seen =>
    match seen with
    | .window _ .bad act _ => if act = .d0DropLateRaw ∨ act = .d3Raster480 then 0 else n + 1
    | .window _ .skipped _ _ | .applied _ => n
    | _ => 0) 0

def Deliberate (before : History) : Seen → Prop
  | .window _ kind act at' =>
      (act ∈ ladder → kind = .bad ∧ 2 ≤ badRun before + 1) ∧ (act = .d2Raster540 → at' = .p720) ∧
        (act = .d3Raster480 → at' = .p540)
  | .applied _ => True

def Stops (low : History → Profile → Prop) (before : History) : Seen → Prop
  | .window _ kind act at' => act = .stopHighLoad → kind = .bad ∧ 5 ≤ floorRun before + 1 ∧
      (.d0DropLateRaw ∈ rungs before ∨ .d3Raster480 ∈ rungs before) ∧ low before at'
  | .applied _ => True

def AtFloor (_ : History) (at' : Profile) : Prop := at' = .p480

def NearFloor (before : History) (at' : Profile) : Prop :=
  at' = .p480 ∨ at' = .p540 ∧ .d3Raster480 ∈ rungs before ∧ .applied .d3Raster480 ∉ before

def Apart (before : History) : Seen → Prop
  | .window end' _ act _ => act ∈ ladder →
      ∀ end'' kind act' at', .window end'' kind act' at' ∈ before → act' ∈ ladder → end'' + holdOffMs ≤ end'
  | .applied _ => True

def Seen.inTime : Seen → Prop
  | .window end' _ _ _ => end' + holdOffMs < 2 ^ 64
  | .applied _ => True

def done (ctl : Controller) : Action → Bool
  | .d0DropLateRaw => ctl.d0Done
  | .d1FpsThrottle => ctl.d1Done
  | .d2Raster540 => ctl.d2Done
  | .d3Raster480 => ctl.d3Done
  | _ => true

section Windows

variable {ctl : Controller} {windowEnd : Nat} {wm : Window}

/-- The answer to a bad window, once it has been counted. -/
def answer (ctl : Controller) (windowEnd : Nat) : Action × Controller :=
  if ctl.floorCounting = true ∧ (ctl.d0Done = true ∨ ctl.d3Done = true) ∧ floorBadWindows ≤ ctl.floorBadStreak then
    (.stopHighLoad, ctl.resetWindowHistory windowEnd)
  else if 2 ≤ ctl.consecutiveBad ∧ ctl.holdoffBlocks windowEnd = false then
    match ctl.chooseLadderStep with
    | (.none, ctl) => (.none, { ctl with windowStartMs := windowEnd })
    | (act, ctl) => (act, ctl.markActionTaken act windowEnd)
  else (.none, { ctl with windowStartMs := windowEnd })

theorem answer_good : answer (ctl.count false) windowEnd =
    (.none, { ctl with consecutiveBad := 0, floorBadStreak := 0, windowStartMs := windowEnd }) := by
  have hstreak : ¬floorBadWindows ≤ (ctl.count false).floorBadStreak := by simp [Controller.count, floorBadWindows]
  have hbad : ¬2 ≤ (ctl.count false).consecutiveBad := by simp [Controller.count]
  rw [answer, if_neg fun h => hstreak h.2.2, if_neg fun h => hbad h.1]
  rfl

theorem evaluate_eq : ctl.evaluate windowEnd wm =
    if wm.noData then (.none, { ctl with consecutiveBad := 0, floorBadStreak := 0 }.resetWindowHistory windowEnd)
    else answer (ctl.count (wm.bad ctl.currentFps)) windowEnd := rfl

theorem onWindow_kinds (hopen : ctl.windowOpen = true) : ctl.onWindow windowEnd wm =
    match kindOf ctl windowEnd wm with
    | .skipped => (.none, ctl)
    | .empty => (.none, { ctl with consecutiveBad := 0, floorBadStreak := 0 }.resetWindowHistory windowEnd)
    | .good => (.none, { ctl with consecutiveBad := 0, floorBadStreak := 0, windowStartMs := windowEnd })
    | .bad => answer (ctl.count true) windowEnd := by
  have hshut : ¬ctl.windowOpen = false := by simp [hopen]
  rw [Controller.onWindow, kindOf, if_neg hshut]
  by_cases hearly : windowEnd < ctl.windowStartMs
  · rw [if_pos hearly, if_pos (Or.inl hearly)]
  · by_cases hlength : windowEnd - ctl.windowStartMs ≠ windowMs
    · rw [if_neg hearly, if_pos hlength, if_pos (Or.inr hlength)]
    · rw [if_neg hearly, if_neg hlength, if_neg (not_or.mpr ⟨hearly, hlength⟩), evaluate_eq]
      cases wm.noData with
      | true => rfl
      | false =>
          cases hbad : wm.bad ctl.currentFps with
          | true => rfl
          | false => exact answer_good

theorem chooseLadderStep_cases (ctl : Controller) :
    (ctl.d0Done = false ∧ ctl.chooseLadderStep = (.d0DropLateRaw, ctl)) ∨
      (ctl.d0Done = true ∧ ctl.d1Done = false ∧ ctl.chooseLadderStep = (.d1FpsThrottle, ctl)) ∨
      (ctl.d0Done = true ∧ ctl.d2Done = false ∧ ctl.actualId = .p720 ∧
        ctl.chooseLadderStep = (.d2Raster540, { ctl with d1Done := true })) ∨
      (ctl.d0Done = true ∧ ctl.d3Done = false ∧ ctl.actualId = .p540 ∧
        ctl.chooseLadderStep = (.d3Raster480, { ctl with d1Done := true, d2Done := true })) ∨
      (ctl.d0Done = true ∧ ctl.chooseLadderStep = (.none, { ctl with d1Done := true, d2Done := true, d3Done := true })) := by
  unfold Controller.chooseLadderStep
  by_cases h0 : ctl.d0Done = false
  · exact .inl ⟨h0, if_pos h0⟩
  · rw [if_neg h0]
    have h0' : ctl.d0Done = true := Bool.not_eq_false _ ▸ h0
    by_cases h1 : ctl.d1Done = false ∧ (10 < ctl.currentFps ∨ 10 < ctl.startFps)
    · exact .inr (.inl ⟨h0', h1.1, if_pos h1⟩)
    · rw [if_neg h1]
      refine .inr (.inr ?_)
      by_cases h2 : ctl.d2Done = false ∧ ctl.actualId = .p720
      · exact .inl ⟨h0', h2.1, h2.2, if_pos h2⟩
      · refine .inr ?_
        by_cases h3 : ctl.d3Done = false ∧ ctl.actualId = .p540
        · exact .inl ⟨h0', h3.1, h3.2, (if_neg h2).trans (if_pos h3)⟩
        · exact .inr ⟨h0', (if_neg h2).trans (if_neg h3)⟩

def bump (kind : Kind) (n : Nat) : Nat :=
  match kind with
  | .skipped => n
  | .bad => n + 1
  | _ => 0

/-- What a window that is not answered with a rung leaves as it was. -/
structure Settled (ctl ctl' : Controller) : Prop where
  isOpen : ctl'.windowOpen = ctl.windowOpen ∨ ctl'.windowOpen = true
  actualId : ctl'.actualId = ctl.actualId
  currentFps : ctl'.currentFps = ctl.currentFps
  floorCounting : ctl'.floorCounting = ctl.floorCounting
  d0Done : ctl'.d0Done = ctl.d0Done
  d1Done : ctl.d1Done = true → ctl'.d1Done = true
  d2Done : ctl.d2Done = true → ctl'.d2Done = true
  d3Done : ctl.d3Done = true → ctl'.d3Done = true
  down : (ctl.d3Done = true → ctl.d2Done = true) → ctl'.d3Done = true → ctl'.d2Done = true
  holdoffActive : ctl'.holdoffActive = ctl.holdoffActive
  holdoffUntilMs : ctl'.holdoffUntilMs = ctl.holdoffUntilMs

/-- A rung is chosen where all rungs below it are done. -/
structure Chosen (ctl ctl' : Controller) (act : Action) : Prop where
  settled : Settled ctl ctl'
  below : ∃ lower upper, ladder = lower ++ act :: upper ∧ (∀ a ∈ lower, done ctl' a = true) ∧
    done ctl act = false ∧ done ctl' act = false
  raster540 : act = .d2Raster540 → ctl.actualId = .p720
  raster480 : act = .d3Raster480 → ctl.actualId = .p540 ∧ ctl'.d2Done = true

theorem Settled.trans {ctl ctl' ctl'' : Controller} (h : Settled ctl ctl') (h' : Settled ctl' ctl'') : Settled ctl ctl'' where
  isOpen := by
    rcases h'.isOpen with heq | htrue
    · rw [heq]
      exact h.isOpen
    · exact .inr htrue
  actualId := h'.actualId.trans h.actualId
  currentFps := h'.currentFps.trans h.currentFps
  floorCounting := h'.floorCounting.trans h.floorCounting
  d0Done := h'.d0Done.trans h.d0Done
  d1Done h1 := h'.d1Done (h.d1Done h1)
  d2Done h2 := h'.d2Done (h.d2Done h2)
  d3Done h3 := h'.d3Done (h.d3Done h3)
  down hdown := h'.down (h.down hdown)
  holdoffActive := h'.holdoffActive.trans h.holdoffActive
  holdoffUntilMs := h'.holdoffUntilMs.trans h.holdoffUntilMs

theorem settled_flags {d1 d2 d3 : Bool} (h1 : ctl.d1Done = true → d1 = true) (h2 : ctl.d2Done = true → d2 = true)
    (h3 : ctl.d3Done = true → d3 = true) (hdown : (ctl.d3Done = true → ctl.d2Done = true) → d3 = true → d2 = true) :
    Settled ctl { ctl with d1Done := d1, d2Done := d2, d3Done := d3 } :=
  ⟨.inl rfl, rfl, rfl, rfl, rfl, h1, h2, h3, hdown, rfl, rfl⟩

theorem Settled.refl (ctl : Controller) : Settled ctl ctl := settled_flags id id id id

theorem chooseLadderStep_spec (ctl : Controller) :
    (∃ ctl', ctl.chooseLadderStep = (.none, ctl') ∧ Settled ctl ctl' ∧ ctl.d0Done = true) ∨
      ∃ act ctl', ctl.chooseLadderStep = (act, ctl') ∧ act ∈ ladder ∧ Chosen ctl ctl' act := by
  rcases chooseLadderStep_cases ctl with
    ⟨h0, hstep⟩ | ⟨h0, h1, hstep⟩ | ⟨h0, h2, hat, hstep⟩ | ⟨h0, h3, hat, hstep⟩ | ⟨h0, hstep⟩
  · refine .inr ⟨_, _, hstep, by decide, .refl ctl, ⟨[], _, rfl, by simp, h0, h0⟩, by simp, by simp⟩
  · refine .inr ⟨_, _, hstep, by decide, .refl ctl, ⟨[.d0DropLateRaw], _, rfl, ?_, h1, h1⟩, by simp, by simp⟩
    exact List.forall_mem_singleton.mpr h0
  · refine .inr ⟨_, _, hstep, by decide, settled_flags (fun _ => rfl) id id id,
      ⟨[.d0DropLateRaw, .d1FpsThrottle], _, rfl, ?_, h2, h2⟩, fun _ => hat, by simp⟩
    exact List.forall_mem_cons.mpr ⟨h0, List.forall_mem_singleton.mpr rfl⟩
  · refine .inr ⟨_, _, hstep, by decide, settled_flags (fun _ => rfl) (fun _ => rfl) id fun _ _ => rfl,
      ⟨[.d0DropLateRaw, .d1FpsThrottle, .d2Raster540], [], rfl, ?_, h3, h3⟩, by simp, fun _ => ⟨hat, rfl⟩⟩
    exact List.forall_mem_cons.mpr ⟨h0, List.forall_mem_cons.mpr ⟨rfl, List.forall_mem_singleton.mpr rfl⟩⟩
  · exact .inl ⟨_, hstep, settled_flags (fun _ => rfl) (fun _ => rfl) (fun _ => rfl) fun _ _ => rfl, h0⟩

theorem chooseLadderStep_counts (ctl : Controller) : ctl.chooseLadderStep.2.consecutiveBad = ctl.consecutiveBad ∧
    ctl.chooseLadderStep.2.floorBadStreak = ctl.floorBadStreak := by
  rcases chooseLadderStep_cases ctl with ⟨-, hstep⟩ | ⟨-, -, hstep⟩ | ⟨-, -, -, hstep⟩ | ⟨-, -, -, hstep⟩ | ⟨-, hstep⟩
  all_goals
    rw [hstep]
    exact ⟨rfl, rfl⟩

theorem count_floor (ctl : Controller) : (ctl.count true).floorBadStreak ≤ ctl.floorBadStreak + 1 := by
  change (if ctl.floorCounting then min 255 (ctl.floorBadStreak + 1) else ctl.floorBadStreak) ≤ _
  split <;> omega

theorem count_fresh (h : ctl.floorBadStreak ≤ ctl.consecutiveBad) :
    (ctl.count true).floorBadStreak ≤ (ctl.count true).consecutiveBad ∨ 2 ≤ (ctl.count true).consecutiveBad := by
  change (if ctl.floorCounting then min 255 (ctl.floorBadStreak + 1) else ctl.floorBadStreak) ≤
    min 255 (ctl.consecutiveBad + 1) ∨ 2 ≤ min 255 (ctl.consecutiveBad + 1)
  split <;> omega

/-- What a window does to a controller that is open. -/
inductive Moved (ctl : Controller) (windowEnd : Nat) (kind : Kind) (act : Action) (ctl' : Controller) : Prop
  | quiet (hact : act = .none) (settled : Settled ctl ctl') (bad : ctl'.consecutiveBad ≤ bump kind ctl.consecutiveBad)
      (floor : ctl'.floorBadStreak ≤ bump kind ctl.floorBadStreak)
      (fresh : ctl.d0Done = false → ctl.holdoffActive = false → ctl.floorBadStreak ≤ ctl.consecutiveBad →
        ctl.consecutiveBad ≤ 1 → ctl'.consecutiveBad ≤ 1 ∧ ctl'.floorBadStreak ≤ ctl'.consecutiveBad)
  | stop (hact : act = .stopHighLoad) (hkind : kind = .bad) (counting : ctl.floorCounting = true)
      (settled : Settled ctl ctl') (bad : ctl'.consecutiveBad = 0) (floor : ctl'.floorBadStreak ≤ ctl.floorBadStreak + 1)
      (five : 5 ≤ ctl.floorBadStreak + 1)
  | rung (marked : Controller) (hact : act ∈ ladder) (hkind : kind = .bad) (two : 2 ≤ ctl.consecutiveBad + 1)
      (free : ctl.holdoffBlocks windowEnd = false) (chosen : Chosen ctl marked act)
      (floor : marked.floorBadStreak ≤ ctl.floorBadStreak + 1) (hctl : ctl' = marked.markActionTaken act windowEnd)

theorem answer_moved (ctl : Controller) (windowEnd : Nat) :
    Moved ctl windowEnd .bad (answer (ctl.count true) windowEnd).1 (answer (ctl.count true) windowEnd).2 := by
  have hbad : (ctl.count true).consecutiveBad ≤ ctl.consecutiveBad + 1 := Nat.min_le_right _ _
  have hfloor := count_floor ctl
  have hcounted : Settled ctl (ctl.count true) := ⟨.inl rfl, rfl, rfl, rfl, rfl, id, id, id, id, rfl, rfl⟩
  unfold answer
  by_cases hstop : (ctl.count true).floorCounting = true ∧
      ((ctl.count true).d0Done = true ∨ (ctl.count true).d3Done = true) ∧ floorBadWindows ≤ (ctl.count true).floorBadStreak
  · rw [if_pos hstop]
    exact .stop rfl rfl hstop.1 ⟨.inr rfl, rfl, rfl, rfl, rfl, id, id, id, id, rfl, rfl⟩ rfl hfloor
      (Nat.le_trans hstop.2.2 hfloor)
  · rw [if_neg hstop]
    by_cases hstep : 2 ≤ (ctl.count true).consecutiveBad ∧ (ctl.count true).holdoffBlocks windowEnd = false
    · rw [if_pos hstep]
      obtain ⟨hsame, hsame'⟩ := chooseLadderStep_counts (ctl.count true)
      rcases chooseLadderStep_spec (ctl.count true) with
        ⟨marked, hchoose, hsettled, h0⟩ | ⟨act, marked, hchoose, hact, hchosen⟩
      · rw [hchoose] at hsame hsame' ⊢
        refine .quiet rfl (hcounted.trans ⟨hsettled.1, hsettled.2, hsettled.3, hsettled.4, hsettled.5, hsettled.6, hsettled.7,
          hsettled.8, hsettled.9, hsettled.10, hsettled.11⟩) (hsame ▸ hbad) (hsame' ▸ hfloor) fun hnone => ?_
        exact absurd (h0.symm.trans hnone) (by simp)
      · rw [hchoose] at hsame' ⊢
        have hmoved : Moved ctl windowEnd .bad act (marked.markActionTaken act windowEnd) :=
          .rung marked hact rfl (Nat.le_trans hstep.1 hbad) hstep.2
            ⟨hcounted.trans hchosen.settled, hchosen.below, hchosen.raster540, hchosen.raster480⟩ (hsame' ▸ hfloor) rfl
        cases act with
        | none => exact absurd hact (by decide)
        | _ => exact hmoved
    · rw [if_neg hstep]
      refine .quiet rfl ⟨.inl rfl, rfl, rfl, rfl, rfl, id, id, id, id, rfl, rfl⟩ hbad hfloor fun _ hheld hle _ => ?_
      have hshort : ¬2 ≤ (ctl.count true).consecutiveBad := by
        refine fun htwo => hstep ⟨htwo, ?_⟩
        change (ctl.holdoffActive && _) = false
        rw [hheld, Bool.false_and]
      exact ⟨Nat.le_of_lt_succ (Nat.not_le.mp hshort), (count_fresh hle).resolve_right hshort⟩

theorem onWindow_moved (hopen : ctl.windowOpen = true) :
    Moved ctl windowEnd (kindOf ctl windowEnd wm) (ctl.onWindow windowEnd wm).1 (ctl.onWindow windowEnd wm).2 := by
  rw [onWindow_kinds hopen]
  cases kindOf ctl windowEnd wm with
  | skipped => exact .quiet rfl (.refl ctl) (Nat.le_refl _) (Nat.le_refl _) fun _ _ hle hone => ⟨hone, hle⟩
  | empty =>
      refine .quiet rfl ⟨.inr rfl, rfl, rfl, rfl, rfl, id, id, id, id, rfl, rfl⟩ (Nat.zero_le _) (Nat.zero_le _) ?_
      exact fun _ _ _ _ => ⟨Nat.zero_le _, Nat.le_refl _⟩
  | good =>
      refine .quiet rfl ⟨.inl rfl, rfl, rfl, rfl, rfl, id, id, id, id, rfl, rfl⟩ (Nat.zero_le _) (Nat.zero_le _) ?_
      exact fun _ _ _ _ => ⟨Nat.zero_le _, Nat.le_refl _⟩
  | bad => exact answer_moved ctl windowEnd

end Windows

section Entries

variable {h : History} {windowEnd : Nat} {kind : Kind} {act : Action} {at' : Profile}

@[simp] theorem rungs_append (h h' : History) : rungs (h ++ h') = rungs h ++ rungs h' := List.filterMap_append

theorem rungs_quiet (hact : act ∉ ladder) (h : History) : rungs (h ++ [.window windowEnd kind act at']) = rungs h := by
  rw [rungs_append]
  simp [rungs, Seen.rung, hact]

theorem rungs_rung (hact : act ∈ ladder) (h : History) :
    rungs (h ++ [.window windowEnd kind act at']) = rungs h ++ [act] := by
  rw [rungs_append]
  simp [rungs, Seen.rung, hact]

theorem rungs_applied (act : Action) (h : History) : rungs (h ++ [.applied act]) = rungs h := by
  rw [rungs_append]
  simp [rungs, Seen.rung]

theorem badRun_none : badRun (h ++ [.window windowEnd kind .none at']) = bump kind (badRun h) := by
  rw [badRun, List.foldl_append]
  cases kind <;> rfl

theorem floorRun_window (hkind : kind ≠ .bad ∨ act ≠ .d0DropLateRaw ∧ act ≠ .d3Raster480) :
    floorRun (h ++ [.window windowEnd kind act at']) = bump kind (floorRun h) := by
  rw [floorRun, List.foldl_append]
  cases kind with
  | bad =>
      have hact : ¬(act = .d0DropLateRaw ∨ act = .d3Raster480) := by simpa using hkind
      simp only [List.foldl_cons, List.foldl_nil, if_neg hact]
      rfl
  | _ => rfl

theorem floorRun_applied (act : Action) : floorRun (h ++ [.applied act]) = floorRun h := by
  rw [floorRun, List.foldl_append]
  rfl

end Entries

section Climbing

variable {ctl ctl' : Controller} {acts lower upper : List Action} {act : Action}

def Climbed (ctl : Controller) (acts : List Action) : Prop :=
  ∃ lower upper, ladder = lower ++ upper ∧ acts.Sublist lower ∧ ∀ a ∈ lower, done ctl a = true

theorem Climbed.sublist (h : Climbed ctl acts) : acts.Sublist ladder := by
  obtain ⟨lower, upper, hsplit, hsub, -⟩ := h
  rw [hsplit]
  exact hsub.trans (List.sublist_append_left lower upper)

theorem Climbed.done (h : Climbed ctl acts) : ∀ a ∈ acts, done ctl a = true := by
  obtain ⟨lower, upper, -, hsub, hdone⟩ := h
  exact fun a ha => hdone a (hsub.subset ha)

theorem Climbed.mono (h : Climbed ctl acts)
    (hdone : ∀ a, DegradeLadder.done ctl a = true → DegradeLadder.done ctl' a = true) : Climbed ctl' acts := by
  obtain ⟨lower, upper, hsplit, hsub, hlower⟩ := h
  exact ⟨lower, upper, hsplit, hsub, fun a ha => hdone a (hlower a ha)⟩

theorem Climbed.next (h : Climbed ctl acts) (hsplit : ladder = lower ++ act :: upper)
    (hact : DegradeLadder.done ctl act = false)
    (hlower : ∀ a ∈ lower, DegradeLadder.done ctl' a = true) (hnow : DegradeLadder.done ctl' act = true) :
    Climbed ctl' (acts ++ [act]) := by
  obtain ⟨taken, rest, htaken, hsub, hdone⟩ := h
  have hshort : taken.length ≤ lower.length := by
    by_contra hlong
    have hleading : lower ++ [act] <+: taken := by
      refine List.prefix_of_prefix_length_le ⟨upper, by simp [hsplit]⟩ ⟨rest, htaken.symm⟩ ?_
      rw [List.length_append, List.length_singleton]
      omega
    have hmem : act ∈ taken := hleading.subset (List.mem_append_right _ (List.mem_singleton_self _))
    exact absurd (hdone act hmem) (by simp [hact])
  have hleading : taken <+: lower :=
    List.prefix_of_prefix_length_le ⟨rest, htaken.symm⟩ ⟨act :: upper, hsplit.symm⟩ hshort
  refine ⟨lower ++ [act], upper, by simp [hsplit], (hsub.trans hleading.sublist).append (List.Sublist.refl _), ?_⟩
  intro a ha
  rcases List.mem_append.mp ha with hin | hlast
  · exact hlower a hin
  · exact List.mem_singleton.mp hlast ▸ hnow

end Climbing

section Sessions

variable {s : Session} {ctl' : Controller} {windowEnd : Nat} {kind : Kind} {act : Action} {at' : Profile} {h : History}

structure Inv (s : Session) : Prop where
  isOpen : s.ctl.windowOpen = true
  bad : s.ctl.consecutiveBad ≤ badRun s.history
  floor : s.ctl.floorBadStreak ≤ floorRun s.history
  fresh : s.ctl.d0Done = false → s.ctl.holdoffActive = false ∧ s.ctl.floorBadStreak ≤ s.ctl.consecutiveBad ∧
    s.ctl.consecutiveBad ≤ 1 ∧ s.last ∉ ladder
  begun : s.ctl.d0Done = true → .d0DropLateRaw ∈ rungs s.history
  climbed : Climbed s.ctl (rungs s.history)
  lastTaken : s.last ∈ ladder → s.last ∈ rungs s.history
  reportTaken : ∀ act, .applied act ∈ s.history → act ∈ rungs s.history
  down : s.ctl.d3Done = true → s.ctl.d2Done = true
  second : s.last = .d2Raster540 → s.ctl.actualId ≠ .p480 ∧ s.ctl.d3Done = false
  third : .d3Raster480 ∈ rungs s.history → NearFloor s.history s.ctl.actualId
  floorAt : s.ctl.floorCounting = true → NearFloor s.history s.ctl.actualId
  held : (∀ seen ∈ s.history, seen.inTime) → ∀ windowEnd kind act at', .window windowEnd kind act at' ∈ s.history →
    act ∈ ladder → s.ctl.holdoffActive = true ∧ windowEnd + holdOffMs ≤ s.ctl.holdoffUntilMs
  laws : Everywhere Deliberate s.history
  stops : Everywhere (Stops NearFloor) s.history
  apart : (∀ seen ∈ s.history, seen.inTime) → Everywhere Apart s.history

theorem NearFloor.window (hnear : NearFloor h at') (at'' : Profile) :
    NearFloor (h ++ [.window windowEnd kind act at'']) at' := by
  rcases hnear with hlow | ⟨hmiddle, htaken, hunreported⟩
  · exact .inl hlow
  · refine .inr ⟨hmiddle, ?_, ?_⟩
    · rw [rungs_append]
      exact List.mem_append_left _ htaken
    · intro hin
      rcases List.mem_append.mp hin with hold | hnew
      · exact hunreported hold
      · exact absurd (List.mem_singleton.mp hnew) (by simp)

theorem NearFloor.applied (hnear : NearFloor h at') (hact : act ≠ .d3Raster480) : NearFloor (h ++ [.applied act]) at' := by
  rcases hnear with hlow | ⟨hmiddle, htaken, hunreported⟩
  · exact .inl hlow
  · refine .inr ⟨hmiddle, by rwa [rungs_applied], fun hin => ?_⟩
    rcases List.mem_append.mp hin with hold | hnew
    · exact hunreported hold
    · exact hact (Seen.applied.inj (List.mem_singleton.mp hnew)).symm

theorem applied_mem_window {a : Action} (hin : .applied a ∈ h ++ [Seen.window windowEnd kind act at']) :
    .applied a ∈ h := by
  rcases List.mem_append.mp hin with hold | hnew
  · exact hold
  · exact absurd (List.mem_singleton.mp hnew) (by simp)

theorem Settled.done (hsettled : Settled s.ctl ctl') (a : Action) (ha : DegradeLadder.done s.ctl a = true) :
    DegradeLadder.done ctl' a = true := by
  cases a with
  | d0DropLateRaw => exact hsettled.d0Done.trans ha
  | d1FpsThrottle => exact hsettled.d1Done ha
  | d2Raster540 => exact hsettled.d2Done ha
  | d3Raster480 => exact hsettled.d3Done ha
  | none => rfl
  | stopHighLoad => rfl

theorem Inv.settled (hinv : Inv s) (hact : act ∉ ladder) (hsettled : Settled s.ctl ctl')
    (hbad : ctl'.consecutiveBad ≤ badRun (s.history ++ [.window windowEnd kind act s.ctl.actualId]))
    (hfloor : ctl'.floorBadStreak ≤ floorRun (s.history ++ [.window windowEnd kind act s.ctl.actualId]))
    (hfresh : s.ctl.d0Done = false → ctl'.consecutiveBad ≤ 1 ∧ ctl'.floorBadStreak ≤ ctl'.consecutiveBad)
    (hstop : Stops NearFloor s.history (.window windowEnd kind act s.ctl.actualId)) :
    Inv ⟨ctl', act, s.history ++ [.window windowEnd kind act s.ctl.actualId]⟩ where
  isOpen := hsettled.isOpen.elim (fun hsame => hsame.trans hinv.isOpen) id
  bad := hbad
  floor := hfloor
  fresh h0 := by
    have h0' : s.ctl.d0Done = false := hsettled.d0Done.symm.trans h0
    exact ⟨hsettled.holdoffActive.trans (hinv.fresh h0').1, (hfresh h0').2, (hfresh h0').1, hact⟩
  begun h0 := by
    rw [rungs_quiet hact]
    exact hinv.begun (hsettled.d0Done.symm.trans h0)
  climbed := by
    rw [rungs_quiet hact]
    exact hinv.climbed.mono hsettled.done
  lastTaken hin := absurd hin hact
  reportTaken a hin := by
    rw [rungs_quiet hact]
    exact hinv.reportTaken a (applied_mem_window hin)
  down := hsettled.down hinv.down
  second heq := absurd (heq ▸ hact : Action.d2Raster540 ∉ ladder) (by decide)
  third hin := by
    rw [rungs_quiet hact] at hin
    rw [hsettled.actualId]
    exact (hinv.third hin).window _
  floorAt hcounting := by
    rw [hsettled.actualId]
    exact (hinv.floorAt (hsettled.floorCounting.symm.trans hcounting)).window _
  held hin windowEnd' kind' act' at' hseen hact' := by
    rw [hsettled.holdoffActive, hsettled.holdoffUntilMs]
    rcases List.mem_append.mp hseen with hold | hnew
    · exact hinv.held (fun seen hmem => hin seen (List.mem_append_left _ hmem)) windowEnd' kind' act' at' hold hact'
    · obtain ⟨-, -, rfl, -⟩ := Seen.window.inj (List.mem_singleton.mp hnew)
      exact absurd hact' hact
  laws := by
    refine hinv.laws.concat ⟨fun hin => absurd hin hact, fun heq => ?_, fun heq => ?_⟩
    · exact absurd (heq ▸ hact : Action.d2Raster540 ∉ ladder) (by decide)
    · exact absurd (heq ▸ hact : Action.d3Raster480 ∉ ladder) (by decide)
  stops := hinv.stops.concat hstop
  apart hin := (hinv.apart fun seen hmem => hin seen (List.mem_append_left _ hmem)).concat fun hact' => absurd hact' hact

theorem markActionTaken_spec (ctl : Controller) (hact : act ∈ ladder) :
    let ctl' := ctl.markActionTaken act windowEnd
    ctl'.windowOpen = true ∧ ctl'.consecutiveBad = 0 ∧ ctl'.actualId = ctl.actualId ∧ ctl'.holdoffActive = true ∧
      ctl'.holdoffUntilMs = (windowEnd + holdOffMs) % 2 ^ 64 ∧ DegradeLadder.done ctl' act = true ∧
      (∀ a, DegradeLadder.done ctl a = true → DegradeLadder.done ctl' a = true) ∧
      (act ≠ .d3Raster480 → ctl'.d3Done = ctl.d3Done) ∧
      (ctl'.floorBadStreak = if act = .d0DropLateRaw ∨ act = .d3Raster480 then 0 else ctl.floorBadStreak) ∧
      (ctl'.floorCounting = true → ctl.floorCounting = true ∨ ctl.actualId = .p480 ∨ act = .d3Raster480) := by
  cases act with
  | none | stopHighLoad => exact absurd hact (by decide)
  | d0DropLateRaw =>
      refine ⟨rfl, rfl, rfl, rfl, rfl, rfl, fun a ha => ?_, fun _ => rfl, rfl, fun hcounting => ?_⟩
      · cases a <;> first | exact ha | rfl
      · rcases Bool.or_eq_true .. |>.mp hcounting with hold | hlow
        · exact .inl hold
        · exact .inr (.inl (of_decide_eq_true hlow))
  | d1FpsThrottle | d2Raster540 =>
      refine ⟨rfl, rfl, rfl, rfl, rfl, rfl, fun a ha => ?_, fun _ => rfl, rfl, .inl⟩
      cases a <;> first | exact ha | rfl
  | d3Raster480 =>
      refine ⟨rfl, rfl, rfl, rfl, rfl, rfl, fun a ha => ?_, fun hne => absurd rfl hne, rfl, fun _ => .inr (.inr rfl)⟩
      cases a <;> first | exact ha | rfl

theorem Inv.rung (hinv : Inv s) (marked : Controller) (hact : act ∈ ladder) (htwo : 2 ≤ s.ctl.consecutiveBad + 1)
    (hfree : s.ctl.holdoffBlocks windowEnd = false) (hchosen : Chosen s.ctl marked act)
    (hfloor : marked.floorBadStreak ≤ s.ctl.floorBadStreak + 1) :
    Inv ⟨marked.markActionTaken act windowEnd, act, s.history ++ [.window windowEnd .bad act s.ctl.actualId]⟩ := by
  obtain ⟨hopen, hzero, hprofile, hactive, huntil, hdone, hmono, hd3, hstreak, hcounting⟩ :=
    @markActionTaken_spec windowEnd act marked hact
  obtain ⟨lower, upper, hsplit, hlower, hnot, hnot'⟩ := hchosen.below
  have hrungs := @rungs_rung windowEnd .bad act s.ctl.actualId hact s.history
  have hfresh : .d3Raster480 ∈ rungs s.history → act ≠ .d3Raster480 := by
    rintro hin rfl
    exact absurd (hinv.climbed.done _ hin) (by simp [hnot])
  have hclimbed : Climbed (marked.markActionTaken act windowEnd) (rungs s.history ++ [act]) :=
    hinv.climbed.next hsplit hnot (fun a ha => hmono a (hlower a ha)) hdone
  have hunreported : .applied .d3Raster480 ∈ s.history → act ≠ .d3Raster480 := fun hin => hfresh (hinv.reportTaken _ hin)
  have hthird : .d3Raster480 ∈ rungs s.history ++ [act] →
      NearFloor (s.history ++ [.window windowEnd .bad act s.ctl.actualId]) s.ctl.actualId := by
    intro hin
    rcases List.mem_append.mp hin with hold | hnew
    · exact (hinv.third hold).window _
    · have heq : act = .d3Raster480 := (List.mem_singleton.mp hnew).symm
      refine .inr ⟨(hchosen.raster480 heq).1, by rwa [hrungs], fun happlied => ?_⟩
      exact hunreported (applied_mem_window happlied) heq
  have hheld : (∀ seen ∈ s.history, seen.inTime) →
      ∀ windowEnd' kind act' at', .window windowEnd' kind act' at' ∈ s.history → act' ∈ ladder →
        windowEnd' + holdOffMs ≤ windowEnd := by
    intro hin windowEnd' kind act' at' hseen hact'
    obtain ⟨hwas, hle⟩ := hinv.held hin windowEnd' kind act' at' hseen hact'
    have hpast : ¬windowEnd < s.ctl.holdoffUntilMs := by simpa [Controller.holdoffBlocks, hwas] using hfree
    omega
  exact {
    isOpen := hopen
    bad := by
      change (marked.markActionTaken act windowEnd).consecutiveBad ≤ _
      omega
    floor := by
      change (marked.markActionTaken act windowEnd).floorBadStreak ≤ _
      rw [hstreak]
      by_cases hreset : act = .d0DropLateRaw ∨ act = .d3Raster480
      · rw [if_pos hreset]
        exact Nat.zero_le _
      · rw [if_neg hreset, floorRun_window (.inr (not_or.mp hreset))]
        exact Nat.le_trans hfloor (Nat.succ_le_succ hinv.floor)
    fresh := fun h0 => by
      -- the first rung is done once any rung has been taken
      have h0' : (marked.markActionTaken act windowEnd).d0Done = true := by
        obtain ⟨taken, rest, htaken, hsub, hall⟩ := hclimbed
        cases taken with
        | nil => exact absurd (hsub.subset (List.mem_append_right _ (List.mem_singleton_self act))) List.not_mem_nil
        | cons a taken =>
            have ha : a = .d0DropLateRaw := (List.cons.inj htaken).1.symm
            have hfirst := hall a List.mem_cons_self
            rw [ha] at hfirst
            exact hfirst
      exact absurd (h0.symm.trans h0') (by simp)
    begun := fun h0 => by
      rw [hrungs]
      by_cases hzeroth : act = .d0DropLateRaw
      · exact List.mem_append_right _ (List.mem_singleton.mpr hzeroth.symm)
      · refine List.mem_append_left _ (hinv.begun (hchosen.settled.d0Done.symm.trans ?_))
        cases lower with
        | nil => exact absurd (List.cons.inj hsplit).1.symm hzeroth
        | cons a lower =>
            have hfirst := hlower a List.mem_cons_self
            rw [← (List.cons.inj hsplit).1] at hfirst
            exact hfirst
    climbed := hrungs ▸ hclimbed
    lastTaken := fun _ => hrungs ▸ List.mem_append_right _ (List.mem_singleton_self act)
    reportTaken := fun a hin => hrungs ▸ List.mem_append_left _ (hinv.reportTaken a (applied_mem_window hin))
    down := fun h3 => by
      by_cases heq : act = .d3Raster480
      · exact hmono .d2Raster540 (hchosen.raster480 heq).2
      · exact hmono .d2Raster540 (hchosen.settled.down hinv.down ((hd3 heq).symm.trans h3))
    second := fun heq => by
      have heq' : act = .d2Raster540 := heq
      subst heq'
      refine ⟨?_, ?_⟩
      · change (marked.markActionTaken .d2Raster540 windowEnd).actualId ≠ .p480
        rw [hprofile, hchosen.settled.actualId, hchosen.raster540 rfl]
        decide
      · change (marked.markActionTaken .d2Raster540 windowEnd).d3Done = false
        rw [hd3 (by decide)]
        have hd2 : marked.d2Done = false := hnot'
        exact Bool.eq_false_iff.mpr fun h3 => absurd (hchosen.settled.down hinv.down h3) (by simp [hd2])
    third := fun hin => by
      change NearFloor _ (marked.markActionTaken act windowEnd).actualId
      rw [hprofile, hchosen.settled.actualId]
      exact hthird (hrungs ▸ hin)
    floorAt := fun hcount => by
      change NearFloor _ (marked.markActionTaken act windowEnd).actualId
      rw [hprofile, hchosen.settled.actualId]
      rcases hcounting hcount with hold | hlow | hlast
      · exact (hinv.floorAt (hchosen.settled.floorCounting.symm.trans hold)).window _
      · exact .inl (hchosen.settled.actualId.symm.trans hlow)
      · exact hthird (List.mem_append_right _ (List.mem_singleton.mpr hlast.symm))
    held := fun hin windowEnd' kind act' at' hseen hact' => by
      change (marked.markActionTaken act windowEnd).holdoffActive = true ∧
        _ ≤ (marked.markActionTaken act windowEnd).holdoffUntilMs
      have hlast : windowEnd + holdOffMs < 2 ^ 64 := hin _ (List.mem_append_right _ (List.mem_singleton_self _))
      rw [huntil, Nat.mod_eq_of_lt hlast]
      refine ⟨hactive, ?_⟩
      rcases List.mem_append.mp hseen with hold | hnew
      · have hle := hheld (fun seen hmem => hin seen (List.mem_append_left _ hmem)) windowEnd' kind act' at' hold hact'
        omega
      · obtain ⟨rfl, -⟩ := Seen.window.inj (List.mem_singleton.mp hnew)
        exact Nat.le_refl _
    laws := by
      have hbad : 2 ≤ badRun s.history + 1 := Nat.le_trans htwo (Nat.succ_le_succ hinv.bad)
      exact hinv.laws.concat ⟨fun _ => ⟨rfl, hbad⟩, hchosen.raster540, fun heq => (hchosen.raster480 heq).1⟩
    stops := hinv.stops.concat fun heq => absurd (heq ▸ hact : Action.stopHighLoad ∈ ladder) (by decide)
    apart := fun hin => by
      have hbefore : ∀ seen ∈ s.history, seen.inTime := fun seen hmem => hin seen (List.mem_append_left _ hmem)
      exact (hinv.apart hbefore).concat fun _ => hheld hbefore }

theorem bump_mono (kind : Kind) {n m : Nat} (hle : n ≤ m) : bump kind n ≤ bump kind m := by
  cases kind with
  | skipped => exact hle
  | bad => exact Nat.succ_le_succ hle
  | empty => exact Nat.le_refl 0
  | good => exact Nat.le_refl 0

theorem notifyApplied_spec (ctl : Controller) (profile : Profile) (fps : Nat) (state : DegradeState) (generation now : Nat) :
    let ctl' := ctl.notifyApplied profile fps state generation now
    ctl'.windowOpen = true ∧ ctl'.consecutiveBad = 0 ∧ ctl'.actualId = profile ∧ ctl'.currentFps ≤ ctl.currentFps ∧
      ctl'.d0Done = ctl.d0Done ∧ (ctl.d1Done = true → ctl'.d1Done = true) ∧ ctl'.d2Done = ctl.d2Done ∧
      ctl'.d3Done = ctl.d3Done ∧ ctl'.floorBadStreak ≤ ctl.floorBadStreak ∧
      (ctl'.floorCounting = true → ctl.floorCounting = true ∨ profile = .p480) ∧
      ctl'.holdoffActive = ctl.holdoffActive ∧ ctl'.holdoffUntilMs = ctl.holdoffUntilMs := by
  have hslower : (if ctl.currentFps < fps then ctl.currentFps else fps) ≤ ctl.currentFps := by
    split <;> omega
  simp only [Controller.notifyApplied]
  generalize (if ctl.currentFps < fps then ctl.currentFps else fps) = fps' at hslower
  by_cases hslow : fps' ≤ 10
  · by_cases hlow : profile = .p480 ∧ ctl.floorCounting = false
    · simp only [if_pos hslow, if_pos hlow]
      exact ⟨rfl, rfl, rfl, hslower, rfl, fun _ => rfl, rfl, rfl, Nat.zero_le _, fun _ => .inr hlow.1, rfl, rfl⟩
    · simp only [if_pos hslow, if_neg hlow]
      exact ⟨rfl, rfl, rfl, hslower, rfl, fun _ => rfl, rfl, rfl, Nat.le_refl _, .inl, rfl, rfl⟩
  · by_cases hlow : profile = .p480 ∧ ctl.floorCounting = false
    · simp only [if_neg hslow, if_pos hlow]
      exact ⟨rfl, rfl, rfl, hslower, rfl, id, rfl, rfl, Nat.zero_le _, fun _ => .inr hlow.1, rfl, rfl⟩
    · simp only [if_neg hslow, if_neg hlow]
      exact ⟨rfl, rfl, rfl, hslower, rfl, id, rfl, rfl, Nat.le_refl _, .inl, rfl, rfl⟩

theorem Inv.applied (hinv : Inv s) (hlast : s.last ∈ ladder) (fps : Nat) (state : DegradeState) (generation now : Nat) :
    Inv ⟨s.ctl.notifyApplied (reported s.last s.ctl.actualId) fps state generation now, s.last,
      s.history ++ [.applied s.last]⟩ := by
  obtain ⟨hopen, hzero, hprofile, -, h0, h1, h2, h3, hfloor, hcounting, hactive, huntil⟩ :=
    notifyApplied_spec s.ctl (reported s.last s.ctl.actualId) fps state generation now
  generalize s.ctl.notifyApplied (reported s.last s.ctl.actualId) fps state generation now = ctl' at *
  have hdone : ∀ a, DegradeLadder.done s.ctl a = true → DegradeLadder.done ctl' a = true := by
    intro a ha
    cases a with
    | d0DropLateRaw => exact h0.trans ha
    | d1FpsThrottle => exact h1 ha
    | d2Raster540 => exact h2.trans ha
    | d3Raster480 => exact h3.trans ha
    | none => rfl
    | stopHighLoad => rfl
  have hsecond : s.last = .d2Raster540 → .d3Raster480 ∉ rungs s.history := by
    intro heq hin
    exact absurd (hinv.climbed.done _ hin) (by simp [DegradeLadder.done, (hinv.second heq).2])
  -- a report keeps a profile that is near the floor there, or brings it to the floor
  have hnear : NearFloor s.history s.ctl.actualId →
      NearFloor (s.history ++ [.applied s.last]) (reported s.last s.ctl.actualId) := by
    intro hnear
    cases hcase : s.last with
    | d2Raster540 =>
        rcases hnear with hlow | ⟨-, htaken, -⟩
        · exact absurd hlow (hinv.second hcase).1
        · exact absurd htaken (hsecond hcase)
    | d3Raster480 => exact .inl rfl
    | _ => exact hnear.applied (by decide)
  exact {
    isOpen := hopen
    bad := by
      change ctl'.consecutiveBad ≤ _
      omega
    floor := by
      rw [floorRun_applied]
      exact Nat.le_trans hfloor hinv.floor
    fresh := fun hnone => absurd hlast (hinv.fresh (h0.symm.trans hnone)).2.2.2
    begun := fun hbegun => rungs_applied s.last s.history ▸ hinv.begun (h0.symm.trans hbegun)
    climbed := rungs_applied s.last s.history ▸ hinv.climbed.mono hdone
    lastTaken := fun hin => rungs_applied s.last s.history ▸ hinv.lastTaken hin
    reportTaken := fun a hin => by
      rw [rungs_applied]
      rcases List.mem_append.mp hin with hold | hnew
      · exact hinv.reportTaken a hold
      · obtain rfl := Seen.applied.inj (List.mem_singleton.mp hnew)
        exact hinv.lastTaken hlast
    down := fun htrue => h2.trans (hinv.down (h3.symm.trans htrue))
    second := fun heq => by
      have heq' : s.last = .d2Raster540 := heq
      refine ⟨?_, h3.trans (hinv.second heq').2⟩
      change ctl'.actualId ≠ .p480
      rw [hprofile, heq']
      exact (by decide : Profile.p540 ≠ Profile.p480)
    third := fun hin => by
      rw [rungs_applied] at hin
      exact hprofile ▸ hnear (hinv.third hin)
    floorAt := fun hcount => by
      change NearFloor _ ctl'.actualId
      rw [hprofile]
      rcases hcounting hcount with hold | hlow
      · exact hnear (hinv.floorAt hold)
      · exact .inl hlow
    held := fun hin windowEnd' kind act' at' hseen hact' => by
      change ctl'.holdoffActive = true ∧ _ ≤ ctl'.holdoffUntilMs
      rw [hactive, huntil]
      rcases List.mem_append.mp hseen with hold | hnew
      · exact hinv.held (fun seen hmem => hin seen (List.mem_append_left _ hmem)) windowEnd' kind act' at' hold hact'
      · exact absurd (List.mem_singleton.mp hnew) (by simp)
    laws := hinv.laws.concat trivial
    stops := hinv.stops.concat trivial
    apart := fun hin => (hinv.apart fun seen hmem => hin seen (List.mem_append_left _ hmem)).concat trivial }

theorem Inv.step (hinv : Inv s) (e : Event) : Inv (DegradeLadder.step s e) := by
  cases e with
  | applied fps state generation now =>
      rw [DegradeLadder.step]
      split
      next hlast => exact hinv.applied hlast fps state generation now
      next => exact hinv
  | window windowEnd wm =>
      simp only [DegradeLadder.step]
      cases @onWindow_moved s.ctl windowEnd wm hinv.isOpen with
      | quiet hact settled bad floor fresh =>
          rw [hact]
          refine hinv.settled (by decide) settled ?_ ?_ (fun h0 => ?_) fun heq => absurd heq (by decide)
          · rw [badRun_none]
            exact Nat.le_trans bad (bump_mono _ hinv.bad)
          · rw [floorRun_window (.inr (by decide))]
            exact Nat.le_trans floor (bump_mono _ hinv.floor)
          · obtain ⟨hfree, hle, hone, -⟩ := hinv.fresh h0
            exact fresh h0 hfree hle hone
      | stop hact hkind counting settled bad floor five =>
          rw [hact, hkind]
          have hbegun : s.ctl.d0Done = true := by
            cases h0 : s.ctl.d0Done with
            | true => rfl
            | false =>
                obtain ⟨-, hle, hone, -⟩ := hinv.fresh h0
                omega
          refine hinv.settled (by decide) settled ?_ ?_ (fun h0 => absurd (hbegun.symm.trans h0) (by decide)) fun _ => ?_
          · rw [bad]
            exact Nat.zero_le _
          · rw [floorRun_window (.inr (by decide))]
            exact Nat.le_trans floor (Nat.succ_le_succ hinv.floor)
          · exact ⟨rfl, Nat.le_trans five (Nat.succ_le_succ hinv.floor), .inl (hinv.begun hbegun), hinv.floorAt counting⟩
      | rung marked hact hkind two free chosen floor hctl =>
          rw [hctl, hkind]
          exact hinv.rung marked hact two free chosen floor

end Sessions

section Runs

theorem inv_start (ctl : Controller) {profile : Profile} {fps : Nat} (hfps : fps ≠ 0) (hprofile : profile ≠ .p540)
    (now : Nat) : Inv (startSession ctl profile fps now) := by
  have haccepted : ¬(fps = 0 ∨ profile = .p540) := not_or.mpr ⟨hfps, hprofile⟩
  rw [startSession, Controller.init, if_neg haccepted]
  exact {
    isOpen := rfl
    bad := Nat.zero_le _
    floor := Nat.zero_le _
    fresh := fun _ => ⟨rfl, Nat.le_refl _, Nat.zero_le _, (by decide : Action.none ∉ ladder)⟩
    begun := fun hbegun => absurd hbegun Bool.false_ne_true
    climbed := ⟨[], ladder, rfl, List.Sublist.refl _, fun a ha => absurd ha List.not_mem_nil⟩
    lastTaken := fun hin => absurd hin (by decide : Action.none ∉ ladder)
    reportTaken := fun a hin => absurd hin List.not_mem_nil
    down := fun htrue => htrue
    second := fun heq => absurd heq (by decide : Action.none ≠ .d2Raster540)
    third := fun hin => absurd hin List.not_mem_nil
    floorAt := fun hcounting => .inl (of_decide_eq_true hcounting)
    held := fun _ _ _ _ _ hseen => absurd hseen List.not_mem_nil
    laws := everywhere_nil
    stops := everywhere_nil
    apart := fun _ => everywhere_nil }

theorem Inv.run {s : Session} (hinv : Inv s) (events : List Event) : Inv (Library.Runs.run DegradeLadder.step s events) :=
  run_kept (fun _ e h => h.step e) events s hinv

theorem markActionTaken_fps (ctl : Controller) (act : Action) (windowEnd : Nat) :
    (ctl.markActionTaken act windowEnd).currentFps = ctl.currentFps := by
  cases act <;> rfl

theorem onWindow_fps {s : Session} (hinv : Inv s) (windowEnd : Nat) (wm : Window) :
    (s.ctl.onWindow windowEnd wm).2.currentFps = s.ctl.currentFps := by
  cases @onWindow_moved s.ctl windowEnd wm hinv.isOpen with
  | quiet _ settled => exact settled.currentFps
  | stop _ _ _ settled => exact settled.currentFps
  | rung _ _ _ _ _ chosen _ hctl =>
      rw [hctl, markActionTaken_fps, chosen.settled.currentFps]

theorem step_fps {s : Session} (hinv : Inv s) (e : Event) : (step s e).ctl.currentFps ≤ s.ctl.currentFps := by
  cases e with
  | window windowEnd wm => exact Nat.le_of_eq (onWindow_fps hinv windowEnd wm)
  | applied fps state generation now =>
      rw [step]
      split
      next => exact (notifyApplied_spec s.ctl _ fps state generation now).2.2.2.1
      next => exact Nat.le_refl _

theorem run_fps {s : Session} (hinv : Inv s) (events : List Event) :
    (Library.Runs.run step s events).ctl.currentFps ≤ s.ctl.currentFps := by
  induction events generalizing s with
  | nil => exact Nat.le_refl _
  | cons e events ih => exact Nat.le_trans (ih (hinv.step e)) (step_fps hinv e)

/-- What every session keeps to. A STOP at 540p needs a D3 that was not
reported, and rungs closer together than the hold-off time need window ends
with which the end of the hold-off passes 2^64. -/
theorem ladder_deliberate (ctl : Controller) {profile : Profile} {fps : Nat} (hfps : fps ≠ 0) (hprofile : profile ≠ .p540)
    (now : Nat) (events : List Event) :
    let start := startSession ctl profile fps now
    let h := (Library.Runs.run step start events).history
    (rungs h).Sublist ladder ∧ Everywhere Deliberate h ∧ Everywhere (Stops NearFloor) h ∧
      ((∀ seen ∈ h, seen.inTime) → Everywhere Apart h) ∧
      ∀ first second, events = first ++ second →
        (Library.Runs.run step start events).ctl.currentFps ≤ (Library.Runs.run step start first).ctl.currentFps := by
  have hinv := (inv_start ctl hfps hprofile now).run events
  refine ⟨hinv.climbed.sublist, hinv.laws, hinv.stops, hinv.apart, ?_⟩
  rintro first second rfl
  rw [run_append]
  exact run_fps ((inv_start ctl hfps hprofile now).run first) second

def overloaded : Window := ⟨⟨0, 1⟩, ⟨0, 0⟩, ⟨0, 0⟩, false, 0, 0, []⟩

def windows (start count : Nat) : List Event :=
  (List.range count).map fun n => .window (start + windowMs * (n + 1)) overloaded

def unreported : List Event :=
  windows 0 2 ++ [.applied 10 .nominal 1 6000] ++ windows 6000 2 ++ [.applied 10 .degraded540 2 12000] ++ windows 12000 7

/-- A D0 so late that its hold-off ends before it began, with a report that
goes back by one window. -/
def wrapped : List Event :=
  windows (2 ^ 64 - 12000) 2 ++ [.applied 15 .nominal 1 (2 ^ 64 - 9000)] ++ windows (2 ^ 64 - 9000) 2

theorem ladder_sample :
    Everywhere Deliberate (Library.Runs.run step (startSession Controller.zero .p720 10 0) unreported).history :=
  (ladder_deliberate Controller.zero (by decide : 10 ≠ 0) (by decide : Profile.p720 ≠ .p540) 0 unreported).2.1

/-- STOP at 540p, and a D1 only one window behind a D0. -/
theorem ladder_strays :
    ¬Everywhere (Stops AtFloor) (Library.Runs.run step (startSession Controller.zero .p720 10 0) unreported).history ∧
      ¬Everywhere Apart (Library.Runs.run step (startSession Controller.zero .p480 15 (2 ^ 64 - 12000)) wrapped).history := by
  constructor
  · intro h
    have hstop := h ((Library.Runs.run step (startSession Controller.zero .p720 10 0) unreported).history.take 12)
      (.window 33000 .bad .stopHighLoad .p540) [] (by decide +kernel) rfl
    exact absurd hstop.2.2.2 (by decide : Profile.p540 ≠ Profile.p480)
  · intro h
    have hclose := h ((Library.Runs.run step (startSession Controller.zero .p480 15 (2 ^ 64 - 12000)) wrapped).history.take 4)
      (.window (2 ^ 64 - 3000) .bad .d1FpsThrottle .p480) [] (by decide +kernel) (by decide)
    exact absurd (hclose (2 ^ 64 - 6000) .bad .d0DropLateRaw .p480 (by decide +kernel) (by decide)) (by decide)

end Runs

end EtranProcessing.Capture.DegradeLadder
