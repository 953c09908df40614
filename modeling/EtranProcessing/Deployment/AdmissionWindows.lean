import EtranProcessing.Deployment.UpdateGuard
import EtranProcessing.Library.Runs

namespace EtranProcessing.Deployment.AdmissionWindows

open Library.Runs UpdateGuard

variable {s s' : World}

def IsOpen (s : World) : Prop := s.guard.owner ≠ []

instance (s : World) : Decidable (IsOpen s) := inferInstanceAs (Decidable (_ ≠ _))

/-- The clock that a call compares with the deadline of the open window. -/
def observes (s : World) : Call → Option UInt64
  | .enter code now ticket => if IsOpen s ∧ s.tickets[ticket]? = some none ∧ (Work.ofCode code).isSome then some now else none
  | .begin owner code now deadline =>
      if sameOwner s.guard owner ∧ (Window.ofCode code).isSome ∧ s.guard.window = Window.ofCode code ∧
        s.guard.deadline = deadline ∧ now < deadline then some now else none
  | .ready owner now => if sameOwner s.guard owner then some now else none
  | _ => none

def Drained (s : World) : Prop :=
  s.guard.active .otherTools = 0 ∧ (s.guard.window = some .otherTools ∨ s.guard.active .communication = 0)

/-- All that a call under the lock can do. -/
inductive Move (s : World) : Call → Bool → World → Prop
  | refused (c : Call) (hblind : observes s c = none) : Move s c false s
  | looked (c : Call) (b : Bool) (now : UInt64) (hlook : observes s c = some now) (henter : ∀ code now ticket, c = .enter code now ticket → b = false)
      (htime : b = true → (observe s.guard now).expired = false)
      (hready : ∀ owner now, c = .ready owner now → b = true → Drained s) : Move s c b { s with guard := observe s.guard now }
  | entered (code : Nat) (now : UInt64) (ticket : Nat) (work : Work) (hfree : s.tickets[ticket]? = some none) (hwork : Work.ofCode code = some work)
      (hroom : s.guard.active work ≠ 0xFFFFFFFF)
      (hadmitted : IsOpen s → s.guard.window = some .otherTools ∧ work = .communication ∧ (observe s.guard now).expired = false) :
      Move s (.enter code now ticket) true
        ⟨{ (if IsOpen s then observe s.guard now else s.guard) with
            active := Function.update s.guard.active work (s.guard.active work + 1) }, s.tickets.set ticket (some work)⟩
  | left (ticket : Nat) (work : Work) (hheld : s.tickets[ticket]? = some (some work)) (hactive : s.guard.active work ≠ 0) :
      Move s (.leave ticket) true
        ⟨{ s.guard with active := Function.update s.guard.active work (s.guard.active work - 1) }, s.tickets.set ticket none⟩
  | opened (owner : List UInt8) (code : Nat) (window : Window) (now deadline : UInt64) (hclosed : ¬ IsOpen s)
      (hvalid : ownerValid owner = true) (hwindow : Window.ofCode code = some window)
      (htime : now < deadline) :
      Move s (.begin (some owner) code now deadline) true
        { s with guard := { s.guard with owner := owner, window := some window, deadline := deadline, expired := false } }
  | closed (owner : Option (List UInt8)) (hsame : sameOwner s.guard owner = true) (hcommunication : s.guard.active .communication = 0)
      (hother : s.guard.active .otherTools = 0) :
      Move s (.finish owner) true
        { s with guard := { s.guard with owner := [], window := none, deadline := 0, expired := false } }

@[simp] theorem observe_active (g : Guard) (now : UInt64) : (observe g now).active = g.active := by
  unfold observe
  split
  · rfl
  · rfl

@[simp] theorem observe_owner (g : Guard) (now : UInt64) : (observe g now).owner = g.owner := by
  unfold observe
  split
  · rfl
  · rfl

@[simp] theorem observe_window (g : Guard) (now : UInt64) : (observe g now).window = g.window := by
  unfold observe
  split
  · rfl
  · rfl

@[simp] theorem observe_deadline (g : Guard) (now : UInt64) : (observe g now).deadline = g.deadline := by
  unfold observe
  split
  · rfl
  · rfl

theorem observe_expired (g : Guard) (now : UInt64) : (observe g now).expired = (g.expired || decide (g.deadline ≤ now)) := by
  unfold observe
  split
  next h => simp [h]
  next h => simp [h]

variable {c : Call} {owner : Option (List UInt8)} {b : Bool} {now : UInt64} {work : Work}

theorem sameOwner_some {g : Guard} (h : sameOwner g owner = true) :
    ∃ o, owner = some o ∧ g.owner ≠ [] ∧ sameText g.owner o = true := by
  cases owner with
  | none => cases h
  | some o =>
      simp only [sameOwner, Bool.and_eq_true, decide_eq_true_eq] at h
      exact ⟨o, rfl, h.1.2, h.2⟩

theorem enter_move (s : World) (code : Nat) (now : UInt64) (ticket : Nat) :
    Move s (.enter code now ticket) (updateGuardEnter s code now ticket).1 (updateGuardEnter s code now ticket).2 := by
  unfold updateGuardEnter
  split
  next work hfree hwork =>
    by_cases hopen : IsOpen s
    · have hlook : observes s (.enter code now ticket) = some now := if_pos ⟨hopen, hfree, by rw [hwork]; rfl⟩
      have howner : s.guard.owner ≠ [] := hopen
      dsimp only
      rw [if_pos howner]
      split
      next h =>
        obtain ⟨hadmitted, hroom⟩ := h
        simp only [admitted, observe_owner, observe_window, howner, decide_false, Bool.false_or, Bool.and_eq_true,
          decide_eq_true_eq, Bool.not_eq_true'] at hadmitted
        rw [observe_active] at hroom ⊢
        have hmove := Move.entered (s := s) code now ticket work hfree hwork hroom fun _ =>
          ⟨hadmitted.1.1, hadmitted.1.2, hadmitted.2⟩
        rwa [if_pos hopen] at hmove
      next => exact .looked _ _ now hlook (fun _ _ _ _ => rfl) (fun h => by cases h) (fun _ _ h => by cases h)
    · have howner : ¬ s.guard.owner ≠ [] := hopen
      have hblind : observes s (.enter code now ticket) = none := if_neg fun h => hopen h.1
      dsimp only
      rw [if_neg howner]
      split
      next h =>
        have hmove := Move.entered (s := s) code now ticket work hfree hwork h.2 fun hopen' => absurd hopen' hopen
        rwa [if_neg hopen] at hmove
      next => exact .refused _ hblind
  next hnot =>
    refine .refused _ (if_neg ?_)
    rintro ⟨_, hfree, hsome⟩
    obtain ⟨work, hwork⟩ := Option.isSome_iff_exists.mp hsome
    exact hnot work hfree hwork

theorem leave_move (s : World) (ticket : Nat) :
    Move s (.leave ticket) (updateGuardLeave s ticket).1 (updateGuardLeave s ticket).2 := by
  unfold updateGuardLeave
  split
  next work hheld =>
    split
    next hactive => exact .left ticket work hheld hactive
    next => exact .refused _ rfl
  next => exact .refused _ rfl

theorem begin_move (s : World) (owner : Option (List UInt8)) (code : Nat) (now deadline : UInt64) :
    Move s (.begin owner code now deadline) (updateGuardBegin s owner code now deadline).1
      (updateGuardBegin s owner code now deadline).2 := by
  unfold updateGuardBegin
  split
  next owner window hwindow =>
    split
    next hbad =>
      refine .refused _ (if_neg ?_)
      rintro ⟨hsame, _, _, _, htime⟩
      rcases hbad with hvalid | hlate
      · simp [sameOwner, hvalid] at hsame
      · exact absurd htime (UInt64.not_lt.mpr hlate)
    next hgood =>
      simp only [not_or, Bool.not_eq_false, UInt64.not_le] at hgood
      split
      next hopen =>
        split
        next h =>
          have hlook : observes s (.begin (some owner) code now deadline) = some now :=
            if_pos ⟨h.1, by rw [hwindow]; rfl, h.2.1.trans hwindow.symm, h.2.2, hgood.2⟩
          exact .looked _ _ now hlook (fun _ _ _ h => by cases h) (fun h => by simpa using h) (fun _ _ h => by cases h)
        next h =>
          refine .refused _ (if_neg ?_)
          rintro ⟨hsame, _, hsame', hdeadline, _⟩
          exact h ⟨hsame, hsame'.trans hwindow, hdeadline⟩
      next hclosed => exact .opened owner code window now deadline hclosed hgood.1 hwindow hgood.2
  next hnot =>
    refine .refused _ (if_neg ?_)
    rintro ⟨hsame, hsome, _⟩
    obtain ⟨window, hwindow⟩ := Option.isSome_iff_exists.mp hsome
    obtain ⟨_, howner, _, _⟩ := sameOwner_some hsame
    exact hnot _ window howner hwindow

theorem ready_move (s : World) (owner : Option (List UInt8)) (now : UInt64) :
    Move s (.ready owner now) (updateGuardReady s owner now).1 (updateGuardReady s owner now).2 := by
  unfold updateGuardReady
  split
  next hsame =>
    refine .looked _ _ now (if_pos hsame) (fun _ _ _ h => by cases h) ?_ ?_
    · intro hready
      simp only [Bool.and_eq_true, Bool.not_eq_true'] at hready
      exact hready.1.1
    · intro _ _ _ hready
      simp only [observe_active, observe_window, Bool.and_eq_true, Bool.or_eq_true, decide_eq_true_eq] at hready
      exact ⟨hready.1.2, hready.2⟩
  next hother => exact .refused _ (if_neg hother)

theorem finish_move (s : World) (owner : Option (List UInt8)) :
    Move s (.finish owner) (updateGuardFinish s owner).1 (updateGuardFinish s owner).2 := by
  unfold updateGuardFinish
  split
  next h => exact .closed owner h.1 h.2.1 h.2.2
  next => exact .refused _ rfl

theorem move (s : World) (c : Call) : Move s c (answer s c) (step s c) := by
  cases c with
  | enter code now ticket => exact enter_move s code now ticket
  | leave ticket => exact leave_move s ticket
  | begin owner code now deadline => exact begin_move s owner code now deadline
  | ready owner now => exact ready_move s owner now
  | finish owner => exact finish_move s owner

/-! ### The counts -/

def Counted (s : World) : Prop := ∀ work, (s.guard.active work).toNat = s.tickets.count (some work)

theorem toNat_one : (1 : UInt32).toNat = 1 := rfl

theorem count_set {tickets : List (Option Work)} {i : Nat} {old new : Option Work} (hold : tickets[i]? = some old)
    (x : Option Work) : (tickets.set i new).count x + (if old = x then 1 else 0) = tickets.count x + (if new = x then 1 else 0) := by
  obtain ⟨hi, rfl⟩ := List.getElem?_eq_some_iff.mp hold
  rw [List.count_set hi]
  have hpos : tickets[i] = x → 0 < tickets.count x := fun h => List.count_pos_iff.mpr (h ▸ List.getElem_mem hi)
  simp only [beq_iff_eq]
  split_ifs with hnew hwas hwas
  · have := hpos hnew
    omega
  · have := hpos hnew
    omega
  · omega
  · omega

theorem Move.counted (h : Move s c b s') (hs : Counted s) : Counted s' := by
  intro w
  have hw := hs w
  cases h with
  | refused => exact hw
  | looked =>
      rw [observe_active]
      exact hw
  | entered code now ticket work hfree hwork hroom hadmitted =>
      have hcount := @count_set _ _ _ (some work) hfree (some w)
      dsimp only
      by_cases hsame : work = w
      · subst hsame
        have hlt : (s.guard.active work).toNat < 0xFFFFFFFF := by
          have := (s.guard.active work).toNat_lt
          have hne : (s.guard.active work).toNat ≠ 0xFFFFFFFF := fun h => hroom (UInt32.toNat_inj.mp h)
          omega
        rw [Function.update_self, UInt32.toNat_add, toNat_one]
        simp only [reduceCtorEq, if_false, if_true] at hcount
        omega
      · have hother : ¬ some work = some w := fun h => hsame (Option.some.inj h)
        simp only [reduceCtorEq, if_false, hother] at hcount
        rw [Function.update_of_ne (Ne.symm hsame)]
        omega
  | left ticket work hheld hactive =>
      have hcount := @count_set _ _ _ none hheld (some w)
      dsimp only
      by_cases hsame : work = w
      · subst hsame
        have hone : (1 : UInt32) ≤ s.guard.active work := by
          rw [UInt32.le_iff_toNat_le, toNat_one]
          have : (s.guard.active work).toNat ≠ 0 := fun h => hactive (UInt32.toNat_inj.mp h)
          omega
        rw [Function.update_self, UInt32.toNat_sub_of_le _ _ hone, toNat_one]
        simp only [reduceCtorEq, if_false, if_true] at hcount
        omega
      · have hother : ¬ some work = some w := fun h => hsame (Option.some.inj h)
        simp only [reduceCtorEq, if_false, hother] at hcount
        rw [Function.update_of_ne (Ne.symm hsame)]
        omega
  | opened => exact hw
  | closed => exact hw

theorem start_counted (n : Nat) : Counted (World.start n) := by
  intro w
  rw [World.start, List.count_replicate]
  rfl

/-! ### The window -/

def Closes (s : World) (c : Call) : Prop := IsOpen s ∧ ¬ IsOpen (step s c)

instance (s : World) (c : Call) : Decidable (Closes s c) := inferInstanceAs (Decidable (_ ∧ _))

theorem Move.kept (h : Move s c b s') (hopen : IsOpen s) : ¬ IsOpen s' ∨
    s'.guard.owner = s.guard.owner ∧ s'.guard.window = s.guard.window ∧ s'.guard.deadline = s.guard.deadline ∧
      s'.guard.expired = (s.guard.expired || (observes s c).any fun now => decide (s.guard.deadline ≤ now)) := by
  cases h with
  | refused c hblind => exact .inr ⟨rfl, rfl, rfl, by rw [hblind, Option.any_none, Bool.or_false]⟩
  | looked c b now hlook => exact .inr ⟨observe_owner _ _, observe_window _ _, observe_deadline _ _, by rw [hlook, observe_expired]; rfl⟩
  | entered code now ticket work hfree hwork =>
      have hlook : observes s (.enter code now ticket) = some now := if_pos ⟨hopen, hfree, by rw [hwork]; rfl⟩
      rw [if_pos hopen, hlook]
      exact .inr ⟨observe_owner _ _, observe_window _ _, observe_deadline _ _, observe_expired _ _⟩
  | left => exact .inr ⟨rfl, rfl, rfl, (Bool.or_false _).symm⟩
  | opened owner code window now deadline hclosed => exact absurd hopen hclosed
  | closed => exact .inl fun h => h rfl

theorem looked_open (h : observes s c = some now) : IsOpen s := by
  cases c with
  | enter => exact (Option.ite_none_right_eq_some.mp h).1.1
  | leave => cases h
  | begin =>
      obtain ⟨_, _, howner, _⟩ := sameOwner_some (Option.ite_none_right_eq_some.mp h).1.1
      exact howner
  | ready =>
      obtain ⟨_, _, howner, _⟩ := sameOwner_some (Option.ite_none_right_eq_some.mp h).1
      exact howner
  | finish => cases h

def Tidy (s : World) : Prop := ¬ IsOpen s → s.guard.expired = false

theorem Move.tidy (h : Move s c b s') (hs : Tidy s) : Tidy s' := by
  intro hclosed
  cases h with
  | refused => exact hs hclosed
  | looked c b now hlook =>
      exact absurd (show (observe s.guard now).owner ≠ [] by rw [observe_owner]; exact looked_open hlook) hclosed
  | entered code now =>
      by_cases hopen : IsOpen s
      · rw [if_pos hopen] at hclosed
        exact absurd (show (observe s.guard now).owner ≠ [] by rw [observe_owner]; exact hopen) hclosed
      · rw [if_neg hopen]
        exact hs hopen
  | left => exact hs hclosed
  | opened => rfl
  | closed => rfl

def sees (s : World) (seen : Bool) (c : Call) : Bool :=
  decide (IsOpen s ∧ IsOpen (step s c)) && (seen || (observes s c).any fun now => decide (s.guard.deadline ≤ now))

def lapsed (s : World) (seen : Bool) : List Call → Bool
  | [] => seen
  | c :: calls => lapsed (step s c) (sees s seen c) calls

theorem Move.sees (h : Move s c b (step s c)) (hs : Tidy s) :
    (step s c).guard.expired = sees s s.guard.expired c := by
  unfold AdmissionWindows.sees
  by_cases hopen : IsOpen s
  · by_cases hstill : IsOpen (step s c)
    · rcases h.kept hopen with hclosed | ⟨_, _, _, hexpired⟩
      · exact absurd hstill hclosed
      · rw [hexpired, decide_eq_true ⟨hopen, hstill⟩, Bool.true_and]
    · rw [h.tidy hs hstill, decide_eq_false fun h => hstill h.2, Bool.false_and]
  · rw [decide_eq_false fun h => hopen h.1, Bool.false_and]
    generalize step s c = s' at h
    cases h with
    | refused => exact hs hopen
    | looked c b now hlook => exact absurd (looked_open hlook) hopen
    | entered => rw [if_neg hopen]; exact hs hopen
    | left => exact hs hopen
    | opened => rfl
    | closed => rfl

theorem run_lapsed (calls : List Call) (hs : Tidy s) : (run step s calls).guard.expired = lapsed s s.guard.expired calls := by
  induction calls generalizing s with
  | nil => rfl
  | cons c calls ih =>
      have hnext := ih ((move s c).tidy hs)
      rw [(move s c).sees hs] at hnext
      exact hnext

theorem run_tidy (calls : List Call) (hs : Tidy s) : Tidy (run step s calls) :=
  run_kept (fun s c => (move s c).tidy) calls s hs

theorem run_counted (calls : List Call) (hs : Counted s) : Counted (run step s calls) :=
  run_kept (fun s c => (move s c).counted) calls s hs

theorem run_window {p : World → Prop} (hp : ∀ s c, IsOpen s → IsOpen (step s c) → p s → p (step s c)) (calls : List Call)
    (hopen : IsOpen s) (hs : p s) (h : Along step (fun s c => ¬ Closes s c) s calls) :
    IsOpen (run step s calls) ∧ p (run step s calls) := by
  induction calls generalizing s with
  | nil => exact ⟨hopen, hs⟩
  | cons c calls ih =>
      obtain ⟨hc, hrest⟩ := h
      have hstill : IsOpen (step s c) := by
        by_contra hclosed
        exact hc ⟨hopen, hclosed⟩
      exact ih hstill (hp s c hopen hstill hs) hrest

theorem Move.drained (h : Move s c b s') (hopen : IsOpen s) (hstill : IsOpen s') (hs : Drained s) :
    Drained s' := by
  obtain ⟨hother, hwindow⟩ := hs
  cases h with
  | refused => exact ⟨hother, hwindow⟩
  | looked =>
      rw [Drained, observe_active, observe_window]
      exact ⟨hother, hwindow⟩
  | entered code now ticket work hfree hwork hroom hadmitted =>
      obtain ⟨htools, rfl, _⟩ := hadmitted hopen
      refine ⟨?_, .inl ?_⟩
      · dsimp only
        rw [Function.update_of_ne (by decide)]
        exact hother
      · rw [if_pos hopen]
        exact (observe_window _ _).trans htools
  | left ticket work hheld hactive =>
      cases work with
      | communication =>
          refine ⟨?_, .inl (hwindow.resolve_right hactive)⟩
          dsimp only
          rw [Function.update_of_ne (by decide)]
          exact hother
      | otherTools => exact absurd hother hactive
  | opened owner code window now deadline hclosed => exact absurd hopen hclosed
  | closed => exact absurd rfl hstill

def Blocked (s : World) (work : Work) : Prop := work = .otherTools ∨ s.guard.window = some .communication

theorem Drained.empty (h : Drained s) (hs : Counted s) (hblocked : Blocked s work) :
    s.tickets.count (some work) = 0 := by
  rw [← hs work]
  cases work with
  | otherTools => exact UInt32.toNat_inj.mpr h.1
  | communication =>
      have hwindow : s.guard.window = some .communication := hblocked.resolve_left (by decide)
      exact UInt32.toNat_inj.mpr (h.2.resolve_left (by rw [hwindow]; decide))

theorem ready_drained (h : answer s (.ready owner now) = true) :
    IsOpen s ∧ IsOpen (step s (.ready owner now)) ∧ Drained (step s (.ready owner now)) ∧
      (step s (.ready owner now)).guard.window = s.guard.window := by
  have hmove := move s (.ready owner now)
  rw [h] at hmove
  generalize step s (.ready owner now) = s' at hmove ⊢
  cases hmove with
  | looked c b now hlook henter htime hready =>
      have hopen := looked_open hlook
      have hdrained := hready _ _ rfl rfl
      refine ⟨hopen, ?_, ?_, observe_window _ _⟩
      · rw [IsOpen, observe_owner]
        exact hopen
      · rw [Drained, observe_active, observe_window]
        exact hdrained

theorem ready_empty {more : List Call} (hs : Counted s)
    (h : answer s (.ready owner now) = true) (hblocked : Blocked s work)
    (hmore : Along step (fun s c => ¬ Closes s c) (step s (.ready owner now)) more) :
    (run step (step s (.ready owner now)) more).tickets.count (some work) = 0 := by
  obtain ⟨_, hopen, hdrained, hwindow⟩ := ready_drained h
  have hkept := run_window (p := fun t => Drained t ∧ t.guard.window = s.guard.window) (fun t c ht ht' hp => ?_) more hopen
    ⟨hdrained, hwindow⟩ hmore
  · apply hkept.2.1.empty (run_counted more ((move s _).counted hs))
    rw [Blocked, hkept.2.2]
    exact hblocked
  · refine ⟨(move t c).drained ht ht' hp.1, ?_⟩
    rcases (move t c).kept ht with hclosed | ⟨_, hwindow, _⟩
    · exact absurd ht' hclosed
    · exact hwindow.trans hp.2

theorem expired_kept {more : List Call} (hopen : IsOpen s) (hs : s.guard.expired = true)
    (hmore : Along step (fun s c => ¬ Closes s c) s more) :
    IsOpen (run step s more) ∧ (run step s more).guard.expired = true := by
  apply run_window (p := fun t => t.guard.expired = true) (fun t c ht ht' hp => ?_) more hopen hs hmore
  rcases (move t c).kept ht with hclosed | ⟨_, _, _, hexpired⟩
  · exact absurd ht' hclosed
  · rw [hexpired, hp, Bool.true_or]

theorem expired_refused (hopen : IsOpen s) (hs : s.guard.expired = true) :
    answer s c = false ∨ (∃ ticket, c = .leave ticket) ∨ ∃ owner, c = .finish owner := by
  have hmove := move s c
  generalize step s c = s' at hmove
  generalize answer s c = b at hmove
  have hpast (now : UInt64) : (observe s.guard now).expired = true := by rw [observe_expired, hs, Bool.true_or]
  cases hmove with
  | refused => exact .inl rfl
  | looked c b now hlook henter htime hready =>
      cases b with
      | false => exact .inl rfl
      | true => exact absurd (htime rfl) (by rw [hpast]; decide)
  | entered code now ticket work hfree hwork hroom hadmitted =>
      exact absurd (hadmitted hopen).2.2 (by rw [hpast]; decide)
  | left ticket => exact .inr (.inl ⟨ticket, rfl⟩)
  | opened owner code window now deadline hclosed => exact absurd hopen hclosed
  | closed owner => exact .inr (.inr ⟨owner, rfl⟩)

theorem closes_finish (hs : Counted s) (h : Closes s c) :
    ∃ owner, c = .finish (some owner) ∧ sameText s.guard.owner owner = true ∧ ∀ work, s.tickets.count (some work) = 0 := by
  have hmove := move s c
  obtain ⟨hopen, hclosed⟩ := h
  generalize step s c = s' at hmove hclosed
  generalize answer s c = b at hmove
  cases hmove with
  | refused => exact absurd hopen hclosed
  | looked =>
      rw [IsOpen, observe_owner] at hclosed
      exact absurd hopen hclosed
  | entered =>
      rw [if_pos hopen] at hclosed
      exact absurd (show (observe s.guard _).owner ≠ [] by rw [observe_owner]; exact hopen) hclosed
  | left => exact absurd hopen hclosed
  | opened _ _ _ _ _ hwas => exact absurd hopen hwas
  | closed owner hsame hcommunication hother =>
      obtain ⟨o, rfl, _, htext⟩ := sameOwner_some hsame
      refine ⟨o, rfl, htext, fun work => ?_⟩
      rw [← hs work]
      cases work with
      | communication => exact UInt32.toNat_inj.mpr hcommunication
      | otherTools => exact UInt32.toNat_inj.mpr hother

theorem issued {ticket : Nat} (hopen : IsOpen s) (hfree : s.tickets[ticket]? = some none)
    (h : (step s c).tickets[ticket]? = some (some work)) :
    s.guard.window = some .otherTools ∧ work = .communication ∧ (step s c).guard.expired = false := by
  have hmove := move s c
  generalize step s c = s' at hmove h ⊢
  generalize answer s c = b at hmove
  cases hmove with
  | refused | looked | opened | closed => simp [hfree] at h
  | entered code now i w hfree' hwork hroom hadmitted =>
      obtain ⟨hwindow, hw, hexpired⟩ := hadmitted hopen
      rw [if_pos hopen]
      by_cases hi : i = ticket
      · subst hi
        obtain ⟨hlt, _⟩ := List.getElem?_eq_some_iff.mp hfree
        simp only [List.getElem?_set, if_true, hlt, Option.some.injEq] at h
        exact ⟨hwindow, h ▸ hw, hexpired⟩
      · simp [hi, hfree] at h
  | left i w hheld hactive =>
      by_cases hi : i = ticket
      · subst hi
        simp [hfree] at hheld
      · simp [hi, hfree] at h

/-- The guarantee of the guard over all later calls. -/
theorem admission_during_updates (n : Nat) (calls : List Call) :
    let s := run step (.start n) calls
    (∀ work, (s.guard.active work).toNat = s.tickets.count (some work)) ∧
    (∀ (c : Call) (ticket : Nat) (work : Work), IsOpen s → s.tickets[ticket]? = some none → (step s c).tickets[ticket]? = some (some work) →
      s.guard.window = some .otherTools ∧ work = .communication ∧ lapsed (.start n) false (calls ++ [c]) = false) ∧
    (∀ owner now work more, answer s (.ready owner now) = true → Blocked s work →
      Along step (fun s c => ¬ Closes s c) (step s (.ready owner now)) more →
      (run step (step s (.ready owner now)) more).tickets.count (some work) = 0) ∧
    (∀ more c, lapsed (.start n) false calls = true → Along step (fun s c => ¬ Closes s c) s more →
      (run step s more).guard.expired = true ∧
        (answer (run step s more) c = true → (∃ ticket, c = .leave ticket) ∨ ∃ owner, c = .finish owner)) ∧
    ∀ c, IsOpen s → (Closes s c ∧ ∃ owner, c = .finish (some owner) ∧ sameText s.guard.owner owner = true ∧
        ∀ work, s.tickets.count (some work) = 0) ∨
      (¬ Closes s c ∧ (step s c).guard.owner = s.guard.owner ∧ (step s c).guard.window = s.guard.window ∧
        (step s c).guard.deadline = s.guard.deadline) := by
  have hcounted : Counted (run step (.start n) calls) := run_counted calls (start_counted n)
  have hstart : Tidy (.start n) := fun _ => rfl
  have htidy : Tidy (run step (.start n) calls) := run_tidy calls hstart
  have hlapsed := run_lapsed calls hstart
  refine ⟨hcounted, ?_, ?_, ?_, ?_⟩
  · intro c ticket work hopen hfree h
    obtain ⟨hwindow, hwork, hexpired⟩ := issued hopen hfree h
    refine ⟨hwindow, hwork, ?_⟩
    have hnext := run_lapsed (calls ++ [c]) hstart
    rw [run_append] at hnext
    exact hnext.symm.trans hexpired
  · intro owner now work more hready hblocked hmore
    exact ready_empty hcounted hready hblocked hmore
  · intro more c hseen hmore
    have hexpired := hlapsed.trans hseen
    have hopen : IsOpen (run step (.start n) calls) := by
      by_contra hclosed
      rw [htidy hclosed] at hexpired
      cases hexpired
    obtain ⟨hstill, hkept⟩ := expired_kept hopen hexpired hmore
    refine ⟨hkept, fun hanswer => ?_⟩
    exact (expired_refused hstill hkept).resolve_left (by rw [hanswer]; decide)
  · intro c hopen
    by_cases hcloses : Closes (run step (.start n) calls) c
    · exact .inl ⟨hcloses, closes_finish hcounted hcloses⟩
    · right
      rcases (move (run step (.start n) calls) c).kept hopen with hclosed | ⟨howner, hwindow, hdeadline, _⟩
      · exact absurd ⟨hopen, hclosed⟩ hcloses
      · exact ⟨hcloses, howner, hwindow, hdeadline⟩

def controller : Option (List UInt8) := some ("ea9c98c0-bcd2-4e87-9ab5-2df74eab41e7".toList.map fun c => .ofNat c.toNat)

/-- A window for the other tools: communication goes on, the tools stay out, and its end is not forgotten. -/
theorem admission_sample :
    lapsed (.start 1) false [.begin controller 2 400 500, .enter 0 401 0] = false ∧
    (run step (step (run step (.start 1) [.begin controller 2 400 500]) (.ready controller 402)) [.enter 1 403 0]).tickets.count
      (some .otherTools) = 0 ∧
    (run step (run step (.start 1) [.begin controller 2 400 500, .ready controller 500]) [.begin controller 2 401 500]).guard.expired
      = true ∧
    (step (run step (.start 1) [.begin controller 2 400 500]) (.enter 0 401 0)).guard.deadline = 500 := by
  have hbegun := admission_during_updates 1 [.begin controller 2 400 500]
  have hpast := admission_during_updates 1 [.begin controller 2 400 500, .ready controller 500]
  refine ⟨(hbegun.2.1 (.enter 0 401 0) 0 .communication (by decide +kernel) (by decide +kernel) (by decide +kernel)).2.2,
    hbegun.2.2.1 controller 402 .otherTools [.enter 1 403 0] (by decide +kernel) (.inl rfl) (by decide +kernel),
    (hpast.2.2.2.1 [.begin controller 2 401 500] (.leave 0) (by decide +kernel) (by decide +kernel)).1, ?_⟩
  rcases hbegun.2.2.2.2 (.enter 0 401 0) (by decide +kernel) with ⟨_, _, h, _⟩ | ⟨_, _, _, h⟩
  · cases h
  · rw [h]
    decide +kernel

end EtranProcessing.Deployment.AdmissionWindows
