import EtranProcessing.Deployment.RemoteStatus

namespace EtranProcessing.Deployment.StatusMoves

open Library.Fallible Journal RemoteStatus

structure Live (a : Applied) : Prop where
  window : a.active.window ≠ 0
  outcome : a.outcome = none
  proof : a.proof = none

/-- The action of a forward intent is the next one of its service, in the window of that
service, and the second window is for when the first two services are done. -/
structure ForwardDue (a : Applied) (b : Bytes) : Prop where
  service : serviceOf b < 4
  action : actionOf b = a.forward (serviceOf b) + 1
  bound : actionOf b ≤ 3
  active : windowOf b = a.active.window
  window : windowOf b = if serviceOf b < 2 then 1 else 2
  first : windowOf b = 2 → a.forward 0 = 3 ∧ a.forward 1 = 3

structure RestoreDue (a : Applied) (b : Bytes) : Prop where
  service : serviceOf b < 4
  action : if a.restored (serviceOf b) ≠ 0 then actionOf b = a.restored (serviceOf b) + 1
    else actionOf b = 1 ∨ actionOf b = 4
  bound : actionOf b ≤ 4

structure Matches (p : Pending) (b : Bytes) : Prop where
  intent : intentOf b = p.sequence
  fields : part b 12 44 = part p.bytes 12 44
  process : actionOf b = 3 ∨ part b 56 16 = part p.bytes 56 16

theorem u32_of_part {b b' : Bytes} {m n i : Nat} (h : part b m n = part b' m n) (hm : m ≤ i) (hn : i + 4 ≤ m + n) :
    u32 b i = u32 b' i := by
  have hread (l : Bytes) : u32 l i = get32 ((part l m n).drop (i - m)) := by
    rw [part, JournalFrames.get32_take _ (by omega), List.drop_drop, u32]
    congr 2
    omega
  rw [hread, hread, h]

theorem Matches.action {p : Pending} {b : Bytes} (h : Matches p b) : actionOf b = actionOf p.bytes :=
  u32_of_part h.fields (by omega) (by omega)

theorem Matches.service {p : Pending} {b : Bytes} (h : Matches p b) : serviceOf b = serviceOf p.bytes :=
  u32_of_part h.fields (by omega) (by omega)

def finishForward (a : Applied) (sequence : Nat) (b : Bytes) : Applied :=
  let a := { a with pending := none, forward := Function.update a.forward (serviceOf b) (actionOf b) }
  if actionOf b = 3 then
    { a with
      pids := Function.update a.pids (serviceOf b) (u32 b 56)
      births := Function.update a.births (serviceOf b) (u64 b 64)
      forwardDone := Function.update a.forwardDone (serviceOf b) sequence }
  else a

def finishRestore (a : Applied) (sequence : Nat) (b : Bytes) : Applied :=
  let a := { a with pending := none, restored := Function.update a.restored (serviceOf b) (actionOf b) }
  if 3 ≤ actionOf b then
    { a with
      oldPids := Function.update a.oldPids (serviceOf b) (u32 b 56)
      oldBirths := Function.update a.oldBirths (serviceOf b) (u64 b 64)
      restoreDone := Function.update a.restoreDone (serviceOf b) sequence }
  else a

section Move

variable {L : Type} (codecs : Codecs L) (configs : List Nat)

/-- What one accepted record does to the state of the update. -/
inductive Move (a : Applied) (r : Record) : Applied → Prop
  | preparation : ¬ isApplied r.kind → Move a r a
  | window : r.kind = 65 → a.outcome = none → Move a r { a with active := activeOf r.bytes }
  | clear : r.kind = 65 → (activeOf r.bytes).window = 0 → a.outcome.isSome = true → a.clear = none →
      Move a r { a with active := activeOf r.bytes, clear := some (activeOf r.bytes).generation }
  | forwardIntent : r.kind = 100 → Live a → a.pending = none → a.configPending = none → a.restoring = false →
      ForwardDue a r.bytes → Move a r { a with pending := some ⟨100, r.sequence, r.bytes⟩ }
  | restoreIntent : r.kind = 104 → Live a → a.pending = none → a.configPending = none → RestoreDue a r.bytes →
      Move a r { a with restoring := true, pending := some ⟨104, r.sequence, r.bytes⟩ }
  | abandon : r.kind = 106 → Live a → Move a r { a with pending := none, restoring := true }
  | forwardDone (p : Pending) : r.kind = 101 → Live a → a.restoring = false → a.pending = some p → p.kind = 100 →
      Matches p r.bytes → windowOf r.bytes = a.active.window →
      (windowOf r.bytes = if serviceOf r.bytes < 2 then 1 else 2) → Move a r (finishForward a r.sequence r.bytes)
  | restoreDone (p : Pending) : r.kind = 105 → Live a → a.pending = some p → p.kind = 104 → Matches p r.bytes →
      Move a r (finishRestore a r.sequence r.bytes)
  | configIntent : r.kind = 21 → Live a → a.pending = none → a.configPending = none →
      (directionOf r.bytes = 1 ↔ a.restoring = false) →
      Move a r { a with configPending := some ⟨r.sequence, referenceOf r.bytes, directionOf r.bytes⟩ }
  | configDone (p : ConfigPending) (i : Nat) : r.kind = 22 → Live a → a.pending = none → a.configPending = some p →
      configs[i]? = some (referenceOf r.bytes) → directionOf r.bytes ≤ 1 →
      (directionOf r.bytes = 1 ↔ a.restoring = false) →
      referenceOf r.bytes = p.reference → directionOf r.bytes = p.direction →
      Move a r { a with
        configPending := none
        configCandidate := Function.update a.configCandidate i (decide (directionOf r.bytes ≠ 0)) }
  | configAbandon : r.kind = 107 → Live a → Move a r { a with configPending := none, restoring := true }
  | committed (p : Proof) : r.kind = 102 → Live a → a.pending = none → a.configPending = none → a.restoring = false →
      p.kind = 102 → (∀ i < 12, a.configCandidate i = true) → (∀ i < 4, a.forward i = 3) →
      Move a r { a with proof := some p }
  | restored (p : Proof) : r.kind = 108 → Live a → a.pending = none → a.configPending = none → a.restoring = true →
      p.kind = 108 → (∀ i < 4, 3 ≤ a.restored i ∧ u32 r.bytes (201 + i * 4) = a.oldPids i ∧
        u64 r.bytes (217 + i * 8) = a.oldBirths i ∧ u64 r.bytes (345 + i * 8) = a.restoreDone i) →
      Move a r { a with proof := some p }
  | outcome (o : Outcome) : r.kind = 103 → a.outcome = none → outcomeDecode codecs r.bytes = some o →
      (o.result.result ≠ outcomeRecoveryRequired → ∃ p, a.proof = some p ∧ proves o p = true) →
      Move a r { a with outcome := some o }

end Move

section Inversion

variable {L : Type} {sha256 : Bytes → Digest} {codecs : Codecs L} {j : Journaled L} {c : Context L}

variable {a a' : Applied} {r : Record} {b : Bytes}

theorem applyState_move (hk : r.kind = 65)
    (h : applyState sha256 j c a r.bytes = .ok a') : Move codecs c.plan.configs a r a' := by
  unfold applyState at h
  simp only [bind_eq_ok, require_eq_ok] at h
  obtain ⟨_, _, _, _, _, _, h⟩ := h
  split at h
  next hclear =>
    simp only [bind_eq_ok, require_eq_ok, return_eq_ok] at h
    obtain ⟨_, ⟨houtcome, hnone, _, _⟩, rfl⟩ := h
    exact .clear hk hclear (Option.isSome_of_any houtcome) hnone
  next hset =>
    simp only [bind_eq_ok, require_eq_ok, return_eq_ok] at h
    obtain ⟨_, houtcome, rfl⟩ := h
    exact .window hk houtcome

theorem actionChecked_ok {a : Applied} {kind : UInt32} {u : Unit} (h : actionChecked c a kind b = .ok u) :
    a.configPending = none ∧ actionOf b ≤ (if isForward kind then 3 else 4) ∧ serviceOf b < 4 ∧
      windowOf b = a.active.window ∧ (isForward kind → windowOf b = (if serviceOf b < 2 then 1 else 2)) ∧
      (isForward kind → a.restoring = false) := by
  unfold actionChecked at h
  simp only [bind_eq_ok, require_eq_ok] at h
  obtain ⟨_, ⟨_, hconfig⟩, _, ⟨⟨_, hbound, hservice⟩, hwindow, _, _, _, _, _, _, hphase⟩, hrestoring⟩ := h
  refine ⟨Option.isNone_iff_eq_none.mp hconfig, hbound, hservice, hwindow, ?_, ?_⟩
  · intro hforward
    rw [if_pos hforward] at hphase
    exact hphase.2
  · intro hforward
    simpa [hforward] using hrestoring

theorem actionIntent_move {u : Unit} (hk : r.kind = 100 ∨ r.kind = 104) (hlive : Live a)
    (hchecked : actionChecked c a r.kind r.bytes = .ok u)
    (h : actionIntent a r.kind r.sequence r.bytes = .ok a') : Move codecs c.plan.configs a r a' := by
  obtain ⟨hconfig, hbound, hservice, hactive, hwindow, hrestoring⟩ := actionChecked_ok hchecked
  unfold actionIntent at h
  simp only [bind_eq_ok, require_eq_ok, return_eq_ok] at h
  obtain ⟨_, ⟨hpending, _, haction⟩, _, hfirst, _, _, rfl⟩ := h
  have hpending := Option.isNone_iff_eq_none.mp hpending
  rcases hk with hk | hk
  · have hforward : isForward r.kind := .inl hk
    rw [if_pos hforward] at haction hbound
    have hdue : ForwardDue a r.bytes :=
      ⟨hservice, haction, hbound, hactive, hwindow hforward, by
        intro hsecond
        by_contra hnot
        exact hfirst ⟨hforward, hsecond, hnot⟩⟩
    have hmove : Move codecs c.plan.configs a r _ := .forwardIntent hk hlive hpending hconfig (hrestoring hforward) hdue
    simpa [hk] using hmove
  · have hback : ¬ isForward r.kind := by simp [isForward, hk]
    rw [if_neg hback] at haction hbound
    have hmove : Move codecs c.plan.configs a r _ := .restoreIntent hk hlive hpending hconfig ⟨hservice, haction, hbound⟩
    simpa [hk] using hmove

theorem actionAbandon_move (hk : r.kind = 106) (hlive : Live a)
    (h : actionAbandon a r.bytes = .ok a') : Move codecs c.plan.configs a r a' := by
  unfold actionAbandon at h
  simp only [bind_eq_ok, require_eq_ok, return_eq_ok] at h
  obtain ⟨p, _, _, _, rfl⟩ := h
  exact .abandon hk hlive

theorem actionDone_move {u : Unit} (hk : r.kind = 101 ∨ r.kind = 105) (hlive : Live a)
    (hchecked : actionChecked c a r.kind r.bytes = .ok u)
    (h : actionDone a r.kind r.sequence r.bytes = .ok a') : Move codecs c.plan.configs a r a' := by
  obtain ⟨_, _, _, hactive, hwindow, hrestoring⟩ := actionChecked_ok hchecked
  unfold actionDone at h
  simp only [bind_eq_ok, require_eq_ok, demand_eq_ok] at h
  obtain ⟨p, hp, _, ⟨hkind, hintent, hfields, hprocess⟩, h⟩ := h
  have hmatches : Matches p r.bytes := ⟨hintent, hfields, hprocess⟩
  rcases hk with hk | hk
  · rw [if_pos hk] at h hkind
    have ha' : a' = finishForward a r.sequence r.bytes := by
      unfold finishForward
      split at h
      next hthree =>
        rw [return_eq_ok] at h
        rw [if_pos hthree, h]
      next hless =>
        rw [return_eq_ok] at h
        rw [if_neg hless, h]
    rw [ha']
    exact .forwardDone p hk hlive (hrestoring (.inr hk)) hp hkind hmatches hactive (hwindow (.inr hk))
  · have hnot : ¬ r.kind = 101 := by simp [hk]
    rw [if_neg hnot] at h hkind
    simp only [bind_eq_ok, require_eq_ok] at h
    obtain ⟨_, _, h⟩ := h
    have ha' : a' = finishRestore a r.sequence r.bytes := by
      unfold finishRestore
      split at h
      next hthree =>
        rw [return_eq_ok] at h
        rw [if_pos hthree, h]
      next hless =>
        rw [return_eq_ok] at h
        rw [if_neg hless, h]
    rw [ha']
    exact .restoreDone p hk hlive hp hkind hmatches

theorem applyConfig_move (hk : r.kind = 21 ∨ r.kind = 22) (hlive : Live a)
    (h : applyConfig c a r.kind r.sequence r.bytes = .ok a') : Move codecs c.plan.configs a r a' := by
  unfold applyConfig at h
  simp only [bind_eq_ok, require_eq_ok] at h
  obtain ⟨_, ⟨_, hpending⟩, _, ⟨⟨hi, hdirection⟩, hrestoring, _⟩, h⟩ := h
  have hpending := Option.isNone_iff_eq_none.mp hpending
  rcases hk with hk | hk
  · rw [if_pos hk] at h
    simp only [bind_eq_ok, require_eq_ok, return_eq_ok] at h
    obtain ⟨_, hconfig, rfl⟩ := h
    exact .configIntent hk hlive hpending (Option.isNone_iff_eq_none.mp hconfig) hrestoring
  · have hnot : ¬ r.kind = 21 := by simp [hk]
    rw [if_neg hnot] at h
    simp only [bind_eq_ok, require_eq_ok, demand_eq_ok, return_eq_ok] at h
    obtain ⟨p, hp, _, ⟨href, hdir⟩, rfl⟩ := h
    have hfound : c.plan.configs[c.plan.configs.findIdx (· = referenceOf r.bytes)]? = some (referenceOf r.bytes) := by
      rw [List.getElem?_eq_getElem hi]
      simpa using List.findIdx_getElem (w := hi)
    exact .configDone p _ hk hlive hpending hp hfound hdirection hrestoring href hdir

theorem applyConfigAbandon_move (hk : r.kind = 107) (hlive : Live a)
    (h : applyConfigAbandon c a r.bytes = .ok a') : Move codecs c.plan.configs a r a' := by
  unfold applyConfigAbandon at h
  simp only [bind_eq_ok, require_eq_ok, return_eq_ok] at h
  obtain ⟨_, _, _, _, rfl⟩ := h
  exact .configAbandon hk hlive

theorem completionCommitted_ok {a : Applied} {sequence : Nat} {p : Proof}
    (h : completionCommitted sha256 codecs j c a sequence b = .ok p) :
    a.restoring = false ∧ p.kind = 102 ∧ (∀ i < 12, a.configCandidate i = true) ∧ ∀ i < 4, a.forward i = 3 := by
  unfold completionCommitted at h
  simp only [bind_eq_ok, require_eq_ok, return_eq_ok] at h
  obtain ⟨_, ⟨⟨hrestoring, _⟩, _⟩, _, hconfigs, _, hservices, rfl⟩ := h
  refine ⟨hrestoring, rfl, fun i hi => (hconfigs i (List.mem_range.mpr hi)).1, ?_⟩
  intro i hi
  have hservice := forM_ok hservices i (List.mem_range.mpr hi)
  unfold completionService at hservice
  simp only [bind_eq_ok, require_eq_ok] at hservice
  obtain ⟨_, ⟨hforward, _⟩, _⟩ := hservice
  exact hforward

theorem completionRestored_ok {a : Applied} {sequence : Nat} {p : Proof}
    (h : completionRestored sha256 j c a sequence b = .ok p) :
    a.restoring = true ∧ p.kind = 108 ∧ ∀ i < 4, 3 ≤ a.restored i ∧ u32 b (201 + i * 4) = a.oldPids i ∧
      u64 b (217 + i * 8) = a.oldBirths i ∧ u64 b (345 + i * 8) = a.restoreDone i := by
  unfold completionRestored at h
  simp only [bind_eq_ok, require_eq_ok, return_eq_ok] at h
  obtain ⟨_, ⟨⟨hrestoring, _⟩, _⟩, _, _, _, hservices, rfl⟩ := h
  refine ⟨hrestoring, rfl, ?_⟩
  intro i hi
  obtain ⟨hrestored, _, hpid, hbirth, hdone⟩ := hservices i (List.mem_range.mpr hi)
  exact ⟨hrestored, hpid, hbirth, hdone⟩

theorem applyCompletion_move (hk : r.kind = 102 ∨ r.kind = 108) (hlive : Live a)
    (h : applyCompletion sha256 codecs j c a r.kind r.sequence r.bytes = .ok a') : Move codecs c.plan.configs a r a' := by
  unfold applyCompletion at h
  rw [bind_eq_ok] at h
  obtain ⟨_, hopen, h⟩ := h
  obtain ⟨_, hpending, hconfig⟩ := require_eq_ok.mp hopen
  have hpending := Option.isNone_iff_eq_none.mp hpending
  have hconfig := Option.isNone_iff_eq_none.mp hconfig
  rcases hk with hk | hk
  · rw [if_pos hk] at h
    simp only [bind_eq_ok, require_eq_ok, return_eq_ok] at h
    obtain ⟨p, hp, _, _, rfl⟩ := h
    obtain ⟨hrestoring, hkind, hconfigs, hservices⟩ := completionCommitted_ok hp
    exact .committed p hk hlive hpending hconfig hrestoring hkind hconfigs hservices
  · rw [if_neg (by simp [hk])] at h
    simp only [bind_eq_ok, require_eq_ok, return_eq_ok] at h
    obtain ⟨p, hp, _, _, rfl⟩ := h
    obtain ⟨hrestoring, hkind, hservices⟩ := completionRestored_ok hp
    exact .restored p hk hlive hpending hconfig hrestoring hkind hservices

theorem applyOutcome_move (hk : r.kind = 103) (hnone : a.outcome = none)
    (h : applyOutcome codecs c a r.bytes = .ok a') : Move codecs c.plan.configs a r a' := by
  unfold applyOutcome at h
  simp only [bind_eq_ok, require_eq_ok, demand_eq_ok, return_eq_ok] at h
  obtain ⟨o, ho, _, _, _, _, _, hproof, rfl⟩ := h
  refine .outcome o hk hnone ho ?_
  intro hresult
  have hany := hproof.resolve_left hresult
  obtain ⟨p, hp⟩ := Option.isSome_iff_exists.mp (Option.isSome_of_any hany)
  rw [hp] at hany
  exact ⟨p, hp, hany⟩

theorem applyAction_move
    (hk : r.kind = 100 ∨ r.kind = 101 ∨ r.kind = 104 ∨ r.kind = 105 ∨ r.kind = 106) (hlive : Live a)
    (h : applyAction c a r.kind r.sequence r.bytes = .ok a') : Move codecs c.plan.configs a r a' := by
  unfold applyAction at h
  rw [bind_eq_ok] at h
  obtain ⟨_, hchecked, h⟩ := h
  split at h
  next hintent => exact actionIntent_move hintent hlive hchecked h
  next hintent =>
    split at h
    next habandon => exact actionAbandon_move habandon hlive h
    next habandon => exact actionDone_move (by grind) hlive hchecked h

theorem isApplied_cases {kind : UInt32} (hk : isApplied kind) : kind = 65 ∨ (kind = 21 ∨ kind = 22) ∨ kind = 107 ∨
    (kind = 102 ∨ kind = 108) ∨ kind = 103 ∨
      (kind = 100 ∨ kind = 101 ∨ kind = 104 ∨ kind = 105 ∨ kind = 106) := by
  rcases hk with hk | hk | hk | ⟨hlow, hhigh⟩
  · exact .inr (.inl (.inl hk))
  · exact .inr (.inl (.inr hk))
  · exact .inl hk
  · have hlow' : 100 ≤ kind.toNat := UInt32.le_iff_toNat_le.mp hlow
    have hhigh' : kind.toNat ≤ 108 := UInt32.le_iff_toNat_le.mp hhigh
    simp only [← UInt32.toNat_inj]
    change kind.toNat = 65 ∨ _
    simp
    omega

theorem applyVisit_move (hk : isApplied r.kind)
    (h : applyVisit sha256 codecs j c a r.kind r.sequence r.bytes = .ok a') : Move codecs c.plan.configs a r a' := by
  unfold applyVisit at h
  split at h
  next hstate => exact applyState_move hstate h
  next hstate =>
    simp only [bind_eq_ok, require_eq_ok] at h
    obtain ⟨_, ⟨hwindow, houtcome⟩, _, hproof, h⟩ := h
    have hlive (hnot : r.kind ≠ 103) : Live a :=
      ⟨hwindow, houtcome, Option.isNone_iff_eq_none.mp (hproof.resolve_right hnot)⟩
    rcases isApplied_cases hk with hk | hk | hk | hk | hk | hk
    · exact absurd hk hstate
    · rw [if_pos hk] at h
      exact applyConfig_move hk (hlive (by grind)) h
    · rw [if_neg (by simp [hk]), if_pos hk] at h
      exact applyConfigAbandon_move hk (hlive (by simp [hk])) h
    · rw [if_neg (by grind), if_neg (by grind), if_pos hk] at h
      exact applyCompletion_move hk (hlive (by grind)) h
    · rw [if_neg (by simp [hk]), if_neg (by simp [hk]), if_neg (by simp [hk]), if_pos hk] at h
      exact applyOutcome_move hk houtcome h
    · rw [if_neg (by grind), if_neg (by grind), if_neg (by grind), if_neg (by grind)] at h
      exact applyAction_move hk (hlive (by grind)) h

def configsOf {L : Type} (s : Scan L) : List Nat := (s.typedPlan.map TypedPlan.configs).getD []

theorem contextOf_configs {s : Scan L} (h : contextOf s = some c) : configsOf s = c.plan.configs := by
  unfold contextOf at h
  split at h
  next hplan _ _ =>
    split at h
    next =>
      cases h
      simp [configsOf, hplan]
    next => simp at h
  next => simp at h

/-- What the records before the update leave alone: only the operation plan brings a list
of configuration plans, and it comes once. -/
structure Prepares (s : Scan L) (r : Record) (s' : Scan L) : Prop where
  applied : s'.applied = s.applied
  terminal : s.terminal = true → s'.terminal = true
  plan : (s'.planSequence = s.planSequence ∧ s'.typedPlan = s.typedPlan) ∨
    (r.kind = 64 ∧ s.planSequence = none ∧ s'.planSequence.isSome = true ∧
      ∀ plan, s'.typedPlan = some plan → plan.configs = (List.range 12).map fun i => u64 r.bytes (28 + i * 8))

theorem applyPlan_configs {packages sequence : Nat} {plan : TypedPlan}
    (h : applyPlan j packages sequence b = .ok (some plan)) :
    plan.configs = (List.range 12).map fun i => u64 b (28 + i * 8) := by
  unfold applyPlan at h
  split at h
  next => simp at h
  next =>
    simp only [bind_eq_ok, require_eq_ok, return_eq_ok] at h
    obtain ⟨_, ⟨⟨_, _, hcount, _⟩, _⟩, _, _, _, _, h⟩ := h
    cases h
    rw [hcount]

theorem Prepares.kept {p : Prop} [Decidable p] {e : Win32Error} {s t s' : Scan L}
    (h : (do require p e; pure t) = .ok s') (ht : Prepares s r t) : Prepares s r s' := by
  simp only [bind_eq_ok, require_eq_ok, return_eq_ok] at h
  obtain ⟨_, _, rfl⟩ := h
  exact ht

theorem visitPreparation_prepares {s s' : Scan L} (h : visitPreparation sha256 codecs j s r = .ok s') :
    Prepares s r s' := by
  unfold visitPreparation at h
  dsimp only at h
  rcases ite_eq_ok.mp h with ⟨hk, h⟩ | ⟨_, h⟩
  · simp only [bind_eq_ok, require_eq_ok, demand_eq_ok, return_eq_ok] at h
    obtain ⟨_, _, _, _, _, _, rfl⟩ := h
    exact ⟨rfl, id, .inl ⟨rfl, rfl⟩⟩
  rcases ite_eq_ok.mp h with ⟨hk, h⟩ | ⟨_, h⟩
  · simp only [bind_eq_ok, require_eq_ok, demand_eq_ok, return_eq_ok] at h
    obtain ⟨_, _, _, _, rfl⟩ := h
    exact ⟨rfl, id, .inl ⟨rfl, rfl⟩⟩
  rcases ite_eq_ok.mp h with ⟨hk, h⟩ | ⟨_, h⟩
  · exact Prepares.kept h ⟨rfl, id, .inl ⟨rfl, rfl⟩⟩
  rcases ite_eq_ok.mp h with ⟨hk, h⟩ | ⟨_, h⟩
  · exact Prepares.kept h ⟨rfl, id, .inl ⟨rfl, rfl⟩⟩
  rcases ite_eq_ok.mp h with ⟨hk, h⟩ | ⟨_, h⟩
  · exact Prepares.kept h ⟨rfl, id, .inl ⟨rfl, rfl⟩⟩
  rcases ite_eq_ok.mp h with ⟨hk, h⟩ | ⟨_, h⟩
  · exact Prepares.kept h ⟨rfl, id, .inl ⟨rfl, rfl⟩⟩
  rcases ite_eq_ok.mp h with ⟨hk, h⟩ | ⟨_, h⟩
  · simp only [bind_eq_ok, require_eq_ok, demand_eq_ok, return_eq_ok] at h
    obtain ⟨packages, _, _, hnone, typed, htyped, rfl⟩ := h
    refine ⟨rfl, id, .inr ⟨hk, Option.isNone_iff_eq_none.mp hnone, rfl, ?_⟩⟩
    rintro plan rfl
    exact applyPlan_configs htyped
  rcases ite_eq_ok.mp h with ⟨hk, h⟩ | ⟨_, h⟩
  · simp only [bind_eq_ok, require_eq_ok, demand_eq_ok, return_eq_ok] at h
    obtain ⟨_, _, _, _, rfl⟩ := h
    exact ⟨rfl, fun _ => rfl, .inl ⟨rfl, rfl⟩⟩
  rcases ite_eq_ok.mp h with ⟨hk, h⟩ | ⟨_, h⟩
  · simp only [bind_eq_ok, require_eq_ok, demand_eq_ok, return_eq_ok] at h
    obtain ⟨_, _, _, _, _, _, _, _, rfl⟩ := h
    exact ⟨rfl, id, .inl ⟨rfl, rfl⟩⟩
  rcases ite_eq_ok.mp h with ⟨hk, h⟩ | ⟨_, h⟩
  · exact Prepares.kept h ⟨rfl, id, .inl ⟨rfl, rfl⟩⟩
  rcases ite_eq_ok.mp h with ⟨hk, h⟩ | ⟨_, h⟩
  · simp only [bind_eq_ok, require_eq_ok, demand_eq_ok, return_eq_ok] at h
    obtain ⟨_, _, _, _, _, _, _, _, _, _, rfl⟩ := h
    exact ⟨rfl, id, .inl ⟨rfl, rfl⟩⟩
  rcases ite_eq_ok.mp h with ⟨hk, h⟩ | ⟨_, h⟩
  · simp only [bind_eq_ok, require_eq_ok, demand_eq_ok, return_eq_ok] at h
    obtain ⟨_, _, _, _, _, _, rfl⟩ := h
    exact ⟨rfl, id, .inl ⟨rfl, rfl⟩⟩
  rcases ite_eq_ok.mp h with ⟨hk, h⟩ | ⟨_, h⟩
  · exact Prepares.kept h ⟨rfl, id, .inl ⟨rfl, rfl⟩⟩
  rcases ite_eq_ok.mp h with ⟨hk, h⟩ | ⟨_, h⟩
  · simp only [bind_eq_ok, require_eq_ok, demand_eq_ok, return_eq_ok] at h
    obtain ⟨_, _, _, _, _, _, rfl⟩ := h
    exact ⟨rfl, fun _ => rfl, .inl ⟨rfl, rfl⟩⟩
  cases h

/-- One accepted record, of whatever kind. -/
structure Visited (codecs : Codecs L) (s : Scan L) (r : Record) (s' : Scan L) : Prop where
  isOpen : visitOpen s r.kind
  move : Move codecs (configsOf s) s.applied r s'.applied
  terminal : s.terminal = true ∨ r.kind = 103 → s'.terminal = true
  plan : (s'.planSequence = s.planSequence ∧ s'.typedPlan = s.typedPlan) ∨
    (r.kind = 64 ∧ s.planSequence = none ∧ s'.planSequence.isSome = true ∧
      ∀ plan, s'.typedPlan = some plan → plan.configs = (List.range 12).map fun i => u64 r.bytes (28 + i * 8))

theorem visit_visited {s s' : Scan L} (h : visit sha256 codecs j s r = .ok s') : Visited codecs s r s' := by
  unfold visit at h
  rw [bind_eq_ok] at h
  obtain ⟨_, hopen, h⟩ := h
  have hopen := require_eq_ok.mp hopen
  rcases ite_eq_ok.mp h with ⟨hk, h⟩ | ⟨hk, h⟩
  · simp only [bind_eq_ok, demand_eq_ok, return_eq_ok] at h
    obtain ⟨c, hc, a, ha, rfl⟩ := h
    refine ⟨hopen, ?_, ?_, .inl ⟨rfl, rfl⟩⟩
    · rw [contextOf_configs hc]
      exact applyVisit_move hk ha
    · rintro (hterminal | hkind)
      · simp [hterminal]
      · simp [hkind]
  · have hprepares := visitPreparation_prepares h
    refine ⟨hopen, ?_, ?_, hprepares.plan⟩
    · rw [hprepares.applied]
      exact .preparation hk
    · rintro (hterminal | hkind)
      · exact hprepares.terminal hterminal
      · exact absurd (hkind ▸ by decide) hk

end Inversion

end EtranProcessing.Deployment.StatusMoves
