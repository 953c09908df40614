import EtranProcessing.Deployment.StatusMoves
import EtranProcessing.Library.Histories

namespace EtranProcessing.Deployment.OutcomeHistory

open Library.Histories Library.Fallible Journal RemoteStatus StatusMoves

def ofKind (kind : UInt32) (h : List Record) : List Record := h.filter fun r => r.kind = kind

def windowAt (h : List Record) : Nat := ((ofKind 65 h).getLast?.map fun r => (activeOf r.bytes).window).getD 0

def serviceRecords (kind : UInt32) (i : Nat) (h : List Record) : List Record :=
  h.filter fun r => r.kind = kind ∧ serviceOf r.bytes = i

def actionsDone (kind : UInt32) (i : Nat) (h : List Record) : List Nat :=
  (serviceRecords kind i h).map fun r => actionOf r.bytes

def isConfig (kind : UInt32) : Prop := kind = 21 ∨ kind = 22

instance (kind : UInt32) : Decidable (isConfig kind) := by
  unfold isConfig
  infer_instance

/-- A record that finishes an announced action. -/
structure Finishes (intent done : UInt32) (q r : Record) : Prop where
  announced : q.kind = intent
  finished : r.kind = done
  reference : intentOf r.bytes = q.sequence
  fields : part r.bytes 12 44 = part q.bytes 12 44
  process : actionOf r.bytes = 3 ∨ part r.bytes 56 16 = part q.bytes 56 16

structure ConfigFinishes (q r : Record) : Prop where
  announced : q.kind = 21
  finished : r.kind = 22
  reference : referenceOf r.bytes = referenceOf q.bytes
  direction : directionOf r.bytes = directionOf q.bytes

def rollsBack (r : Record) : Prop :=
  (104 ≤ r.kind ∧ r.kind ≤ 108) ∨ (isConfig r.kind ∧ directionOf r.bytes = 0)

def inOrder (before : List Record) (r : Record) : Prop :=
  isForward r.kind → 2 ≤ serviceOf r.bytes →
    (windowOf r.bytes = 2 ∧ windowAt before = 2) ∧ actionsDone 101 0 before = [1, 2, 3] ∧
      actionsDone 101 1 before = [1, 2, 3]

/-- What stands before an outcome that reports success. -/
structure Committed (h : List Record) : Prop where
  proof : ∃ r, ofKind 102 h = [r]
  forward : ∀ r ∈ h, ¬ rollsBack r
  actions : Paired (Finishes 100 101) (h.filter fun r => isForward r.kind)
  services : ∀ i < 4, (h.filter fun r => isForward r.kind ∧ serviceOf r.bytes = i).map
    (fun r => (r.kind, actionOf r.bytes)) = [(100, 1), (101, 1), (100, 2), (101, 2), (100, 3), (101, 3)]
  second : Everywhere inOrder h
  configs : Paired ConfigFinishes (h.filter fun r => isConfig r.kind)
  applied : ∃ plan ∈ h, plan.kind = 64 ∧ ∀ i < 12, ∃ r ∈ h, r.kind = 22 ∧ directionOf r.bytes = 1 ∧
    referenceOf r.bytes = u64 plan.bytes (28 + i * 8)

/-- What stands before an outcome that reports the old version restored. -/
structure Restored (h : List Record) : Prop where
  proof : ∃ p, ofKind 108 h = [p] ∧ ∀ i < 4, ∃ r, (serviceRecords 105 i h).getLast? = some r ∧
    (actionOf r.bytes = 3 ∨ actionOf r.bytes = 4) ∧ u32 p.bytes (201 + i * 4) = u32 r.bytes 56 ∧
    u64 p.bytes (217 + i * 8) = u64 r.bytes 64 ∧ u64 p.bytes (345 + i * 8) = r.sequence
  actions : ∀ i < 4, actionsDone 105 i h ∈ [[1, 2, 3], [1, 2, 3, 4], [4]]
  announced : Everywhere (fun before r => r.kind = 105 → ∃ q ∈ before, Finishes 104 105 q r) h

def cleared (after : List Record) : Prop :=
  after = [] ∨ ∃ c, after = [c] ∧ c.kind = 65 ∧ (activeOf c.bytes).window = 0

section Concat

variable (kind : UInt32) (i : Nat) (h : List Record) (r : Record)

theorem ofKind_concat : ofKind kind (h ++ [r]) = ofKind kind h ++ if r.kind = kind then [r] else [] := by
  by_cases hk : r.kind = kind
  · simp [ofKind, hk]
  · simp [ofKind, hk]

theorem serviceRecords_concat : serviceRecords kind i (h ++ [r]) =
    serviceRecords kind i h ++ if r.kind = kind ∧ serviceOf r.bytes = i then [r] else [] := by
  by_cases hk : r.kind = kind ∧ serviceOf r.bytes = i
  · simp [serviceRecords, hk]
  · simp only [serviceRecords, List.filter_append, hk]
    simp [hk]

theorem actionsDone_concat : actionsDone kind i (h ++ [r]) =
    actionsDone kind i h ++ if r.kind = kind ∧ serviceOf r.bytes = i then [actionOf r.bytes] else [] := by
  rw [actionsDone, serviceRecords_concat, List.map_append]
  congr 1
  split
  next => rfl
  next => rfl

theorem windowAt_concat : windowAt (h ++ [r]) = if r.kind = 65 then (activeOf r.bytes).window else windowAt h := by
  by_cases hk : r.kind = 65
  · simp [windowAt, ofKind_concat, hk]
  · simp [windowAt, ofKind_concat, hk]

end Concat

/-- What the state of the forward actions says about the history. -/
structure ForwardTold (h : List Record) (a : Applied) : Prop where
  window : a.active.window = windowAt h
  done : ∀ i, actionsDone 101 i h = (List.range (a.forward i)).map (· + 1)
  bound : ∀ i, a.forward i ≤ 3
  due : ∀ p, a.pending = some p → p.kind = 100 →
    actionOf p.bytes = a.forward (serviceOf p.bytes) + 1 ∧ actionOf p.bytes ≤ 3 ∧
      (2 ≤ serviceOf p.bytes → a.forward 0 = 3 ∧ a.forward 1 = 3)
  order : Everywhere inOrder h

section Steps

variable {L : Type} {codecs : Codecs L} {configs : List Nat} {h : List Record} {a a' : Applied} {r : Record}

theorem ForwardTold.aside (t : ForwardTold h a) (hstate : r.kind ≠ 65) (hforward : ¬ isForward r.kind)
    (hactive : a'.active = a.active) (hdone : a'.forward = a.forward)
    (hdue : ∀ p, a'.pending = some p → p.kind = 100 → a.pending = some p) : ForwardTold (h ++ [r]) a' := by
  have hnot : r.kind ≠ 101 := fun hk => hforward (.inr hk)
  refine ⟨?_, ?_, ?_, ?_, t.order.concat fun hk => absurd hk hforward⟩
  · rw [hactive, windowAt_concat, if_neg hstate, t.window]
  · intro i
    rw [actionsDone_concat, if_neg fun hr => hnot hr.1, List.append_nil, hdone, t.done]
  · simpa only [hdone] using t.bound
  · intro p hp hk
    simpa only [hdone] using t.due p (hdue p hp hk) hk

theorem ForwardTold.state (t : ForwardTold h a) (hk : r.kind = 65) (hactive : a'.active = activeOf r.bytes)
    (hdone : a'.forward = a.forward) (hpending : a'.pending = a.pending) : ForwardTold (h ++ [r]) a' := by
  have hnot : r.kind ≠ 101 := by simp [hk]
  have hforward : ¬ isForward r.kind := by simp [isForward, hk]
  refine ⟨?_, ?_, ?_, ?_, t.order.concat fun hf => absurd hf hforward⟩
  · rw [hactive, windowAt_concat, if_pos hk]
  · intro i
    rw [actionsDone_concat, if_neg fun hr => hnot hr.1, List.append_nil, hdone, t.done]
  · simpa only [hdone] using t.bound
  · intro p hp hpk
    rw [hdone]
    exact t.due p (hpending ▸ hp) hpk

theorem ForwardTold.complete (t : ForwardTold h a) {i : Nat} (hi : a.forward i = 3) : actionsDone 101 i h = [1, 2, 3] := by
  rw [t.done, hi]
  rfl

theorem ForwardTold.intent (t : ForwardTold h a) (hk : r.kind = 100) (hdue : ForwardDue a r.bytes) :
    ForwardTold (h ++ [r]) { a with pending := some ⟨100, r.sequence, r.bytes⟩ } := by
  have hsecond (hservice : 2 ≤ serviceOf r.bytes) : windowOf r.bytes = 2 := by
    rw [hdue.window, if_neg (by omega)]
  refine ⟨?_, ?_, t.bound, ?_, t.order.concat ?_⟩
  · rw [windowAt_concat, if_neg (by simp [hk])]
    exact t.window
  · intro i
    rw [actionsDone_concat, if_neg (by simp [hk]), List.append_nil]
    exact t.done i
  · intro p hp _
    cases hp
    exact ⟨hdue.action, hdue.bound, fun hservice => hdue.first (hsecond hservice)⟩
  · intro _ hservice
    obtain ⟨hzero, hone⟩ := hdue.first (hsecond hservice)
    refine ⟨⟨hsecond hservice, ?_⟩, t.complete hzero, t.complete hone⟩
    rw [← t.window, ← hdue.active]
    exact hsecond hservice

theorem finishForward_kept (a : Applied) (sequence : Nat) (b : Bytes) :
    (finishForward a sequence b).restoring = a.restoring ∧ (finishForward a sequence b).active = a.active ∧
      (finishForward a sequence b).configPending = a.configPending ∧
      (finishForward a sequence b).configCandidate = a.configCandidate ∧
      (finishForward a sequence b).restored = a.restored ∧ (finishForward a sequence b).oldPids = a.oldPids ∧
      (finishForward a sequence b).oldBirths = a.oldBirths ∧
      (finishForward a sequence b).restoreDone = a.restoreDone ∧ (finishForward a sequence b).proof = a.proof ∧
      (finishForward a sequence b).outcome = a.outcome ∧ (finishForward a sequence b).clear = a.clear := by
  unfold finishForward
  split
  next => simp
  next => simp

theorem finishRestore_kept (a : Applied) (sequence : Nat) (b : Bytes) :
    (finishRestore a sequence b).restoring = a.restoring ∧ (finishRestore a sequence b).active = a.active ∧
      (finishRestore a sequence b).configPending = a.configPending ∧
      (finishRestore a sequence b).configCandidate = a.configCandidate ∧
      (finishRestore a sequence b).forward = a.forward ∧ (finishRestore a sequence b).proof = a.proof ∧
      (finishRestore a sequence b).outcome = a.outcome ∧ (finishRestore a sequence b).clear = a.clear := by
  unfold finishRestore
  split
  next => simp
  next => simp

@[simp] theorem finishForward_forward (a : Applied) (sequence : Nat) (b : Bytes) :
    (finishForward a sequence b).forward = Function.update a.forward (serviceOf b) (actionOf b) := by
  unfold finishForward
  split
  next => rfl
  next => rfl

@[simp] theorem finishForward_pending (a : Applied) (sequence : Nat) (b : Bytes) :
    (finishForward a sequence b).pending = none := by
  unfold finishForward
  split
  next => rfl
  next => rfl

theorem ForwardTold.finish (t : ForwardTold h a) {p : Pending} (hk : r.kind = 101) (hp : a.pending = some p)
    (hpk : p.kind = 100) (hmatches : Matches p r.bytes) (hactive : windowOf r.bytes = a.active.window)
    (hwindow : windowOf r.bytes = if serviceOf r.bytes < 2 then 1 else 2) :
    ForwardTold (h ++ [r]) (finishForward a r.sequence r.bytes) := by
  obtain ⟨haction, hbound, hfirst⟩ := t.due p hp hpk
  rw [← hmatches.action, ← hmatches.service] at haction
  rw [← hmatches.action] at hbound
  rw [← hmatches.service] at hfirst
  refine ⟨?_, ?_, ?_, ?_, t.order.concat ?_⟩
  · rw [windowAt_concat, if_neg (by simp [hk]), (finishForward_kept a _ _).2.1, t.window]
  · intro i
    rw [actionsDone_concat, t.done, finishForward_forward]
    by_cases hi : serviceOf r.bytes = i
    · subst hi
      rw [if_pos ⟨hk, rfl⟩, Function.update_self, haction, List.range_succ]
      simp
    · rw [if_neg fun hr => hi hr.2, Function.update_of_ne (Ne.symm hi), List.append_nil]
  · intro i
    rw [finishForward_forward]
    by_cases hi : i = serviceOf r.bytes
    · rw [hi, Function.update_self]
      exact hbound
    · rw [Function.update_of_ne hi]
      exact t.bound i
  · simp
  · intro _ hservice
    have hsecond : windowOf r.bytes = 2 := by rw [hwindow, if_neg (by omega)]
    obtain ⟨hzero, hone⟩ := hfirst hservice
    exact ⟨⟨hsecond, by rw [← t.window, ← hactive, hsecond]⟩, t.complete hzero, t.complete hone⟩

@[simp] theorem finishRestore_pending (a : Applied) (sequence : Nat) (b : Bytes) :
    (finishRestore a sequence b).pending = none := by
  unfold finishRestore
  split
  next => rfl
  next => rfl

theorem not_isForward_of_not_isApplied {kind : UInt32} (hk : ¬ isApplied kind) : ¬ isForward kind := by
  rintro (rfl | rfl)
  · exact hk (by decide)
  · exact hk (by decide)

theorem ForwardTold.step (t : ForwardTold h a) (hm : Move codecs configs a r a') : ForwardTold (h ++ [r]) a' := by
  cases hm with
  | preparation hk =>
      exact t.aside (fun hr => hk (hr ▸ by decide)) (not_isForward_of_not_isApplied hk) rfl rfl fun _ hp _ => hp
  | window hk _ | clear hk _ _ _ => exact t.state hk rfl rfl rfl
  | forwardIntent hk _ _ _ _ hdue => exact t.intent hk hdue
  | restoreIntent hk _ _ _ _ => exact t.aside (by simp [hk]) (by simp [isForward, hk]) rfl rfl (by grind)
  | abandon hk _ => exact t.aside (by simp [hk]) (by simp [isForward, hk]) rfl rfl (by simp)
  | forwardDone p hk _ _ hp hpk hmatches hactive hwindow => exact t.finish hk hp hpk hmatches hactive hwindow
  | restoreDone p hk _ _ _ _ =>
      obtain ⟨_, hactive, _, _, hforward, _⟩ := finishRestore_kept a r.sequence r.bytes
      exact t.aside (by simp [hk]) (by simp [isForward, hk]) hactive hforward (by simp)
  | configIntent hk | configDone p i hk | configAbandon hk | committed p hk | restored p hk | outcome o hk =>
      exact t.aside (by simp [hk]) (by simp [isForward, hk]) rfl rfl fun _ hp _ => hp

def asPending (q : Record) : Pending := ⟨q.kind, q.sequence, q.bytes⟩
def asConfigPending (q : Record) : ConfigPending := ⟨q.sequence, referenceOf q.bytes, directionOf q.bytes⟩

def forwardRecords (h : List Record) : List Record := h.filter fun r => isForward r.kind
def configRecords (h : List Record) : List Record := h.filter fun r => isConfig r.kind

/-- What the state says about the history as long as nothing has been restored. -/
structure Untouched (h : List Record) (a : Applied) : Prop where
  forward : ∀ r ∈ h, ¬ rollsBack r
  actions : ∃ o, Announced (Finishes 100 101) o (forwardRecords h) ∧ a.pending = o.map asPending
  configs : ∃ o, Announced ConfigFinishes o (configRecords h) ∧ a.configPending = o.map asConfigPending ∧
    ∀ q, o = some q → q.kind = 21

theorem forwardRecords_concat (h : List Record) (r : Record) :
    forwardRecords (h ++ [r]) = forwardRecords h ++ if isForward r.kind then [r] else [] := by
  by_cases hk : isForward r.kind
  · simp [forwardRecords, hk]
  · simp [forwardRecords, hk]

theorem configRecords_concat (h : List Record) (r : Record) :
    configRecords (h ++ [r]) = configRecords h ++ if isConfig r.kind then [r] else [] := by
  by_cases hk : isConfig r.kind
  · simp [configRecords, hk]
  · simp [configRecords, hk]

theorem forward_concat (hh : ∀ r ∈ h, ¬ rollsBack r) (hr : ¬ rollsBack r) : ∀ q ∈ h ++ [r], ¬ rollsBack q := by
  intro q hq
  rcases List.mem_append.mp hq with hq | hq
  · exact hh q hq
  · rw [List.mem_singleton.mp hq]
    exact hr

theorem Untouched.aside (t : Untouched h a) (hr : ¬ rollsBack r) (hforward : ¬ isForward r.kind)
    (hconfig : ¬ isConfig r.kind) (hpending : a'.pending = a.pending) (hconfigs : a'.configPending = a.configPending) :
    Untouched (h ++ [r]) a' where
  forward := forward_concat t.forward hr
  actions := by
    rw [forwardRecords_concat, if_neg hforward, List.append_nil, hpending]
    exact t.actions
  configs := by
    rw [configRecords_concat, if_neg hconfig, List.append_nil, hconfigs]
    exact t.configs

theorem Untouched.intent (t : Untouched h a) (hk : r.kind = 100) (hpending : a.pending = none) :
    Untouched (h ++ [r]) { a with pending := some ⟨100, r.sequence, r.bytes⟩ } where
  forward := forward_concat t.forward (by simp [rollsBack, isConfig, hk])
  actions := by
    obtain ⟨o, ho, heq⟩ := t.actions
    rw [hpending] at heq
    obtain rfl := Option.map_eq_none_iff.mp heq.symm
    rw [forwardRecords_concat, if_pos (.inl hk)]
    exact ⟨some r, ho.announce r, by simp [asPending, hk]⟩
  configs := by
    rw [configRecords_concat, if_neg (by simp [isConfig, hk]), List.append_nil]
    exact t.configs

theorem Untouched.finish (t : Untouched h a) {p : Pending} (hk : r.kind = 101) (hp : a.pending = some p)
    (hpk : p.kind = 100) (hmatches : Matches p r.bytes) (hpending : a'.pending = none)
    (hconfigs : a'.configPending = a.configPending) : Untouched (h ++ [r]) a' where
  forward := forward_concat t.forward (by simp [rollsBack, isConfig, hk])
  actions := by
    obtain ⟨o, ho, heq⟩ := t.actions
    rw [hp] at heq
    obtain ⟨q, rfl, rfl⟩ := Option.map_eq_some_iff.mp heq.symm
    rw [forwardRecords_concat, if_pos (.inr hk)]
    exact ⟨none, ho.finish ⟨hpk, hk, hmatches.intent, hmatches.fields, hmatches.process⟩, hpending⟩
  configs := by
    rw [configRecords_concat, if_neg (by simp [isConfig, hk]), List.append_nil, hconfigs]
    exact t.configs

theorem Untouched.configIntent (t : Untouched h a) (hk : r.kind = 21) (hnone : a.configPending = none)
    (hdirection : directionOf r.bytes = 1) :
    Untouched (h ++ [r]) { a with configPending := some ⟨r.sequence, referenceOf r.bytes, directionOf r.bytes⟩ } where
  forward := forward_concat t.forward (by simp [rollsBack, hk, hdirection])
  actions := by
    rw [forwardRecords_concat, if_neg (by simp [isForward, hk]), List.append_nil]
    exact t.actions
  configs := by
    obtain ⟨o, ho, heq, _⟩ := t.configs
    rw [hnone] at heq
    obtain rfl := Option.map_eq_none_iff.mp heq.symm
    rw [configRecords_concat, if_pos (.inl hk)]
    refine ⟨some r, ho.announce r, rfl, ?_⟩
    intro q hq
    cases hq
    exact hk

theorem Untouched.configDone (t : Untouched h a) {p : ConfigPending} (hk : r.kind = 22) (hp : a.configPending = some p)
    (hdirection : directionOf r.bytes = 1) (href : referenceOf r.bytes = p.reference)
    (hdir : directionOf r.bytes = p.direction) (hpending : a'.pending = a.pending) (hconfigs : a'.configPending = none) :
    Untouched (h ++ [r]) a' where
  forward := forward_concat t.forward (by simp [rollsBack, hk, hdirection])
  actions := by
    rw [forwardRecords_concat, if_neg (by simp [isForward, hk]), List.append_nil, hpending]
    exact t.actions
  configs := by
    obtain ⟨o, ho, heq, hkind⟩ := t.configs
    rw [hp] at heq
    obtain ⟨q, rfl, rfl⟩ := Option.map_eq_some_iff.mp heq.symm
    rw [configRecords_concat, if_pos (.inr hk)]
    refine ⟨none, ho.finish ⟨hkind q rfl, hk, href, hdir⟩, hconfigs, ?_⟩
    simp

theorem Untouched.pending_kind (t : Untouched h a) {p : Pending} (hp : a.pending = some p) : isForward p.kind := by
  obtain ⟨o, ho, heq⟩ := t.actions
  rw [hp] at heq
  obtain ⟨q, rfl, rfl⟩ := Option.map_eq_some_iff.mp heq.symm
  have hmem := ho.mem
  exact of_decide_eq_true (List.mem_filter.mp hmem).2

theorem Untouched.step (t : a.restoring = false → Untouched h a) (hm : Move codecs configs a r a')
    (hfree : a'.restoring = false) : Untouched (h ++ [r]) a' := by
  cases hm with
  | preparation hk =>
      refine (t hfree).aside ?_ (not_isForward_of_not_isApplied hk) ?_ rfl rfl
      · rintro (⟨hlow, hhigh⟩ | ⟨hconfig, _⟩)
        · exact hk (.inr (.inr (.inr ⟨UInt32.le_trans (by decide : (100 : UInt32) ≤ 104) hlow, hhigh⟩)))
        · exact hk (hconfig.elim .inl fun hr => .inr (.inl hr))
      · rintro (hr | hr)
        · exact hk (.inl hr)
        · exact hk (.inr (.inl hr))
  | window hk _ | clear hk _ _ _ | committed p hk | outcome o hk =>
      exact (t hfree).aside (by simp [rollsBack, isConfig, hk]) (by simp [isForward, hk]) (by simp [isConfig, hk]) rfl rfl
  | forwardIntent hk _ hpending => exact (t hfree).intent hk hpending
  | restoreIntent => cases hfree
  | abandon => cases hfree
  | configAbandon hk => cases hfree
  | forwardDone p hk _ _ hp hpk hmatches _ _ =>
      rw [(finishForward_kept a _ _).1] at hfree
      exact (t hfree).finish hk hp hpk hmatches (by simp) (by simp [finishForward_kept])
  | restoreDone p hk _ hp hpk _ =>
      rw [(finishRestore_kept a _ _).1] at hfree
      have hforward := (t hfree).pending_kind hp
      simp [isForward, hpk] at hforward
  | configIntent hk _ _ hnone hdirection => exact (t hfree).configIntent hk hnone (hdirection.mpr hfree)
  | configDone p i hk _ _ hp _ _ hdirection href hdir =>
      exact (t hfree).configDone hk hp (hdirection.mpr hfree) href hdir rfl rfl
  | restored p hk hlive hpending hconfig hrestoring => exact absurd (hrestoring.symm.trans hfree) (by simp)

/-- The restoring actions of one service so far: stop, switch, start and verify in turn, or
verify alone. -/
def restorePaths : List (List Nat) := [[], [1], [1, 2], [1, 2, 3], [1, 2, 3, 4], [4]]

theorem restorePaths_concat {l : List Nat} {x : Nat} (hl : l ∈ restorePaths)
    (hx : if l.getLastD 0 ≠ 0 then x = l.getLastD 0 + 1 else x = 1 ∨ x = 4) (hbound : x ≤ 4) :
    l ++ [x] ∈ restorePaths := by
  simp only [restorePaths, List.mem_cons, List.not_mem_nil, or_false] at hl
  rcases hl with rfl | rfl | rfl | rfl | rfl | rfl
  · rcases hx with rfl | rfl
    · simp [restorePaths]
    · simp [restorePaths]
  · obtain rfl : x = 2 := hx
    simp [restorePaths]
  · obtain rfl : x = 3 := hx
    simp [restorePaths]
  · obtain rfl : x = 4 := hx
    simp [restorePaths]
  · obtain rfl : x = 5 := hx
    simp at hbound
  · obtain rfl : x = 5 := hx
    simp at hbound

/-- The process and the record that ended the restoring of a service. -/
structure Identified (a : Applied) (i : Nat) (r : Record) : Prop where
  action : actionOf r.bytes = a.restored i
  pid : a.oldPids i = u32 r.bytes 56
  birth : a.oldBirths i = u64 r.bytes 64
  done : a.restoreDone i = r.sequence

def justified (before : List Record) (r : Record) : Prop := r.kind = 105 → ∃ q ∈ before, Finishes 104 105 q r

/-- What the state of the restoring actions says about the history. -/
structure RestoreTold (h : List Record) (a : Applied) : Prop where
  announced : ∀ p, a.pending = some p → ⟨p.kind, p.sequence, p.bytes⟩ ∈ h
  due : ∀ p, a.pending = some p → p.kind = 104 → RestoreDue a p.bytes
  last : ∀ i, a.restored i = (actionsDone 105 i h).getLastD 0
  path : ∀ i, actionsDone 105 i h ∈ restorePaths
  identity : ∀ i, 3 ≤ a.restored i → ∃ r, (serviceRecords 105 i h).getLast? = some r ∧ Identified a i r
  justified : Everywhere justified h

theorem RestoreTold.kept (t : RestoreTold h a) (hr : r.kind ≠ 105) (hrestored : a'.restored = a.restored)
    (hpids : a'.oldPids = a.oldPids) (hbirths : a'.oldBirths = a.oldBirths) (hdone : a'.restoreDone = a.restoreDone)
    (hannounced : ∀ p, a'.pending = some p → ⟨p.kind, p.sequence, p.bytes⟩ ∈ h ++ [r])
    (hdue : ∀ p, a'.pending = some p → p.kind = 104 → RestoreDue a' p.bytes) : RestoreTold (h ++ [r]) a' := by
  have hactions (i : Nat) : actionsDone 105 i (h ++ [r]) = actionsDone 105 i h := by
    rw [actionsDone_concat, if_neg fun hk => hr hk.1, List.append_nil]
  refine ⟨hannounced, hdue, ?_, ?_, ?_, t.justified.concat fun hk => absurd hk hr⟩
  · intro i
    rw [hrestored, hactions, t.last]
  · intro i
    rw [hactions]
    exact t.path i
  · intro i hi
    rw [hrestored] at hi
    obtain ⟨q, hq, haction, hpid, hbirth, hsequence⟩ := t.identity i hi
    refine ⟨q, ?_, ?_⟩
    · rw [serviceRecords_concat, if_neg fun hk => hr hk.1, List.append_nil, hq]
    · exact ⟨by rw [hrestored, haction], by rw [hpids, hpid], by rw [hbirths, hbirth], by rw [hdone, hsequence]⟩

theorem RestoreTold.aside (t : RestoreTold h a) (hr : r.kind ≠ 105) (hrestored : a'.restored = a.restored)
    (hpids : a'.oldPids = a.oldPids) (hbirths : a'.oldBirths = a.oldBirths) (hdone : a'.restoreDone = a.restoreDone)
    (hpending : ∀ p, a'.pending = some p → a.pending = some p) : RestoreTold (h ++ [r]) a' := by
  refine t.kept hr hrestored hpids hbirths hdone ?_ ?_
  · intro p hp
    exact List.mem_append_left _ (t.announced p (hpending p hp))
  · intro p hp hk
    obtain ⟨hservice, haction, hbound⟩ := t.due p (hpending p hp) hk
    exact ⟨hservice, by rw [hrestored]; exact haction, hbound⟩

@[simp] theorem finishRestore_restored (a : Applied) (sequence : Nat) (b : Bytes) :
    (finishRestore a sequence b).restored = Function.update a.restored (serviceOf b) (actionOf b) := by
  unfold finishRestore
  split
  next => rfl
  next => rfl

theorem finishRestore_identified {a : Applied} {r : Record} (hthree : 3 ≤ actionOf r.bytes) :
    Identified (finishRestore a r.sequence r.bytes) (serviceOf r.bytes) r := by
  unfold finishRestore
  rw [if_pos hthree]
  exact ⟨by simp, by simp, by simp, by simp⟩

theorem finishRestore_other {a : Applied} {r q : Record} {i : Nat} (hi : i ≠ serviceOf r.bytes) (hq : Identified a i q) :
    Identified (finishRestore a r.sequence r.bytes) i q := by
  unfold finishRestore
  split
  next =>
    exact ⟨by simp [hi, hq.action], by simp [hi, hq.pid], by simp [hi, hq.birth], by simp [hi, hq.done]⟩
  next => exact ⟨by simp [hi, hq.action], hq.pid, hq.birth, hq.done⟩

theorem RestoreTold.finish (t : RestoreTold h a) {p : Pending} (hk : r.kind = 105) (hp : a.pending = some p)
    (hpk : p.kind = 104) (hmatches : Matches p r.bytes) :
    RestoreTold (h ++ [r]) (finishRestore a r.sequence r.bytes) := by
  obtain ⟨_, haction, hbound⟩ := t.due p hp hpk
  rw [← hmatches.action, ← hmatches.service, t.last] at haction
  rw [← hmatches.action] at hbound
  refine ⟨by simp, by simp, ?_, ?_, ?_, t.justified.concat ?_⟩
  · intro i
    rw [finishRestore_restored, actionsDone_concat]
    by_cases hi : i = serviceOf r.bytes
    · subst hi
      simp [hk]
    · rw [Function.update_of_ne hi, if_neg fun hr => hi hr.2.symm, List.append_nil, t.last]
  · intro i
    rw [actionsDone_concat]
    by_cases hi : i = serviceOf r.bytes
    · subst hi
      rw [if_pos ⟨hk, rfl⟩]
      exact restorePaths_concat (t.path _) haction hbound
    · rw [if_neg fun hr => hi hr.2.symm, List.append_nil]
      exact t.path i
  · intro i hthree
    rw [finishRestore_restored] at hthree
    rw [serviceRecords_concat]
    by_cases hi : i = serviceOf r.bytes
    · subst hi
      rw [Function.update_self] at hthree
      exact ⟨r, by simp [hk], finishRestore_identified hthree⟩
    · rw [Function.update_of_ne hi] at hthree
      obtain ⟨q, hq, hidentified⟩ := t.identity i hthree
      exact ⟨q, by rw [if_neg fun hr => hi hr.2.symm, List.append_nil, hq], finishRestore_other hi hidentified⟩
  · intro _
    exact ⟨_, t.announced p hp, hpk, hk, hmatches.intent, hmatches.fields, hmatches.process⟩

theorem RestoreTold.step (t : RestoreTold h a) (hm : Move codecs configs a r a') : RestoreTold (h ++ [r]) a' := by
  cases hm with
  | preparation hk => exact t.aside (fun hr => hk (hr ▸ by decide)) rfl rfl rfl rfl fun _ hp => hp
  | window hk _ | clear hk _ _ _ | configIntent hk | configDone p i hk | configAbandon hk | committed p hk
  | restored p hk | outcome o hk => exact t.aside (by simp [hk]) rfl rfl rfl rfl fun _ hp => hp
  | forwardIntent hk _ _ _ _ hdue =>
      refine t.kept (by simp [hk]) rfl rfl rfl rfl ?_ ?_
      · intro p hp
        cases hp
        simp [← hk]
      · intro p hp hpk
        cases hp
        cases hpk
  | restoreIntent hk _ _ _ hdue =>
      refine t.kept (by simp [hk]) rfl rfl rfl rfl ?_ ?_
      · intro p hp
        cases hp
        simp [← hk]
      · intro p hp _
        cases hp
        exact ⟨hdue.service, hdue.action, hdue.bound⟩
  | abandon hk _ => exact t.aside (by simp [hk]) rfl rfl rfl rfl fun _ hp => by cases hp
  | forwardDone p hk _ _ _ _ _ _ _ =>
      obtain ⟨_, _, _, _, hrestored, hpids, hbirths, hdone, _⟩ := finishForward_kept a r.sequence r.bytes
      exact t.aside (by simp [hk]) hrestored hpids hbirths hdone (by simp)
  | restoreDone p hk _ hp hpk hmatches => exact t.finish hk hp hpk hmatches

def CandidatesTold (configs : List Nat) (h : List Record) (a : Applied) : Prop :=
  ∀ i, a.configCandidate i = true →
    ∃ r ∈ h, r.kind = 22 ∧ directionOf r.bytes = 1 ∧ configs[i]? = some (referenceOf r.bytes)

theorem CandidatesTold.aside (t : CandidatesTold configs h a) (hcandidate : a'.configCandidate = a.configCandidate) :
    CandidatesTold configs (h ++ [r]) a' := by
  intro i hi
  rw [hcandidate] at hi
  obtain ⟨q, hq, hrest⟩ := t i hi
  exact ⟨q, List.mem_append_left _ hq, hrest⟩

theorem CandidatesTold.step (t : CandidatesTold configs h a) (hm : Move codecs configs a r a') :
    CandidatesTold configs (h ++ [r]) a' := by
  cases hm with
  | forwardDone p => exact t.aside (finishForward_kept a _ _).2.2.2.1
  | restoreDone p => exact t.aside (finishRestore_kept a _ _).2.2.2.1
  | configDone p i hk _ _ _ hfound hbound _ _ _ =>
      intro k hcandidate
      by_cases hki : k = i
      · subst hki
        have hdirection : directionOf r.bytes ≠ 0 := by simpa using hcandidate
        exact ⟨r, by simp, hk, by omega, hfound⟩
      · exact t.aside (a := a) rfl k (by simpa [hki] using hcandidate)
  | _ => exact t.aside rfl

/-- What stands behind the proof of a successful update. -/
structure CommitReady (h : List Record) (a : Applied) : Prop where
  record : ∃ r, ofKind 102 h = [r]
  restoring : a.restoring = false
  pending : a.pending = none
  configPending : a.configPending = none
  candidates : ∀ i < 12, a.configCandidate i = true
  forward : ∀ i < 4, a.forward i = 3

structure RestoreReady (h : List Record) (a : Applied) : Prop where
  record : ∃ r, ofKind 108 h = [r] ∧ ∀ i < 4, 3 ≤ a.restored i ∧ u32 r.bytes (201 + i * 4) = a.oldPids i ∧
    u64 r.bytes (217 + i * 8) = a.oldBirths i ∧ u64 r.bytes (345 + i * 8) = a.restoreDone i

structure ProofTold (h : List Record) (a : Applied) : Prop where
  absent : a.proof = none → ofKind 102 h = [] ∧ ofKind 108 h = []
  committed : ∀ p, a.proof = some p → p.kind = 102 → CommitReady h a
  restored : ∀ p, a.proof = some p → p.kind = 108 → RestoreReady h a

theorem ofKind_kept {kind : UInt32} (hr : r.kind ≠ kind) : ofKind kind (h ++ [r]) = ofKind kind h := by
  rw [ofKind_concat, if_neg hr, List.append_nil]

theorem ProofTold.aside (t : ProofTold h a) (hc : r.kind ≠ 102) (hr : r.kind ≠ 108) (hproof : a'.proof = a.proof)
    (hcommit : ∀ p, a.proof = some p → a'.restoring = a.restoring ∧ a'.pending = a.pending ∧
      a'.configPending = a.configPending ∧ a'.configCandidate = a.configCandidate ∧ a'.forward = a.forward ∧
      a'.restored = a.restored ∧ a'.oldPids = a.oldPids ∧ a'.oldBirths = a.oldBirths ∧
      a'.restoreDone = a.restoreDone) : ProofTold (h ++ [r]) a' := by
  refine ⟨?_, ?_, ?_⟩
  · rw [ofKind_kept hc, ofKind_kept hr, hproof]
    exact t.absent
  · intro p hp hk
    rw [hproof] at hp
    obtain ⟨hrestoring, hpending, hconfig, hcandidate, hforward, _⟩ := hcommit p hp
    have hready := t.committed p hp hk
    refine ⟨?_, ?_, ?_, ?_, ?_, ?_⟩
    · rw [ofKind_kept hc]
      exact hready.record
    · rw [hrestoring, hready.restoring]
    · rw [hpending, hready.pending]
    · rw [hconfig, hready.configPending]
    · rw [hcandidate]
      exact hready.candidates
    · rw [hforward]
      exact hready.forward
  · intro p hp hk
    rw [hproof] at hp
    obtain ⟨_, _, _, _, _, hrestored, hpids, hbirths, hdone⟩ := hcommit p hp
    constructor
    rw [ofKind_kept hr, hrestored, hpids, hbirths, hdone]
    exact (t.restored p hp hk).record

theorem ProofTold.live (t : ProofTold h a) (hlive : Live a) (hc : r.kind ≠ 102) (hr : r.kind ≠ 108)
    (hproof : a'.proof = a.proof) : ProofTold (h ++ [r]) a' :=
  t.aside hc hr hproof fun p hp => absurd (hlive.proof.symm.trans hp) (by simp)

theorem ProofTold.step (t : ProofTold h a) (hm : Move codecs configs a r a') : ProofTold (h ++ [r]) a' := by
  cases hm with
  | preparation hk => exact t.aside (fun hr => hk (hr ▸ by decide)) (fun hr => hk (hr ▸ by decide)) rfl (by simp)
  | window hk _ | clear hk _ _ _ | outcome o hk => exact t.aside (by simp [hk]) (by simp [hk]) rfl (by simp)
  | forwardIntent hk hlive | restoreIntent hk hlive | abandon hk hlive | configIntent hk hlive
  | configDone p i hk hlive | configAbandon hk hlive =>
      exact t.live hlive (by simp [hk]) (by simp [hk]) rfl
  | forwardDone p hk hlive => exact t.live hlive (by simp [hk]) (by simp [hk]) (by simp [finishForward_kept])
  | restoreDone p hk hlive => exact t.live hlive (by simp [hk]) (by simp [hk]) (by simp [finishRestore_kept])
  | committed p hk hlive hpending hconfig hrestoring hpk hcandidates hforward =>
      have hrecord : ofKind 102 (h ++ [r]) = [r] := by simp [ofKind_concat, hk, (t.absent hlive.proof).1]
      refine ⟨by simp, ?_, ?_⟩
      · intro _ _ _
        exact ⟨⟨r, hrecord⟩, hrestoring, hpending, hconfig, hcandidates, hforward⟩
      · intro q hq hqk
        cases hq
        rw [hpk] at hqk
        cases hqk
  | restored p hk hlive _ _ _ hpk hservices =>
      have hrecord : ofKind 108 (h ++ [r]) = [r] := by simp [ofKind_concat, hk, (t.absent hlive.proof).2]
      refine ⟨by simp, ?_, ?_⟩
      · intro q hq hqk
        cases hq
        rw [hpk] at hqk
        cases hqk
      · intro _ _ _
        exact ⟨r, hrecord, hservices⟩

theorem Untouched.serviceActions (t : Untouched h a) (hpending : a.pending = none) (i : Nat) :
    (h.filter fun r => isForward r.kind ∧ serviceOf r.bytes = i).map (fun r => (r.kind, actionOf r.bytes)) =
      (actionsDone 101 i h).flatMap fun action => [(100, action), (101, action)] := by
  have hpaired : Paired (Finishes 100 101) (forwardRecords h) := by
    obtain ⟨o, ho, heq⟩ := t.actions
    rw [hpending] at heq
    obtain rfl := Option.map_eq_none_iff.mp heq.symm
    exact ho.paired
  have hsame (q r : Record) (hf : Finishes 100 101 q r) : serviceOf r.bytes = serviceOf q.bytes :=
    u32_of_part hf.fields (by omega) (by omega)
  have hservice : Paired (Finishes 100 101) ((forwardRecords h).filter fun r => serviceOf r.bytes = i) :=
    hpaired.filter fun q r hf => by rw [hsame q r hf]
  have hread := hservice.map_eq (fun r => r.kind = 101) (fun r => (r.kind, actionOf r.bytes))
    (fun r => actionOf r.bytes) (fun action => [(100, action), (101, action)]) ?_
  · have hall : (forwardRecords h).filter (fun r => serviceOf r.bytes = i) =
        h.filter fun r => isForward r.kind ∧ serviceOf r.bytes = i := by
      rw [forwardRecords, List.filter_filter]
      refine List.filter_congr fun r _ => ?_
      simp [Bool.and_comm]
    have hdone : ((forwardRecords h).filter fun r => serviceOf r.bytes = i).filter (fun r => r.kind = 101) =
        serviceRecords 101 i h := by
      rw [hall, List.filter_filter, serviceRecords]
      refine List.filter_congr fun r _ => ?_
      by_cases hk : r.kind = 101
      · simp [isForward, hk]
      · simp [hk]
    rw [hdone, hall] at hread
    exact hread
  · intro q r hf
    have haction : actionOf r.bytes = actionOf q.bytes := u32_of_part hf.fields (by omega) (by omega)
    simp [hf.announced, hf.finished, haction]

theorem CommitReady.committed {plan : Record} (ready : CommitReady h a) (hforward : ForwardTold h a)
    (huntouched : a.restoring = false → Untouched h a) (hcandidates : CandidatesTold configs h a) (hplan : plan ∈ h)
    (hkind : plan.kind = 64) (hconfigs : configs = (List.range 12).map fun i => u64 plan.bytes (28 + i * 8)) :
    Committed h where
  proof := ready.record
  forward := (huntouched ready.restoring).forward
  actions := by
    obtain ⟨o, ho, heq⟩ := (huntouched ready.restoring).actions
    rw [ready.pending] at heq
    obtain rfl := Option.map_eq_none_iff.mp heq.symm
    exact ho.paired
  services := by
    intro i hi
    rw [(huntouched ready.restoring).serviceActions ready.pending, hforward.complete (ready.forward i hi)]
    rfl
  second := hforward.order
  configs := by
    obtain ⟨o, ho, heq, _⟩ := (huntouched ready.restoring).configs
    rw [ready.configPending] at heq
    obtain rfl := Option.map_eq_none_iff.mp heq.symm
    exact ho.paired
  applied := by
    refine ⟨plan, hplan, hkind, ?_⟩
    intro i hi
    obtain ⟨r, hr, hrk, hdirection, hfound⟩ := hcandidates i (ready.candidates i hi)
    refine ⟨r, hr, hrk, hdirection, ?_⟩
    rw [hconfigs, List.getElem?_map, List.getElem?_range hi] at hfound
    exact (Option.some.inj hfound).symm

theorem RestoreReady.restored (ready : RestoreReady h a) (t : RestoreTold h a) : Restored h where
  proof := by
    obtain ⟨p, hp, hservices⟩ := ready.record
    refine ⟨p, hp, ?_⟩
    intro i hi
    obtain ⟨hthree, hpid, hbirth, hdone⟩ := hservices i hi
    obtain ⟨r, hr, hidentified⟩ := t.identity i hthree
    have hbound : a.restored i = 3 ∨ a.restored i = 4 := by
      have hpath := t.path i
      have hlast := t.last i
      simp only [restorePaths, List.mem_cons, List.not_mem_nil, or_false] at hpath
      rcases hpath with hl | hl | hl | hl | hl | hl <;> simp [hl] at hlast <;> omega
    rw [← hidentified.action] at hbound
    exact ⟨r, hr, hbound, hpid.trans hidentified.pid, hbirth.trans hidentified.birth, hdone.trans hidentified.done⟩
  actions := by
    obtain ⟨_, _, hservices⟩ := ready.record
    intro i hi
    have hthree := (hservices i hi).1
    have hpath := t.path i
    rw [t.last] at hthree
    simp only [restorePaths, List.mem_cons, List.not_mem_nil, or_false] at hpath
    rcases hpath with hl | hl | hl | hl | hl | hl <;> simp [hl] at hthree ⊢
  announced := t.justified

end Steps

section Replay

variable {L : Type} {sha256 : Bytes → Digest} {codecs : Codecs L} {j : Journaled L} {h : List Record}
  {s s' : Scan L} {r : Record}

structure Earned (before : List Record) (o : Outcome) : Prop where
  success : o.result.result = outcomeSuccess → Committed before
  restored : o.result.result = outcomeRestored → Restored before

/-- The place of the outcome in a history: nothing but the clearing of the marker may
follow it. -/
structure Reported (codecs : Codecs L) (h : List Record) (a : Applied) (o : Outcome) : Prop where
  split : ∃ before r after, h = before ++ r :: after ∧ r.kind = 103 ∧ outcomeDecode codecs r.bytes = some o ∧
    Earned before o ∧ (∀ q ∈ before, q.kind ≠ 103) ∧
    ((after = [] ∧ a.clear = none) ∨
      (a.clear ≠ none ∧ ∃ c, after = [c] ∧ c.kind = 65 ∧ (activeOf c.bytes).window = 0))

/-- What the state of the replay says about the records replayed. -/
structure Told (codecs : Codecs L) (h : List Record) (s : Scan L) : Prop where
  forward : ForwardTold h s.applied
  untouched : s.applied.restoring = false → Untouched h s.applied
  restore : RestoreTold h s.applied
  candidates : CandidatesTold (configsOf s) h s.applied
  proof : ProofTold h s.applied
  planned : s.planSequence = none → s.typedPlan = none
  plan : ∀ plan, s.typedPlan = some plan →
    ∃ r ∈ h, r.kind = 64 ∧ plan.configs = (List.range 12).map fun i => u64 r.bytes (28 + i * 8)
  absent : s.applied.outcome = none → s.applied.clear = none ∧ ∀ r ∈ h, r.kind ≠ 103
  reported : ∀ o, s.applied.outcome = some o → s.terminal = true ∧ Reported codecs h s.applied o

theorem told_fresh : Told codecs [] (freshScan L) where
  forward := ⟨rfl, fun _ => rfl, by simp [freshScan, freshApplied], by simp [freshScan, freshApplied], everywhere_nil⟩
  untouched := fun _ =>
    ⟨by simp, ⟨none, announced_nil, rfl⟩, ⟨none, announced_nil, rfl, by simp⟩⟩
  restore := ⟨by simp [freshScan, freshApplied], by simp [freshScan, freshApplied], fun _ => rfl,
    fun _ => by simp [actionsDone, serviceRecords, restorePaths], by simp [freshScan, freshApplied], everywhere_nil⟩
  candidates := by simp [CandidatesTold, freshScan, freshApplied]
  proof := ⟨fun _ => ⟨rfl, rfl⟩, by simp [freshScan, freshApplied], by simp [freshScan, freshApplied]⟩
  planned := fun _ => rfl
  plan := by simp [freshScan]
  absent := by simp [freshScan, freshApplied]
  reported := by simp [freshScan, freshApplied]

/-- What a record does to the outcome and to its clearing. -/
inductive OutcomeMove (codecs : Codecs L) (a : Applied) (r : Record) (a' : Applied) : Prop
  | kept : r.kind ≠ 103 → (r.kind = 65 → a.outcome = none) → a'.outcome = a.outcome → a'.clear = a.clear →
      OutcomeMove codecs a r a'
  | cleared : r.kind = 65 → (activeOf r.bytes).window = 0 → a.outcome.isSome = true → a'.outcome = a.outcome →
      a'.clear.isSome = true → OutcomeMove codecs a r a'
  | reported (o : Outcome) : r.kind = 103 → a'.outcome = some o → a'.clear = a.clear → a.outcome = none →
      outcomeDecode codecs r.bytes = some o →
      (o.result.result ≠ outcomeRecoveryRequired → ∃ p, a.proof = some p ∧ proves o p = true) →
      OutcomeMove codecs a r a'

theorem outcomeMove {configs : List Nat} {a a' : Applied} (hm : Move codecs configs a r a') :
    OutcomeMove codecs a r a' := by
  cases hm with
  | preparation hk => exact .kept (fun hr => hk (hr ▸ by decide)) (fun hr => absurd (hr ▸ by decide) hk) rfl rfl
  | window hk hnone => exact .kept (by simp [hk]) (fun _ => hnone) rfl rfl
  | clear hk hwindow hsome _ => exact .cleared hk hwindow hsome rfl rfl
  | outcome o hk hnone hdecode hproof => exact .reported o hk rfl rfl hnone hdecode hproof
  | forwardDone p hk => exact .kept (by simp [hk]) (by simp [hk]) (by simp [finishForward_kept]) (by simp [finishForward_kept])
  | restoreDone p hk => exact .kept (by simp [hk]) (by simp [hk]) (by simp [finishRestore_kept]) (by simp [finishRestore_kept])
  | forwardIntent hk | restoreIntent hk | abandon hk | configIntent hk | configDone p i hk | configAbandon hk
  | committed p hk | restored p hk => exact .kept (by simp [hk]) (by simp [hk]) rfl rfl

theorem Told.configs (t : Told codecs h s) {c : Nat} {ref : Nat} (hc : (configsOf s)[c]? = some ref) :
    ∃ r ∈ h, r.kind = 64 ∧ configsOf s = (List.range 12).map fun i => u64 r.bytes (28 + i * 8) := by
  cases hplan : s.typedPlan with
  | none => simp [configsOf, hplan] at hc
  | some plan =>
      obtain ⟨r, hr, hk, hconfigs⟩ := t.plan plan hplan
      exact ⟨r, hr, hk, by simp [configsOf, hplan, hconfigs]⟩

theorem Told.earned (t : Told codecs h s) {o : Outcome}
    (hproof : o.result.result ≠ outcomeRecoveryRequired → ∃ p, s.applied.proof = some p ∧ proves o p = true) :
    Earned h o where
  success := by
    intro hsuccess
    obtain ⟨p, hp, hproves⟩ := hproof (by simp [hsuccess, outcomeSuccess, outcomeRecoveryRequired])
    have hkind : p.kind = 102 := by
      simp only [proves, decide_eq_true_eq] at hproves
      rw [hproves.2.2.1, if_pos hsuccess]
    have hready := t.proof.committed p hp hkind
    obtain ⟨r, _, _, _, hfound⟩ := t.candidates 0 (hready.candidates 0 (by omega))
    obtain ⟨plan, hplan, hplanKind, hconfigs⟩ := t.configs hfound
    exact hready.committed t.forward t.untouched t.candidates hplan hplanKind hconfigs
  restored := by
    intro hrestored
    obtain ⟨p, hp, hproves⟩ := hproof (by simp [hrestored, outcomeRestored, outcomeRecoveryRequired])
    have hkind : p.kind = 108 := by
      simp only [proves, decide_eq_true_eq] at hproves
      rw [hproves.2.2.1, if_neg (by simp [hrestored, outcomeRestored, outcomeSuccess])]
    exact (t.proof.restored p hp hkind).restored t.restore

theorem Told.stepCandidates (t : Told codecs h s) (hv : Visited codecs s r s') :
    CandidatesTold (configsOf s') (h ++ [r]) s'.applied := by
  have hstep := t.candidates.step hv.move
  rcases hv.plan with ⟨_, hplan⟩ | ⟨_, hnone, _⟩
  · rw [configsOf, hplan]
    exact hstep
  · -- before the plan there is no configuration to apply
    intro i hi
    obtain ⟨_, _, _, _, hfound⟩ := hstep i hi
    simp [configsOf, t.planned hnone] at hfound

theorem Told.stepPlan (t : Told codecs h s) (hv : Visited codecs s r s') : ∀ plan, s'.typedPlan = some plan →
    ∃ q ∈ h ++ [r], q.kind = 64 ∧ plan.configs = (List.range 12).map fun i => u64 q.bytes (28 + i * 8) := by
  intro plan hplan
  rcases hv.plan with ⟨_, hkept⟩ | ⟨hkind, _, _, hread⟩
  · obtain ⟨q, hq, hrest⟩ := t.plan plan (hkept ▸ hplan)
    exact ⟨q, List.mem_append_left _ hq, hrest⟩
  · exact ⟨r, by simp, hkind, hread plan hplan⟩

theorem Told.stepAbsent (t : Told codecs h s) (hv : Visited codecs s r s') (hnone : s'.applied.outcome = none) :
    s'.applied.clear = none ∧ ∀ q ∈ h ++ [r], q.kind ≠ 103 := by
  cases outcomeMove hv.move with
  | kept hk _ houtcome hclear =>
      obtain ⟨hbefore, habsent⟩ := t.absent (houtcome ▸ hnone)
      refine ⟨hclear.trans hbefore, ?_⟩
      intro q hq
      rcases List.mem_append.mp hq with hq | hq
      · exact habsent q hq
      · rw [List.mem_singleton.mp hq]
        exact hk
  | cleared _ _ hsome houtcome _ =>
      rw [← houtcome, hnone] at hsome
      cases hsome
  | reported o _ ho => exact absurd (ho.symm.trans hnone) (by simp)

theorem Told.stepReported (t : Told codecs h s) (hv : Visited codecs s r s') {o : Outcome}
    (ho : s'.applied.outcome = some o) : s'.terminal = true ∧ Reported codecs (h ++ [r]) s'.applied o := by
  cases outcomeMove hv.move with
  | kept _ hstate houtcome _ =>
      -- behind an outcome only a state record is taken, and this is none
      rw [houtcome] at ho
      rcases hv.isOpen with hopen | ⟨hk, _⟩
      · exact absurd ((t.reported o ho).1.symm.trans hopen) (by simp)
      · exact absurd (ho.symm.trans (hstate hk)) (by simp)
  | cleared hk hwindow _ houtcome hcleared =>
      rw [houtcome] at ho
      obtain ⟨hterminal, before, q, after, hsplit, hq, hdecode, hearned, hfirst, hafter⟩ := t.reported o ho
      have hclear : s.applied.clear = none := by
        rcases hv.isOpen with hopen | ⟨_, hclear, _⟩
        · exact absurd (hterminal.symm.trans hopen) (by simp)
        · exact hclear
      obtain ⟨rfl, _⟩ := hafter.resolve_right fun hlater => hlater.1 hclear
      refine ⟨hv.terminal (.inl hterminal), before, q, [r], by simp [hsplit], hq, hdecode, hearned, hfirst, .inr ?_⟩
      exact ⟨Option.isSome_iff_ne_none.mp hcleared, r, rfl, hk, hwindow⟩
  | reported o' hk ho' hclear hnone hdecode hproof =>
      obtain rfl := Option.some.inj (ho'.symm.trans ho)
      obtain ⟨hbefore, habsent⟩ := t.absent hnone
      exact ⟨hv.terminal (.inr hk), h, r, [], rfl, hk, hdecode, t.earned hproof, habsent, .inl ⟨rfl, hclear.trans hbefore⟩⟩

theorem Told.step (t : Told codecs h s) (hv : Visited codecs s r s') : Told codecs (h ++ [r]) s' where
  forward := t.forward.step hv.move
  untouched := Untouched.step t.untouched hv.move
  restore := t.restore.step hv.move
  candidates := t.stepCandidates hv
  proof := t.proof.step hv.move
  planned := by
    intro hnone
    rcases hv.plan with ⟨hsequence, hplan⟩ | ⟨_, _, hsome, _⟩
    · rw [hplan]
      exact t.planned (hsequence ▸ hnone)
    · simp [hnone] at hsome
  plan := t.stepPlan hv
  absent := t.stepAbsent hv
  reported := fun _ ho => t.stepReported hv ho

theorem replay_told (hreplay : j.records.foldlM (visit sha256 codecs j) (freshScan L) = .ok s) :
    Told codecs j.records s :=
  foldlM_explained (Told codecs) (fun _ _ _ _ hv t => t.step (visit_visited hv)) j.records [] (freshScan L) s hreplay
    told_fresh

theorem Told.outcome (t : Told codecs h s) {before after : List Record} (hsplit : h = before ++ r :: after)
    (hk : r.kind = 103) : ∃ o, outcomeDecode codecs r.bytes = some o ∧ s.applied.outcome = some o ∧ Earned before o ∧
      cleared after := by
  cases ho : s.applied.outcome with
  | none => exact absurd hk ((t.absent ho).2 r (by simp [hsplit]))
  | some o =>
      obtain ⟨_, before', q, after', hsplit', _, hdecode, hearned, hfirst, hlast⟩ := t.reported o ho
      have hcleared : cleared after' := hlast.elim (fun hnone => .inl hnone.1) fun hone => .inr hone.2
      have hafter : ∀ c ∈ after', ¬ c.kind = 103 := by
        intro c hc hck
        rcases hcleared with rfl | ⟨d, rfl, hd, _⟩
        · cases hc
        · rw [List.mem_singleton.mp hc, hd] at hck
          cases hck
      obtain ⟨rfl, rfl, rfl⟩ := split_unique (fun q : Record => q.kind = 103) hfirst hafter hk
        (hsplit.symm.trans hsplit')
      exact ⟨o, hdecode, rfl, hearned, hcleared⟩

end Replay

/-- A reported outcome is earned: success and restoration stand behind the history that
they stand for, and only the clearing of the marker comes after them. -/
theorem outcome_earned {L : Type} (sha256 : Bytes → Digest) (codecs : Codecs L) (j : Journaled L) (header : Bytes)
    (live grown : Bool) (file : Bytes) (s : Scan L) (hstatus : statusOf sha256 codecs j header live grown file = .ok s) :
    ∀ before r after, journalRecords file = before ++ r :: after → r.kind = 103 →
      ∃ o, outcomeDecode codecs r.bytes = some o ∧ s.applied.outcome = some o ∧
        (o.result.result = outcomeSuccess → Committed before) ∧
        (o.result.result = outcomeRestored → Restored before) ∧ cleared after := by
  intro before r after hsplit hk
  unfold statusOf at hstatus
  rw [bind_eq_ok] at hstatus
  obtain ⟨reader, hopen, hstatus⟩ := hstatus
  have hfile : reader.snapshot = file := JournalReader.readerOpen_file hopen
  rw [hfile] at hstatus
  unfold remoteStatusSnapshot at hstatus
  simp only [bind_eq_ok, return_eq_ok] at hstatus
  obtain ⟨s', hreplay, _, _, rfl⟩ := hstatus
  obtain ⟨o, hdecode, ho, hearned, hcleared⟩ := (replay_told hreplay).outcome hsplit hk
  exact ⟨o, hdecode, ho, hearned.success, hearned.restored, hcleared⟩

/-- A journal in which every service was still running the old version, and restoring it
was a matter of verifying that. -/
def sampleDigest : Digest := ⟨List.replicate 32 1, rfl⟩
def sampleHash (_ : Bytes) : Digest := sampleDigest
def sampleOperation : Bytes := List.replicate 16 9
def sampleId : Bytes := List.replicate 36 0x61 ++ [0]
def sampleVersion : Bytes := [0x31, 0x2e, 0x30, 0x2e, 0x30]
def sampleArch : Bytes := [0x78, 0x36, 0x34]
def sampleBirth : Bytes := List.replicate 8 3
def sampleRoot : Bytes := List.replicate 32 5
def sampleRequest : Request := ⟨1, sampleVersion, 5⟩
def sampleResult : Result := ⟨sampleId, 1, sampleVersion, sampleVersion, sampleVersion, 5, 6, 1, errorGenFailure⟩

def sampleCodecs : Codecs Unit where
  requestDecode _ _ := some sampleRequest
  versionLayout _ _ := some ()
  resultDecode _ := some sampleResult
  resultEncode _ := some (List.replicate 200 0)
  recoveryDecode _ _ := some ⟨sampleOperation, 22, 7, sampleBirth, 8, sampleBirth, 10, 1000⟩
  communicationDecode _ _ :=
    some ⟨sampleOperation, 22, sampleDigest.bytes, 7, sampleBirth, 8, sampleBirth, 10, 500, 2⟩
  launchFailureDecode _ := none
  switchDecode _ _ := none
  hostSnapshot _ _ := some ⟨sampleRequest, 4, 2, sampleVersion, sampleArch, sampleVersion⟩
  routeDecode _ := some ⟨true, some ⟨sampleVersion, sampleRoot⟩, sampleVersion, sampleArch, some []⟩

def sampleState (window generation deadline : Nat) : Bytes :=
  UpdateMarker.stateMagic ++ sampleId ++ List.replicate 3 0 ++ storeU32 window ++ storeU32 0 ++ storeU64 generation ++
    storeU64 22 ++ storeU64 deadline ++ sampleDigest.bytes

def sampleVerify (service intent : Nat) : Bytes :=
  actionMagic ++ storeU32 1 ++ storeU32 4 ++ storeU32 service ++ storeU32 1 ++ storeU64 2 ++ storeU64 500 ++
    storeU64 22 ++ storeU64 (18 + service) ++ storeU32 (100 + service) ++ List.replicate 4 0 ++ storeU64 (7 + service) ++
    storeU64 intent ++ storeU32 3 ++ List.replicate 28 0

def sampleEntries : List JournalRecovery.Entry :=
  [(92, []), (93, storeU64 0 ++ storeU32 1 ++ List.replicate 100 0), (60, []), (62, [])] ++
  List.replicate 12 (20, []) ++ [(63, [])] ++ List.replicate 4 (10, []) ++
  [(64, storeU32 1 ++ storeU64 4 ++ storeU64 17 ++ storeU32 1 ++ storeU32 12 ++
      ((List.range 12).map fun i => storeU64 (5 + i)).flatten ++ ((List.range 4).map fun i => storeU64 (18 + i)).flatten),
    (66, List.replicate 32 0), (67, [1, 0]), (70, []),
    (68, handMagic ++ sampleOperation ++ storeU64 22 ++ storeU32 7 ++ sampleBirth ++ storeU32 4 ++ storeU64 2 ++
      List.replicate 32 0 ++ storeU64 1 ++ storeU64 1 ++ List.replicate 40 0),
    (69, sampleDigest.bytes), (65, sampleState 1 2 500)] ++
  ((List.range 4).map fun i => [(104, sampleVerify i 0), (105, sampleVerify i (29 + 2 * i))]).flatten ++
  [(108, restoredMagic ++ storeU32 1 ++ storeU32 1 ++ storeU64 2 ++ storeU64 500 ++ storeU64 22 ++ sampleDigest.bytes ++
      sampleId ++ (sampleVersion ++ List.replicate 27 0) ++ (sampleArch ++ List.replicate 5 0) ++ sampleRoot ++ storeU64 6 ++
      storeU32 7 ++ sampleBirth ++ ((List.range 4).map fun i => storeU32 (100 + i)).flatten ++
      ((List.range 4).map fun i => storeU64 (7 + i)).flatten ++ ((List.range 12).map fun i => storeU64 (5 + i)).flatten ++
      ((List.range 4).map fun i => storeU64 (30 + 2 * i)).flatten ++ storeU32 1 ++ List.replicate 3 0),
    (103, outcomeMagic ++ List.replicate 8 0 ++ storeU32 2 ++ storeU32 31 ++ List.replicate 176 0 ++ storeU64 22 ++
      sampleDigest.bytes ++ storeU64 37 ++ sampleDigest.bytes),
    (65, sampleState 0 3 0)]

def sampleGuid : Guid := ⟨sampleOperation, rfl⟩
def sampleFile : Bytes := journalHeader sampleGuid ++ JournalRecovery.framesOf sampleHash (journalHeader sampleGuid) sampleEntries
def sampleJournal : Journaled Unit := ⟨sampleId, sampleOperation, (), []⟩

theorem sample_accepted :
    (statusOf sampleHash sampleCodecs sampleJournal (journalHeader sampleGuid) false false sampleFile).isOk = true := by
  decide +kernel

theorem sample_length : 37 < (journalRecords sampleFile).length := by decide +kernel

def sampleOutcome : Record := (journalRecords sampleFile).get ⟨37, sample_length⟩

/-- The sample journal is accepted, and its outcome is a restoration that is earned. -/
theorem outcome_earned_restored : ∃ before r after, journalRecords sampleFile = before ++ r :: after ∧ r.kind = 103 ∧
    Restored before ∧ cleared after := by
  have hkind : sampleOutcome.kind = 103 := by decide +kernel
  have hresult : (outcomeDecode sampleCodecs sampleOutcome.bytes).map (fun o => o.result.result) =
      some outcomeRestored := by decide +kernel
  have hsplit : journalRecords sampleFile =
      (journalRecords sampleFile).take 37 ++ sampleOutcome :: (journalRecords sampleFile).drop 38 := by
    rw [sampleOutcome, List.get_eq_getElem, ← List.drop_eq_getElem_cons sample_length, List.take_append_drop]
  cases hstatus : statusOf sampleHash sampleCodecs sampleJournal (journalHeader sampleGuid) false false sampleFile with
  | error e =>
      have haccepted := sample_accepted
      rw [hstatus] at haccepted
      cases haccepted
  | ok s =>
      obtain ⟨o, hdecode, _, _, hrestored, hcleared⟩ := outcome_earned sampleHash sampleCodecs sampleJournal
        (journalHeader sampleGuid) false false sampleFile s hstatus _ _ _ hsplit hkind
      rw [hdecode] at hresult
      exact ⟨_, _, _, hsplit, hkind, hrestored (Option.some.inj hresult), hcleared⟩

end EtranProcessing.Deployment.OutcomeHistory
