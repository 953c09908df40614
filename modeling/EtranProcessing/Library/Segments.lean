import Mathlib

namespace EtranProcessing.Library.Segments

variable {α : Type} {sep : α}

def extend (sep : α) (root : List α) (segments : List (List α)) : List α :=
  root ++ segments.flatMap (sep :: ·)

@[simp] theorem extend_nil (root : List α) : extend sep root [] = root := by
  simp [extend]

theorem extend_singleton (root s : List α) : extend sep root [s] = root ++ sep :: s := by
  simp [extend]

theorem extend_append (root : List α) (first second : List (List α)) :
    extend sep root (first ++ second) = extend sep (extend sep root first) second := by
  simp [extend]

def Under (sep : α) (fold : α → α) (root path : List α) : Prop :=
  ∃ rest, path.map fold = root.map fold ++ rest ∧ (rest = [] ∨ ∃ tail, rest = sep :: tail)

variable {fold : α → α} {root root' path : List α}

theorem Under.refl (root : List α) : Under sep fold root root := ⟨[], by simp, .inl rfl⟩

theorem under_extend (hsep : fold sep = sep) (root : List α) (segments : List (List α)) :
    Under sep fold root (extend sep root segments) := by
  cases segments with
  | nil => exact (extend_nil root).symm ▸ Under.refl root
  | cons s segments =>
      refine ⟨_, by rw [extend, List.map_append], .inr ⟨?_, ?_⟩⟩
      · exact (s ++ segments.flatMap (sep :: ·)).map fold
      · simp [hsep]

theorem Under.trans (h : Under sep fold root root') (h' : Under sep fold root' path) : Under sep fold root path := by
  obtain ⟨first, hfirst, hshape⟩ := h
  obtain ⟨second, hsecond, hshape'⟩ := h'
  refine ⟨first ++ second, by rw [hsecond, hfirst, List.append_assoc], ?_⟩
  rcases hshape with rfl | ⟨tail, rfl⟩
  · simpa using hshape'
  · exact .inr ⟨tail ++ second, rfl⟩

theorem Under.nested (h : Under sep fold root path) (h' : Under sep fold root' path) :
    Under sep fold root root' ∨ Under sep fold root' root := by
  obtain ⟨rest, hrest, hshape⟩ := h
  obtain ⟨rest', hrest', hshape'⟩ := h'
  rw [hrest] at hrest'
  rcases List.append_eq_append_iff.mp hrest' with ⟨middle, hroot, hmiddle⟩ | ⟨middle, hroot, hmiddle⟩
  · refine .inl ⟨middle, hroot, ?_⟩
    cases middle with
    | nil => exact .inl rfl
    | cons c middle =>
        rcases hshape with rfl | ⟨tail, rfl⟩
        · simp at hmiddle
        · simp only [List.cons_append, List.cons.injEq] at hmiddle
          exact .inr ⟨middle, by rw [hmiddle.1]⟩
  · refine .inr ⟨middle, hroot, ?_⟩
    cases middle with
    | nil => exact .inl rfl
    | cons c middle =>
        rcases hshape' with rfl | ⟨tail, rfl⟩
        · simp at hmiddle
        · simp only [List.cons_append, List.cons.injEq] at hmiddle
          exact .inr ⟨middle, by rw [hmiddle.1]⟩

theorem extend_of_fold (hsep : ∀ c, fold c = fold sep → c = sep) (segments : List (List α))
    (h : path.map fold = (extend sep root segments).map fold) :
    ∃ root' segments', path = extend sep root' segments' ∧ root'.map fold = root.map fold ∧
      segments'.map (List.map fold) = segments.map (List.map fold) := by
  have hshape (rest : List α) (hrest : rest.map fold = (segments.flatMap (sep :: ·)).map fold) :
      ∃ segments' : List (List α), rest = segments'.flatMap (sep :: ·) ∧
        segments'.map (List.map fold) = segments.map (List.map fold) := by
    clear h
    induction segments generalizing rest with
    | nil => exact ⟨[], by simpa using hrest, rfl⟩
    | cons s segments ih =>
        simp only [List.flatMap_cons, List.cons_append, List.map_cons, List.map_append] at hrest
        obtain ⟨c, after, rfl, hc, hafter⟩ := List.map_eq_cons_iff.mp hrest
        obtain ⟨s', more, rfl, hs, hmore⟩ := List.map_eq_append_iff.mp hafter
        obtain ⟨segments', rfl, hsame⟩ := ih more hmore
        exact ⟨s' :: segments', by rw [hsep c hc]; rfl, by simp only [List.map_cons, hs, hsame]⟩
  rw [extend, List.map_append] at h
  obtain ⟨root', rest, rfl, hroot, hrest⟩ := List.map_eq_append_iff.mp h
  obtain ⟨segments', rfl, hsame⟩ := hshape rest hrest
  exact ⟨root', segments', rfl, hroot, hsame⟩

variable [DecidableEq α]

def segmentsPass (sep : α) (bad : α → Bool) (good : List α → Bool) : List α → List α → Bool
  | segment, [] => good segment
  | segment, c :: rest =>
      if bad c then false
      else if c = sep then good segment && segmentsPass sep bad good [] rest
      else segmentsPass sep bad good (segment ++ [c]) rest

theorem segmentsPass_split {bad : α → Bool} {good : List α → Bool} (rest segment : List α)
    (hsegment : ∀ c ∈ segment, c ≠ sep ∧ bad c = false) (h : segmentsPass sep bad good segment rest = true) :
    ∃ segments, sep :: (segment ++ rest) = extend sep [] segments ∧ segments ≠ [] ∧
      ∀ s ∈ segments, good s = true ∧ ∀ c ∈ s, c ≠ sep ∧ bad c = false := by
  induction rest generalizing segment with
  | nil =>
      refine ⟨[segment], by simp [extend], by simp, ?_⟩
      rintro s hs
      obtain rfl := List.mem_singleton.mp hs
      exact ⟨h, hsegment⟩
  | cons c rest ih =>
      unfold segmentsPass at h
      split_ifs at h with hbad hsep
      · obtain ⟨hgood, hrest⟩ := Bool.and_eq_true_iff.mp h
        obtain ⟨segments, hsplit, -, hpass⟩ := ih [] (by simp) hrest
        refine ⟨segment :: segments, ?_, by simp, ?_⟩
        · rw [hsep]
          simpa [extend] using hsplit
        · intro s hs
          rcases List.mem_cons.mp hs with rfl | hs
          · exact ⟨hgood, hsegment⟩
          · exact hpass s hs
      · obtain ⟨segments, hsplit, hne, hpass⟩ := ih (segment ++ [c])
          (by
            intro d hd
            rcases List.mem_append.mp hd with hd | hd
            · exact hsegment d hd
            · obtain rfl := List.mem_singleton.mp hd
              exact ⟨hsep, by simpa using hbad⟩) h
        exact ⟨segments, by simpa using hsplit, hne, hpass⟩

def rsplit (sep : α) : List α → Option (List α × List α)
  | [] => none
  | c :: rest =>
      match rsplit sep rest with
      | some (parent, leaf) => some (c :: parent, leaf)
      | none => if c = sep then some ([], rest) else none

theorem rsplit_none {path : List α} (h : sep ∉ path) : rsplit sep path = none := by
  induction path with
  | nil => rfl
  | cons c rest ih =>
      simp only [List.mem_cons, not_or] at h
      simp only [rsplit, ih h.2, if_neg (Ne.symm h.1)]

theorem rsplit_append (parent : List α) {leaf : List α} (h : sep ∉ leaf) :
    rsplit sep (parent ++ sep :: leaf) = some (parent, leaf) := by
  induction parent with
  | nil => simp [rsplit, rsplit_none h]
  | cons c parent ih => simp only [List.cons_append, rsplit, ih]

theorem rsplit_extend (root : List α) (segments : List (List α)) {s : List α} (h : sep ∉ s) :
    rsplit sep (extend sep root (segments ++ [s])) = some (extend sep root segments, s) := by
  rw [extend_append, extend_singleton, rsplit_append _ h]

theorem under_sibling (hsep : fold sep = sep) {s t : List α} (hs : sep ∉ s.map fold) (ht : sep ∉ t.map fold)
    (h : Under sep fold (extend sep root [s]) path) (h' : Under sep fold (extend sep root [t]) path) :
    s.map fold = t.map fold := by
  obtain ⟨rest, hrest, hshape⟩ := h
  obtain ⟨rest', hrest', hshape'⟩ := h'
  rw [hrest, extend_singleton, extend_singleton] at hrest'
  simp only [List.map_append, List.map_cons, hsep, List.append_assoc, List.append_cancel_left_eq, List.cons_append,
    List.cons.injEq, true_and] at hrest'
  have hbound (first : List α) (hfirst : sep ∉ first) {rest : List α} (hrest : rest = [] ∨ ∃ tail, rest = sep :: tail) :
      (first ++ rest).takeWhile (· ≠ sep) = first := by
    have hall : ∀ c ∈ first, decide (c ≠ sep) = true := fun c hc => by
      simpa using fun he : c = sep => hfirst (he ▸ hc)
    rw [List.takeWhile_append_of_pos hall]
    rcases hrest with rfl | ⟨tail, rfl⟩ <;> simp
  rw [← hbound _ hs hshape, ← hbound _ ht hshape', hrest']

section Keys

def key (sep : α) (fold : α → α) (path : List α) : List (List α) := (path.map fold).splitOn sep

theorem key_append (hsep : fold sep = sep) (first second : List α) :
    key sep fold (first ++ sep :: second) = key sep fold first ++ key sep fold second := by
  simp only [key, List.map_append, List.map_cons, hsep, List.splitOn_append_cons_self]

theorem key_segment {s : List α} (h : sep ∉ s.map fold) : key sep fold s = [s.map fold] :=
  List.splitOn_eq_singleton h

theorem key_eq_iff {first second : List α} : key sep fold first = key sep fold second ↔ first.map fold = second.map fold := by
  constructor
  · intro h
    have hjoin := congrArg (List.intercalate [sep]) h
    simpa [key] using hjoin
  · intro h
    rw [key, h, key]

omit [DecidableEq α] in
theorem intercalate_append {first second : List (List α)} (h : first ≠ []) (h' : second ≠ []) :
    List.intercalate [sep] (first ++ second) = List.intercalate [sep] first ++ sep :: List.intercalate [sep] second := by
  induction first with
  | nil => exact absurd rfl h
  | cons s first ih =>
      cases first with
      | nil => simp [List.intercalate_cons_of_ne_nil h']
      | cons t first => simpa using ih (by simp)

theorem under_iff_key {root path : List α} : Under sep fold root path ↔ key sep fold root <+: key sep fold path := by
  constructor
  · rintro ⟨rest, hrest, rfl | ⟨tail, rfl⟩⟩
    · rw [key, key, hrest, List.append_nil]
    · rw [key, key, hrest, List.splitOn_append_cons_self]
      exact List.prefix_append _ _
  · rintro ⟨rest, hrest⟩
    have hjoin := congrArg (List.intercalate [sep]) hrest
    cases rest with
    | nil =>
        refine ⟨[], ?_, .inl rfl⟩
        simpa [key] using hjoin.symm
    | cons s rest =>
        rw [intercalate_append (by simp [key]) (by simp)] at hjoin
        exact ⟨_, by simpa [key] using hjoin.symm, .inr ⟨_, rfl⟩⟩

theorem map_splitOn (hsep : fold sep = sep) (h : ∀ c, fold c = sep → c = sep) (path : List α) :
    (path.splitOn sep).map (List.map fold) = key sep fold path := by
  induction path with
  | nil => simp [key]
  | cons c path ih =>
      have hne := List.splitOn_ne_nil sep path
      rw [key, List.map_cons, List.splitOn_cons_eq_if_modifyHead, List.splitOn_cons_eq_if_modifyHead]
      change _ = key sep fold path at ih
      by_cases hc : c = sep
      · subst hc
        simpa [hsep, key] using ih
      · have hfold : fold c ≠ sep := fun he => hc (h c he)
        obtain ⟨s, rest, hs⟩ := List.exists_cons_of_ne_nil hne
        rw [hs] at ih
        rw [hs, if_neg (by simpa using hc), if_neg (by simpa using hfold), ← key, ← ih]
        rfl

theorem not_mem_splitOn (path : List α) : ∀ s ∈ path.splitOn sep, sep ∉ s := by
  induction path with
  | nil => simp
  | cons c path ih =>
      rw [List.splitOn_cons_eq_if_modifyHead]
      by_cases hc : c = sep
      · simpa [hc] using ih
      · obtain ⟨first, rest, hs⟩ := List.exists_cons_of_ne_nil (List.splitOn_ne_nil sep path)
        rw [hs] at ih
        rw [hs, if_neg (by simpa using hc)]
        intro s hmem
        rcases List.mem_cons.mp hmem with rfl | hrest
        · simpa [Ne.symm hc] using ih first (by simp)
        · exact ih s (List.mem_cons_of_mem _ hrest)

end Keys

end EtranProcessing.Library.Segments
