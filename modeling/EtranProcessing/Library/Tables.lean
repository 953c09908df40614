import Mathlib

namespace EtranProcessing.Library.Tables

section Slots

variable {ι α : Type} [DecidableEq ι] {R : α → α → Prop} {f : ι → α}

theorem pairwise_update (hsymm : ∀ a b, R a b → R b a) (h : Pairwise (Function.onFun R f)) (i : ι) (t : α)
    (ht : ∀ j, j ≠ i → R t (f j)) : Pairwise (Function.onFun R (Function.update f i t)) := by
  intro j k hjk
  simp only [Function.onFun, Function.update_apply]
  by_cases hj : j = i
  · have hk : k ≠ i := fun hk => hjk (hj.trans hk.symm)
    simpa [hj, hk] using ht k hk
  · by_cases hk : k = i
    · simpa [hj, hk] using hsymm _ _ (ht j hj)
    · simpa [hj, hk] using h hjk

end Slots

section Search

variable {α : Type}

theorem getD_set (l : List α) (i j : Nat) (t d : α) (hi : i < l.length) :
    (l.set i t).getD j d = if j = i then t else l.getD j d := by
  by_cases h : j = i
  · subst h
    simp [hi]
  · have h' : i ≠ j := fun e => h e.symm
    simp [h, h']

theorem getD_append_default (l : List α) (j : Nat) (d : α) : (l ++ [d]).getD j d = l.getD j d := by
  simp only [List.getD_eq_getElem?_getD, List.getElem?_append]
  by_cases h : j < l.length
  · simp [h]
  · by_cases h' : j - l.length = 0
    · simp [h, h']
    · simp [h, h']

variable {q : α → Bool} {l : List α}

theorem getD_of_findIdx? {i : Nat} (d : α) (h : l.findIdx? q = some i) :
    i < l.length ∧ q (l.getD i d) = true := by
  obtain ⟨hi, hq, _⟩ := List.findIdx?_eq_some_iff_getElem.mp h
  refine ⟨hi, ?_⟩
  simpa [hi] using hq

theorem getD_of_findIdx?_none {d : α} (hd : q d = false) (h : l.findIdx? q = none)
    (j : Nat) : q (l.getD j d) = false := by
  rw [List.findIdx?_eq_none_iff] at h
  by_cases hj : j < l.length
  · simpa [hj] using h l[j] (List.getElem_mem hj)
  · have hj' : l.length ≤ j := Nat.le_of_not_lt hj
    simpa [hj'] using hd

theorem findIdx?_of_key {β : Type} {l l' : List α} (key : α → β) (q : β → Bool) (d : α) (hlen : l'.length = l.length)
    (h : ∀ i, key (l'.getD i d) = key (l.getD i d)) :
    (l'.findIdx? fun a => q (key a)) = l.findIdx? fun a => q (key a) := by
  have hkeys : l'.map key = l.map key := by
    apply List.ext_getElem
    · simpa using hlen
    · intro i hi hi'
      have hi₁ : i < l'.length := by simpa using hi
      have hi₂ : i < l.length := by simpa using hi'
      simpa [hi₁, hi₂] using h i
  have hsearch := congrArg (List.findIdx? q) hkeys
  simpa only [List.findIdx?_map, Function.comp_def] using hsearch

theorem filter_eraseP (l : List α) {q q' : α → Bool} (h : ∀ a, q a = true → q' a = false) :
    (l.eraseP q).filter q' = l.filter q' := by
  rcases List.exists_or_eq_self_of_eraseP q l with hself | ⟨a, l₁, l₂, _, ha, hl, he⟩
  · rw [hself]
  · rw [he, hl, List.filter_append, List.filter_append, List.filter_cons_of_neg (by simp [h a ha])]

theorem filter_eraseP_self_ne (l : List α) (h : (l.find? q).isSome = true) :
    (l.eraseP q).filter q ≠ l.filter q := by
  intro heq
  have hrest : (l.eraseP q).filter q = (l.filter q).eraseP q := by simp [List.eraseP_filter]
  obtain ⟨a, ha, hq⟩ := List.find?_isSome.mp h
  have hmem : a ∈ l.filter q := List.mem_filter.mpr ⟨ha, hq⟩
  have hlen := congrArg List.length (hrest.symm.trans heq)
  rw [List.length_eraseP_of_mem hmem hq] at hlen
  have hpos := List.length_pos_of_mem hmem
  omega

theorem drop_eraseP (l : List α) {i : Nat} (hi : i < l.length) (h : q l[i] = true) :
    (l.eraseP q).drop i = l.drop (i + 1) := by
  induction l generalizing i with
  | nil => simp at hi
  | cons a l ih =>
      by_cases ha : q a = true
      · simp [ha]
      · cases i with
        | zero => exact absurd h ha
        | succ i => simpa [ha] using ih (by simpa using hi) (by simpa using h)

theorem find?_of_other_key {κ : Type} [DecidableEq κ] (key : α → κ) (l : List α) {k other : κ} (hk : k ≠ other) :
    ((l.filter fun a => key a != k).find? fun a => key a == other) = l.find? fun a => key a == other := by
  rw [List.find?_filter]
  congr 1
  funext a
  by_cases ha : key a = other
  · simp [ha, hk.symm]
  · simp [ha]

theorem find?_of_mem {κ : Type} [DecidableEq κ] (key : α → κ) (hkeys : (l.map key).Nodup) {a : α}
    (ha : a ∈ l) : (l.find? fun b => key b == key a) = some a := by
  induction l with
  | nil => simp at ha
  | cons b l ih =>
      rw [List.map_cons, List.nodup_cons] at hkeys
      rcases List.mem_cons.mp ha with rfl | hmem
      · simp
      · have hne : key b ≠ key a := by
          intro heq
          exact hkeys.1 (heq ▸ List.mem_map_of_mem hmem)
        simpa [hne] using ih hkeys.2 hmem

theorem find?_replace {κ : Type} [DecidableEq κ] (key : α → κ) {a old : α}
    (h : (l.find? fun b => key b == key a) = some old) (k : κ) :
    ((l.map fun b => if key b = key a then a else b).find? fun b => key b == k) =
      if k = key a then some a else l.find? fun b => key b == k := by
  have hkeys : ((fun b => key b == k) ∘ fun b => if key b = key a then a else b) = fun b => key b == k := by
    funext b
    by_cases hb : key b = key a
    · simp [hb]
    · simp [hb]
  rw [List.find?_map, hkeys]
  split
  next hk =>
    have hold : key old = key a := by simpa using List.find?_some h
    rw [hk, h]
    simp [hold]
  next hk =>
    cases hfind : l.find? fun b => key b == k with
    | none => rfl
    | some b =>
        have hb : key b = k := by simpa using List.find?_some hfind
        simp [hb, hk]

end Search

end EtranProcessing.Library.Tables
