import Mathlib

namespace EtranProcessing.Library.Intervals

def Chained : Nat → List (Nat × Nat) → Nat → Prop
  | a, [], c => a = c
  | a, p :: l, c => p.1 = a ∧ p.1 < p.2 ∧ Chained p.2 l c

variable {a c : Nat} {l : List (Nat × Nat)}

theorem Chained.le (h : Chained a l c) : a ≤ c := by
  induction l generalizing a with
  | nil => exact Nat.le_of_eq h
  | cons p l ih =>
      obtain ⟨rfl, hlt, hrest⟩ := h
      exact Nat.le_trans (Nat.le_of_lt hlt) (ih hrest)

theorem Chained.append (h : Chained a l c) {e : Nat} (hlt : c < e) : Chained a (l ++ [(c, e)]) e := by
  induction l generalizing a with
  | nil =>
      cases h
      exact ⟨rfl, hlt, rfl⟩
  | cons p l ih =>
      obtain ⟨hstart, hp, hrest⟩ := h
      exact ⟨hstart, hp, ih hrest⟩

theorem Chained.sum (h : Chained a l c) : a + (l.map fun p => p.2 - p.1).sum = c := by
  induction l generalizing a with
  | nil => exact h
  | cons p l ih =>
      obtain ⟨rfl, hlt, hrest⟩ := h
      have hsum := ih hrest
      simp only [List.map_cons, List.sum_cons]
      omega

theorem Chained.start_ge (h : Chained a l c) : ∀ p ∈ l, a ≤ p.1 := by
  induction l generalizing a with
  | nil => simp
  | cons p l ih =>
      obtain ⟨rfl, hlt, hrest⟩ := h
      intro q hq
      rcases List.mem_cons.mp hq with rfl | hq
      · exact Nat.le_refl _
      · exact Nat.le_trans (Nat.le_of_lt hlt) (ih hrest q hq)

theorem Chained.disjoint (h : Chained a l c) : l.Pairwise fun p q => p.2 ≤ q.1 := by
  induction l generalizing a with
  | nil => exact .nil
  | cons p l ih =>
      obtain ⟨_, _, hrest⟩ := h
      exact .cons hrest.start_ge (ih hrest)

theorem Chained.eq_nil_or (h : Chained a l c) : l = [] ∨ ∃ p ∈ l, p.1 < c := by
  cases l with
  | nil => exact .inl rfl
  | cons p l =>
      obtain ⟨_, hlt, hrest⟩ := h
      exact .inr ⟨p, by simp, Nat.lt_of_lt_of_le hlt hrest.le⟩

end EtranProcessing.Library.Intervals
