import Mathlib

namespace EtranProcessing.Library.Greedy

variable {α : Type} (blocks : α → α → Bool)

def admitOne (inside : List α) (a : α) : List α := if inside.any fun b => blocks b a then inside else inside ++ [a]

def greedy (candidates : List α) : List α := candidates.foldl (admitOne blocks) []

variable {blocks}

theorem admitOne_sublist (inside : List α) (a : α) : inside.Sublist (admitOne blocks inside a) := by
  simp only [admitOne]
  split
  · exact .refl _
  · exact List.sublist_append_left _ _

theorem foldl_admitOne_sublist (candidates inside : List α) :
    inside.Sublist (candidates.foldl (admitOne blocks) inside) :=
  List.foldlRecOn candidates _ (.refl _) fun now h a _ => h.trans (admitOne_sublist now a)

theorem foldl_admitOne_free (candidates inside : List α)
    (h : (inside ++ candidates).Pairwise fun a b => blocks a b = false) :
    candidates.foldl (admitOne blocks) inside = inside ++ candidates := by
  induction candidates generalizing inside with
  | nil => simp
  | cons a candidates ih =>
      have hin : (inside.any fun b => blocks b a) = false := by
        rw [List.any_eq_false]
        intro b hb
        rw [(List.pairwise_append.mp h).2.2 b hb a (by simp)]
        simp
      have hstep : admitOne blocks inside a = inside ++ [a] := by simp [admitOne, hin]
      rw [List.foldl_cons, hstep, ih (inside ++ [a]) (by simpa using h)]
      simp

theorem foldl_admitOne_blocked {a b : α} (hab : blocks a b = true) (candidates inside : List α) (ha : a ∈ inside)
    (hb : b ∉ inside) : b ∉ candidates.foldl (admitOne blocks) inside := by
  induction candidates generalizing inside with
  | nil => exact hb
  | cons c candidates ih =>
      apply ih
      · exact (admitOne_sublist inside c).subset ha
      · simp only [admitOne]
        split
        · exact hb
        next hfree =>
          have hcb : b ≠ c := by
            rintro rfl
            exact hfree (List.any_eq_true.mpr ⟨a, ha, hab⟩)
          simpa [hb] using hcb

theorem greedy_free {candidates : List α} (h : candidates.Pairwise fun a b => blocks a b = false) :
    greedy blocks candidates = candidates := by
  simpa [greedy] using foldl_admitOne_free candidates [] (by simpa using h)

theorem greedy_swap_differs {a b : α} (hab : blocks a b = true) (hne : a ≠ b) (rest : List α) :
    ¬ (greedy blocks (b :: a :: rest)).Perm (greedy blocks (a :: b :: rest)) := by
  intro hperm
  have hin : b ∈ greedy blocks (b :: a :: rest) := (foldl_admitOne_sublist (a :: rest) [b]).subset (by simp)
  have hout : b ∉ greedy blocks (a :: b :: rest) :=
    foldl_admitOne_blocked hab (b :: rest) [a] (by simp) (by simpa using hne.symm)
  exact hout (hperm.subset hin)

end EtranProcessing.Library.Greedy
