import Mathlib
import EtranProcessing.Library.Fallible

namespace EtranProcessing.Library.Histories

open Fallible

section Everywhere

variable {α : Type} {p q : List α → α → Prop}

def Everywhere (p : List α → α → Prop) (h : List α) : Prop :=
  ∀ before a after, h = before ++ a :: after → p before a

theorem everywhere_nil : Everywhere p [] := by
  intro before a after h
  simp at h

theorem Everywhere.concat {h : List α} {a : α} (hh : Everywhere p h) (ha : p h a) : Everywhere p (h ++ [a]) := by
  intro before b after hsplit
  rcases List.eq_nil_or_concat after with rfl | ⟨after, c, rfl⟩
  · obtain ⟨rfl, hab⟩ := List.append_inj' hsplit rfl
    cases hab
    exact ha
  · have hsplit' : h ++ [a] = (before ++ b :: after) ++ [c] := by
      rw [hsplit]
      simp
    exact hh before b after (List.append_inj' hsplit' rfl).1

theorem split_unique (kind : α → Prop) {before before' after after' : List α} {a a' : α} (hbefore : ∀ b ∈ before', ¬ kind b)
    (hafter : ∀ b ∈ after', ¬ kind b) (ha : kind a) (h : before ++ a :: after = before' ++ a' :: after') :
    before = before' ∧ a = a' ∧ after = after' := by
  induction before generalizing before' with
  | nil =>
      cases before' with
      | nil =>
          obtain ⟨rfl, rfl⟩ := List.cons.inj h
          exact ⟨rfl, rfl, rfl⟩
      | cons =>
          obtain ⟨rfl, _⟩ := List.cons.inj h
          exact absurd ha (hbefore a (by simp))
  | cons b before ih =>
      cases before' with
      | nil =>
          obtain ⟨_, rfl⟩ := List.cons.inj h
          exact absurd ha (hafter a (by simp))
      | cons =>
          obtain ⟨rfl, hrest⟩ := List.cons.inj h
          obtain ⟨rfl, rfl, rfl⟩ := ih (fun c hc => hbefore c (List.mem_cons_of_mem _ hc)) hrest
          exact ⟨rfl, rfl, rfl⟩

theorem mem_before {before before' after after' : List α} {a a' : α} (h : before ++ a :: after = before' ++ a' :: after')
    (hlt : before.length < before'.length) : a ∈ before' := by
  have hat : (before' ++ a' :: after')[before.length]? = some a := by
    rw [← h, List.getElem?_append_right (Nat.le_refl _), Nat.sub_self]
    rfl
  rw [List.getElem?_append_left hlt] at hat
  exact List.mem_of_getElem? hat

end Everywhere

section Pairing

variable {α : Type} {finishes : α → α → Prop}

/-- Every announcement is followed at once by what finishes it. -/
inductive Paired (finishes : α → α → Prop) : List α → Prop
  | nil : Paired finishes []
  | cons {a b : α} {rest : List α} : finishes a b → Paired finishes rest → Paired finishes (a :: b :: rest)

variable {l : List α}

theorem Paired.concat (h : Paired finishes l) {a b : α} (hab : finishes a b) :
    Paired finishes (l ++ [a] ++ [b]) := by
  induction h with
  | nil => exact .cons hab .nil
  | cons hcd _ ih => exact .cons hcd ih

def Announced (finishes : α → α → Prop) (pending : Option α) (l : List α) : Prop :=
  ∃ done, Paired finishes done ∧ l = done ++ pending.toList

theorem announced_nil : Announced finishes none [] := ⟨[], .nil, rfl⟩

theorem Announced.announce (h : Announced finishes none l) (a : α) :
    Announced finishes (some a) (l ++ [a]) := by
  obtain ⟨done, hdone, rfl⟩ := h
  exact ⟨done, hdone, by simp⟩

theorem Announced.finish {a b : α} (h : Announced finishes (some a) l) (hab : finishes a b) :
    Announced finishes none (l ++ [b]) := by
  obtain ⟨done, hdone, rfl⟩ := h
  exact ⟨done ++ [a] ++ [b], hdone.concat hab, by simp⟩

theorem Announced.paired (h : Announced finishes none l) : Paired finishes l := by
  obtain ⟨done, hdone, rfl⟩ := h
  simpa using hdone

theorem Announced.mem {a : α} (h : Announced finishes (some a) l) : a ∈ l := by
  obtain ⟨done, _, rfl⟩ := h
  simp

theorem Paired.filter {keep : α → Bool} (h : Paired finishes l)
    (hkeep : ∀ a b, finishes a b → keep a = keep b) : Paired finishes (l.filter keep) := by
  induction h with
  | nil => exact .nil
  | @cons a b rest hab _ ih =>
      cases hb : keep b with
      | false => simpa [hkeep a b hab, hb] using ih
      | true => simpa [hkeep a b hab, hb] using Paired.cons hab ih

theorem Paired.map_eq {β γ : Type} (h : Paired finishes l) (closes : α → Bool) (key : α → γ)
    (mark : α → β) (expand : β → List γ) (hread : ∀ a b, finishes a b →
      closes a = false ∧ closes b = true ∧ [key a, key b] = expand (mark b)) :
    l.map key = ((l.filter closes).map mark).flatMap expand := by
  induction h with
  | nil => rfl
  | @cons a b rest hab _ ih =>
      obtain ⟨ha, hb, hkey⟩ := hread a b hab
      simp only [List.filter_cons_of_neg (by simp [ha] : ¬ closes a = true), List.filter_cons_of_pos hb, List.map_cons,
        List.flatMap_cons, ← hkey, ih]
      rfl

end Pairing

section Replay

variable {ε α β : Type} {step : β → α → Except ε β}

theorem foldlM_explained (explains : List α → β → Prop)
    (hstep : ∀ h b a b', step b a = .ok b' → explains h b → explains (h ++ [a]) b') (l h : List α) (b b' : β)
    (hl : l.foldlM step b = .ok b') (hb : explains h b) : explains (h ++ l) b' := by
  induction l generalizing h b with
  | nil =>
      cases hl
      simpa using hb
  | cons a l ih =>
      rw [List.foldlM_cons, bind_eq_ok] at hl
      obtain ⟨c, hc, hrest⟩ := hl
      simpa using ih (h ++ [a]) c hrest (hstep h b a c hc hb)

end Replay

end EtranProcessing.Library.Histories
