import Mathlib

namespace EtranProcessing.Library.Runs

open Relation

section Machine

variable {σ ε : Type} (step : σ → ε → σ)

def run (s : σ) (events : List ε) : σ := events.foldl step s

def Along (ok : σ → ε → Prop) : σ → List ε → Prop
  | _, [] => True
  | s, e :: events => ok s e ∧ Along ok (step s e) events

instance Along.decidable (ok : σ → ε → Prop) [∀ s e, Decidable (ok s e)] :
    (s : σ) → (events : List ε) → Decidable (Along step ok s events)
  | _, [] => inferInstanceAs (Decidable True)
  | s, e :: events =>
    have := Along.decidable ok (step s e) events
    inferInstanceAs (Decidable (ok s e ∧ Along step ok (step s e) events))

theorem run_append (s : σ) (first second : List ε) :
    run step s (first ++ second) = run step (run step s first) second := by
  simp [run]

theorem run_first_change {τ : Type} (view : σ → τ) {v : τ} (events : List ε) (s : σ) (hs : view s = v) :
    view (run step s events) = v ∨ ∃ during e rest, events = during ++ e :: rest ∧
      view (run step s during) = v ∧ view (step (run step s during) e) ≠ v := by
  induction events generalizing s with
  | nil => exact .inl hs
  | cons e events ih =>
      by_cases he : view (step s e) = v
      · rcases ih (step s e) he with hkept | ⟨during, e', rest, hsplit, hbefore, hafter⟩
        · exact .inl hkept
        · exact .inr ⟨e :: during, e', rest, by rw [hsplit]; rfl, hbefore, hafter⟩
      · exact .inr ⟨[], e, events, rfl, hs, he⟩

variable {step}

theorem Along.mono {ok ok' : σ → ε → Prop} (h : ∀ s e, ok s e → ok' s e) (events : List ε) (s : σ)
    (hs : Along step ok s events) : Along step ok' s events := by
  induction events generalizing s with
  | nil => exact hs
  | cons e events ih => exact ⟨h s e hs.1, ih (step s e) hs.2⟩

theorem Along.take {ok : σ → ε → Prop} {events : List ε} {s : σ} (h : Along step ok s events) (n : Nat) :
    Along step ok s (events.take n) := by
  induction events generalizing s n with
  | nil => simpa using h
  | cons e events ih =>
      cases n with
      | zero => trivial
      | succ n => exact ⟨h.1, ih h.2 n⟩

theorem Along.split {ok : σ → ε → Prop} {first second : List ε} {s : σ} (h : Along step ok s (first ++ second)) :
    Along step ok s first ∧ Along step ok (run step s first) second := by
  induction first generalizing s with
  | nil => exact ⟨trivial, h⟩
  | cons e first ih =>
      obtain ⟨hfirst, hsecond⟩ := ih h.2
      exact ⟨⟨h.1, hfirst⟩, hsecond⟩

theorem run_kept {p : σ → Prop} (hstep : ∀ s e, p s → p (step s e)) (events : List ε) (s : σ) (hs : p s) :
    p (run step s events) := by
  induction events generalizing s with
  | nil => exact hs
  | cons e events ih => exact ih (step s e) (hstep s e hs)

theorem along_of_forall {ok : σ → ε → Prop} (h : ∀ s e, ok s e) (events : List ε) (s : σ) :
    Along step ok s events := by
  induction events generalizing s with
  | nil => trivial
  | cons e events ih => exact ⟨h s e, ih (step s e)⟩

end Machine

section Refinement

variable {σ ε τ : Type} {step : σ → ε → σ} {move : τ → τ → Prop} {view : σ → τ}

theorem kept_along {p : τ → Prop} (hmove : ∀ a b, move a b → p a → p b) {a b : τ}
    (h : ReflTransGen move a b) (ha : p a) : p b := by
  induction h with
  | refl => exact ha
  | tail _ hm ih => exact hmove _ _ hm ih

/-- A machine whose permitted steps are paths of moves, as long as the basic
invariant of the moves holds, runs along paths of moves. -/
theorem run_path {ok : σ → ε → Prop} {base : τ → Prop} (hbase : ∀ a b, move a b → base a → base b)
    (hstep : ∀ s e, base (view s) → ok s e → ReflTransGen move (view s) (view (step s e)))
    (events : List ε) (s : σ) (hs : base (view s)) (hok : Along step ok s events) :
    ReflTransGen move (view s) (view (run step s events)) := by
  induction events generalizing s with
  | nil => exact .refl
  | cons e events ih =>
      obtain ⟨he, hrest⟩ := hok
      have hpath := hstep s e hs he
      exact hpath.trans (ih (step s e) (kept_along hbase hpath hs) hrest)

end Refinement

end EtranProcessing.Library.Runs
