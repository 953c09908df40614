namespace EtranProcessing.Library.Fallible

variable {ε α β : Type}

def require (p : Prop) [Decidable p] (e : ε) : Except ε Unit := if p then .ok () else .error e

def demand (o : Option α) (e : ε) : Except ε α :=
  match o with
  | some a => .ok a
  | none => .error e

@[simp] theorem bind_eq_ok {x : Except ε α} {f : α → Except ε β} {b : β} :
    (x >>= f) = .ok b ↔ ∃ a, x = .ok a ∧ f a = .ok b := by
  cases x with
  | error e => simp [bind, Except.bind]
  | ok a => simp [bind, Except.bind]

@[simp] theorem return_eq_ok {a b : α} : (pure a : Except ε α) = .ok b ↔ b = a := by
  simp [pure, Except.pure, eq_comm]

@[simp] theorem require_eq_ok {p : Prop} [Decidable p] {e : ε} {u : Unit} : require p e = .ok u ↔ p := by
  unfold require
  split
  next h => simp [h]
  next h => simp [h]

@[simp] theorem demand_eq_ok {o : Option α} {e : ε} {a : α} : demand o e = .ok a ↔ o = some a := by
  cases o with
  | none => simp [demand]
  | some a => simp [demand]

theorem ite_eq_ok {p : Prop} [Decidable p] {x y : Except ε α} {a : α} :
    (if p then x else y) = .ok a ↔ (p ∧ x = .ok a) ∨ (¬ p ∧ y = .ok a) := by
  split
  next h => simp [h]
  next h => simp [h]

theorem forM_ok {f : α → Except ε Unit} {l : List α} {u : Unit} (h : l.forM f = .ok u) : ∀ a ∈ l, f a = .ok () := by
  induction l with
  | nil => simp
  | cons a l ih =>
      change (f a >>= fun _ => l.forM f) = .ok u at h
      rw [bind_eq_ok] at h
      obtain ⟨_, ha, hl⟩ := h
      intro b hb
      rcases List.mem_cons.mp hb with rfl | hb
      · exact ha
      · exact ih hl b hb

theorem foldlM_kept {step : β → α → Except ε β} (p : β → Prop)
    (hstep : ∀ b a b', step b a = .ok b' → p b → p b') (l : List α) (b b' : β)
    (h : l.foldlM step b = .ok b') (hb : p b) : p b' := by
  induction l generalizing b with
  | nil =>
      cases h
      exact hb
  | cons a l ih =>
      rw [List.foldlM_cons, bind_eq_ok] at h
      obtain ⟨c, hc, hrest⟩ := h
      exact ih c hrest (hstep b a c hc hb)

end EtranProcessing.Library.Fallible
