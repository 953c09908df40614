import Mathlib

namespace EtranProcessing.Library.Calls

variable {σ α β : Type}

def Call (σ α : Type) : Type := σ → Option α × σ

def Call.run (c : Call σ α) (s : σ) : Option α × σ := c s

def Call.bind (c : Call σ α) (f : α → Call σ β) : Call σ β := fun s =>
  match c s with
  | (some a, s') => f a s'
  | (none, s') => (none, s')

instance : Monad (Call σ) where
  pure a := fun s => (some a, s)
  bind := Call.bind

def check (p : Prop) [Decidable p] : Call σ Unit := fun s => if p then (some (), s) else (none, s)

def current : Call σ σ := fun s => (some s, s)

def change (f : σ → σ) : Call σ Unit := fun s => (some (), f s)

def found (o : Option α) : Call σ α := fun s => (o, s)

def attempt (c : Call σ α) : Call σ (Option α) := fun s => (some (c s).1, (c s).2)

def wp (c : Call σ α) (post : α → σ → Prop) (lost : σ → Prop) (s : σ) : Prop :=
  match c s with
  | (some a, s') => post a s'
  | (none, s') => lost s'

section Rules

variable {post : α → σ → Prop} {after : β → σ → Prop} {lost : σ → Prop} {s : σ}

@[simp] theorem wp_pure (a : α) : wp (pure a) post lost s ↔ post a s := Iff.rfl

@[simp] theorem wp_bind (c : Call σ α) (f : α → Call σ β) :
    wp (c >>= f) after lost s ↔ wp c (fun a => wp (f a) after lost) lost s := by
  change wp (Call.bind c f) after lost s ↔ _
  unfold wp Call.bind
  cases h : c s with
  | mk o s' =>
      cases o with
      | none => rfl
      | some a => rfl

theorem wp_bind_assoc {γ : Type} (c : Call σ α) (f : α → Call σ β) (g : β → Call σ γ) {final : γ → σ → Prop} :
    wp (c >>= f >>= g) final lost s ↔ wp (c >>= fun a => f a >>= g) final lost s := by
  have hrest : (fun a => wp (f a >>= g) final lost) = fun a => wp (f a) (fun b => wp (g b) final lost) lost :=
    funext fun a => funext fun s' => propext (wp_bind (f a) g)
  rw [wp_bind, wp_bind, wp_bind, hrest]

@[simp] theorem wp_check (p : Prop) [Decidable p] {post : Unit → σ → Prop} :
    wp (check p) post lost s ↔ (p → post () s) ∧ (¬ p → lost s) := by
  unfold wp check
  by_cases h : p
  · simp [h]
  · simp [h]

@[simp] theorem wp_current {post : σ → σ → Prop} : wp current post lost s ↔ post s s := Iff.rfl

@[simp] theorem wp_change (f : σ → σ) {post : Unit → σ → Prop} : wp (change f) post lost s ↔ post () (f s) := Iff.rfl

@[simp] theorem wp_found (o : Option α) :
    wp (found o) post lost s ↔ (∀ a, o = some a → post a s) ∧ (o = none → lost s) := by
  unfold wp found
  cases o with
  | none => simp
  | some a => simp

@[simp] theorem wp_attempt (c : Call σ α) {post : Option α → σ → Prop} :
    wp (attempt c) post lost s ↔ wp c (fun a => post (some a)) (post none) s := by
  change post (c s).1 (c s).2 ↔ _
  unfold wp
  cases h : c s with
  | mk o s' =>
      cases o with
      | none => rfl
      | some a => rfl

theorem wp_ite (p : Prop) [Decidable p] (c d : Call σ α) :
    wp (if p then c else d) post lost s ↔ (p → wp c post lost s) ∧ (¬ p → wp d post lost s) := by
  by_cases h : p
  · simp [h]
  · simp [h]

theorem wp_run (c : Call σ α) : wp c post lost s ↔
    (∀ a, (c s).1 = some a → post a (c s).2) ∧ ((c s).1 = none → lost (c s).2) := by
  unfold wp
  cases h : c s with
  | mk o s' =>
      cases o with
      | none => simp
      | some a => simp

theorem wp_mono {post' : α → σ → Prop} {lost' : σ → Prop} {c : Call σ α} (h : wp c post lost s)
    (hpost : ∀ a s', post a s' → post' a s') (hlost : ∀ s', lost s' → lost' s') : wp c post' lost' s := by
  unfold wp at h ⊢
  cases hc : c s with
  | mk o s' =>
      rw [hc] at h
      cases o with
      | none => exact hlost s' h
      | some a => exact hpost a s' h

theorem wp_imp {post' : α → σ → Prop} {c : Call σ α} (h : wp c post lost s) (hpost : ∀ a s', post a s' → post' a s') :
    wp c post' lost s := wp_mono h hpost fun _ hlost => hlost

theorem wp_state {p : σ → Prop} {c : Call σ α} (h : wp c (fun _ => p) p s) : p (c s).2 := by
  unfold wp at h
  cases hc : c s with
  | mk o s' =>
      rw [hc] at h
      cases o with
      | none => exact h
      | some a => exact h

end Rules

section Runs

variable {c : Call σ α} {f : α → Call σ β} {s s' : σ}

theorem bind_run {a : α} (h : c s = (some a, s')) : (c >>= f) s = f a s' := by
  change Call.bind c f s = _
  rw [Call.bind, h]

theorem current_run : (current : Call σ σ) s = (some s, s) := rfl

theorem check_run {p : Prop} [Decidable p] (h : p) : check p s = (some (), s) := if_pos h

theorem found_run {o : Option α} {a : α} (h : o = some a) : found o s = (some a, s) := by
  rw [h]
  rfl

theorem forM_run {l : List α} {f : α → Call σ Unit} (h : ∀ a ∈ l, f a s = (some (), s)) : l.forM f s = (some (), s) := by
  induction l with
  | nil => rfl
  | cons a l ih =>
      change (f a >>= fun _ => l.forM f) s = _
      rw [bind_run (h a (by simp)), ih fun b hb => h b (List.mem_cons_of_mem _ hb)]

theorem foldlM_run {l : List α} {f : β → α → Call σ β} {g : β → α → β} (h : ∀ b, ∀ a ∈ l, f b a s = (some (g b a), s))
    (b : β) : l.foldlM f b s = (some (l.foldl g b), s) := by
  induction l generalizing b with
  | nil => rfl
  | cons a l ih =>
      rw [List.foldlM_cons, bind_run (h b a (by simp)), ih fun b a ha => h b a (List.mem_cons_of_mem _ ha)]
      rfl

end Runs

section Loops

variable {s : σ} {lost : σ → Prop} (inv : σ → Prop) (p : α → Prop)

theorem wp_foldlM {l : List α} {f : β → α → Call σ β} (hs : inv s)
    (h : ∀ b, ∀ a ∈ l, ∀ s, inv s → wp (f b a) (fun _ s' => inv s' ∧ p a) lost s) (b : β) :
    wp (l.foldlM f b) (fun _ s' => inv s' ∧ ∀ a ∈ l, p a) lost s := by
  induction l generalizing b s with
  | nil => exact ⟨hs, by simp⟩
  | cons a l ih =>
      rw [List.foldlM_cons, wp_bind]
      refine wp_imp (h b a (by simp) s hs) ?_
      rintro b' s' ⟨hinv, ha⟩
      refine wp_imp (ih hinv (fun b a ha => h b a (List.mem_cons_of_mem _ ha)) b') ?_
      rintro b'' s'' ⟨hinv', hrest⟩
      exact ⟨hinv', List.forall_mem_cons.mpr ⟨ha, hrest⟩⟩

theorem wp_forM {l : List α} {f : α → Call σ Unit} (hs : inv s)
    (h : ∀ a ∈ l, ∀ s, inv s → wp (f a) (fun _ s' => inv s' ∧ p a) lost s) :
    wp (l.forM f) (fun _ s' => inv s' ∧ ∀ a ∈ l, p a) lost s := by
  induction l generalizing s with
  | nil => exact ⟨hs, by simp⟩
  | cons a l ih =>
      change wp (f a >>= fun _ => l.forM f) _ _ _
      rw [wp_bind]
      refine wp_imp (h a (by simp) s hs) ?_
      rintro _ s' ⟨hinv, ha⟩
      refine wp_imp (ih hinv fun a ha => h a (List.mem_cons_of_mem _ ha)) ?_
      rintro _ s'' ⟨hinv', hrest⟩
      exact ⟨hinv', List.forall_mem_cons.mpr ⟨ha, hrest⟩⟩

end Loops

def Keeps {τ : Type} (view : σ → τ) (c : Call σ α) : Prop := ∀ s, view (c s).2 = view s

section Keeping

variable {τ : Type} {view : σ → τ} {c : Call σ α} {f : α → Call σ β}

theorem Keeps.pure (a : α) : Keeps view (Pure.pure a : Call σ α) := fun _ => rfl

theorem Keeps.check (p : Prop) [Decidable p] : Keeps view (check p) := by
  intro s
  unfold Calls.check
  split
  · rfl
  · rfl

theorem Keeps.found (o : Option α) : Keeps view (found o) := fun _ => rfl

theorem Keeps.current : Keeps view current := fun _ => rfl

theorem Keeps.found_bind {o : Option α} (h : ∀ a, o = some a → Keeps view (f a)) : Keeps view (Calls.found o >>= f) := by
  cases o with
  | none => exact fun _ => rfl
  | some a => exact h a rfl

theorem Keeps.bind (h : Keeps view c) (hf : ∀ a, Keeps view (f a)) : Keeps view (c >>= f) := by
  intro s
  change view (Call.bind c f s).2 = view s
  have hc := h s
  unfold Call.bind
  cases hrun : c s with
  | mk o s' =>
      rw [hrun] at hc
      cases o with
      | none => exact hc
      | some a => exact (hf a s').trans hc

theorem Keeps.forM {l : List α} {f : α → Call σ Unit} (h : ∀ a ∈ l, Keeps view (f a)) : Keeps view (l.forM f) := by
  induction l with
  | nil => exact fun _ => rfl
  | cons a l ih => exact (h a (by simp)).bind fun _ => ih fun b hb => h b (List.mem_cons_of_mem _ hb)

theorem Keeps.foldlM {l : List α} {f : β → α → Call σ β} (h : ∀ b, ∀ a ∈ l, Keeps view (f b a)) (b : β) :
    Keeps view (l.foldlM f b) := by
  induction l generalizing b with
  | nil => exact fun _ => rfl
  | cons a l ih =>
      rw [List.foldlM_cons]
      exact (h b a (by simp)).bind fun b' => ih (fun b a ha => h b a (List.mem_cons_of_mem _ ha)) b'

variable {post : β → σ → Prop} {s : σ}

theorem Keeps.wp_bind_lost (h : Keeps view c) {lost : σ → Prop}
    (hlost : ∀ s', view s' = view s → lost s') (hf : ∀ a s', view s' = view s → wp (f a) post lost s') :
    wp (c >>= f) post lost s := by
  rw [Calls.wp_bind, wp_run]
  exact ⟨fun a _ => hf a _ (h s), fun _ => hlost _ (h s)⟩

theorem Keeps.wp_bind (h : Keeps view c)
    (hf : ∀ a s', view s' = view s → wp (f a) post (fun _ => True) s') : wp (c >>= f) post (fun _ => True) s :=
  h.wp_bind_lost (fun _ _ => trivial) hf

theorem Keeps.wp_bind_kept (h : Keeps view c) {v : τ} (hs : view s = v)
    (hf : ∀ a s', view s' = v → wp (f a) post (fun s' => view s' = v) s') :
    wp (c >>= f) post (fun s' => view s' = v) s :=
  h.wp_bind_lost (fun _ hkept => hkept.trans hs) fun a s' hkept => hf a s' (hkept.trans hs)

theorem Keeps.wp (h : Keeps view c) {post : α → σ → Prop} (hc : Calls.wp c post (fun _ => True) s) :
    Calls.wp c (fun a s' => post a s' ∧ view s' = view s) (fun s' => view s' = view s) s := by
  rw [wp_run] at hc ⊢
  exact ⟨fun a ha => ⟨hc.1 a ha, h s⟩, fun _ => h s⟩

theorem Keeps.map {τ' : Type} (g : τ → τ') (h : Keeps view c) : Keeps (fun s => g (view s)) c :=
  fun s => congrArg g (h s)

end Keeping

end EtranProcessing.Library.Calls
