import EtranProcessing.Library.Calls

namespace EtranProcessing.Library.Interruption

open Calls

/-- Where a write of a run goes wrong: before it takes effect, after, or nowhere. -/
inductive Cut where
  | nowhere
  | before
  | after
  deriving Repr, DecidableEq

structure Cuttable (δ : Type) where
  site : δ
  cuts : List Cut

variable {δ α β : Type}

def write (f : δ → δ) : Call (Cuttable δ) Unit := fun s =>
  match s.cuts with
  | [] => (some (), ⟨f s.site, []⟩)
  | .nowhere :: cuts => (some (), ⟨f s.site, cuts⟩)
  | .before :: cuts => (none, ⟨s.site, cuts⟩)
  | .after :: cuts => (none, ⟨f s.site, cuts⟩)

def mayRaise : Call (Cuttable δ) Unit := write id

def look : Call (Cuttable δ) δ := do
  let s ← current
  pure s.site

def siteAfter (c : Call (Cuttable δ) α) (cuts : List Cut) (d : δ) : δ := (c ⟨d, cuts⟩).2.site

/-- Every run of a call from a site, wherever it is cut, leaves a site with a property, and one with a second
property where it comes to its end. -/
def Surely (c : Call (Cuttable δ) α) (d : δ) (post : α → δ → Prop) (lost : δ → Prop) : Prop :=
  ∀ cuts, wp c (fun a s => post a s.site) (fun s => lost s.site) ⟨d, cuts⟩

section Rules

variable {d : δ} {post : α → δ → Prop} {after : β → δ → Prop} {lost : δ → Prop}

theorem Surely.pure {a : α} (h : post a d) : Surely (Pure.pure a) d post lost := fun _ => h

theorem Surely.bind {c : Call (Cuttable δ) α} {f : α → Call (Cuttable δ) β} (h : Surely c d post lost)
    (hf : ∀ a d', post a d' → Surely (f a) d' after lost) : Surely (c >>= f) d after lost := by
  intro cuts
  rw [wp_bind]
  apply wp_imp (h cuts)
  intro a s hpost
  exact hf a s.site hpost s.cuts

theorem Surely.check {p : Prop} [Decidable p] {post : Unit → δ → Prop} (hyes : p → post () d) (hno : ¬ p → lost d) :
    Surely (Calls.check p) d post lost := by
  intro cuts
  rw [wp_check]
  exact ⟨hyes, hno⟩

theorem Surely.found {o : Option α} (hsome : ∀ a, o = some a → post a d) (hnone : o = none → lost d) :
    Surely (Calls.found o) d post lost := by
  intro cuts
  rw [wp_found]
  exact ⟨hsome, hnone⟩

theorem Surely.look {post : δ → δ → Prop} (h : post d d) : Surely look d post lost := fun _ => h

theorem Surely.write {f : δ → δ} {post : Unit → δ → Prop} (hbefore : lost d) (hafter : lost (f d)) (h : post () (f d)) :
    Surely (write f) d post lost := by
  intro cuts
  rcases cuts with _ | ⟨cut, cuts⟩
  · exact h
  · cases cut with
    | nowhere => exact h
    | before => exact hbefore
    | after => exact hafter

theorem Surely.write_bind {f : δ → δ} {g : Unit → Call (Cuttable δ) β} (hbefore : lost d) (hafter : lost (f d))
    (hrest : Surely (g ()) (f d) after lost) : Surely (Interruption.write f >>= g) d after lost := by
  have hwrite : Surely (Interruption.write f) d (fun _ d' => d' = f d) lost := Surely.write hbefore hafter rfl
  apply Surely.bind hwrite
  rintro _ _ rfl
  exact hrest

theorem Surely.mayRaise {post : Unit → δ → Prop} (hlost : lost d) (h : post () d) : Surely mayRaise d post lost :=
  Surely.write hlost hlost h

theorem Surely.imp {post' : α → δ → Prop} {c : Call (Cuttable δ) α} (h : Surely c d post lost)
    (hpost : ∀ a d', post a d' → post' a d') : Surely c d post' lost :=
  fun cuts => wp_imp (h cuts) fun a s => hpost a s.site

theorem Surely.mono {post' : α → δ → Prop} {lost' : δ → Prop} {c : Call (Cuttable δ) α} (h : Surely c d post lost)
    (hpost : ∀ a d', post a d' → post' a d') (hlost : ∀ d', lost d' → lost' d') : Surely c d post' lost' :=
  fun cuts => wp_mono (h cuts) (fun a s => hpost a s.site) fun s => hlost s.site

def Reads (c : Call (Cuttable δ) α) (d : δ) (facts : α → Prop) : Prop :=
  Surely c d (fun a d' => d' = d ∧ facts a) (· = d)

theorem Reads.bind {c : Call (Cuttable δ) α} {f : α → Call (Cuttable δ) β} {facts : α → Prop} (h : Reads c d facts)
    (hlost : lost d) (hf : ∀ a, facts a → Surely (f a) d after lost) : Surely (c >>= f) d after lost := by
  have hread : Surely c d (fun a d' => d' = d ∧ facts a) lost := by
    apply Surely.mono h
    · exact fun _ _ hpost => hpost
    · rintro _ rfl
      exact hlost
  apply Surely.bind hread
  rintro a _ ⟨rfl, hfacts⟩
  exact hf a hfacts

theorem Reads.then {c : Call (Cuttable δ) α} {f : α → Call (Cuttable δ) β} {facts : α → Prop} {facts' : β → Prop}
    (h : Reads c d facts) (hf : ∀ a, facts a → Reads (f a) d facts') : Reads (c >>= f) d facts' :=
  h.bind rfl hf

theorem Reads.imp {c : Call (Cuttable δ) α} {facts facts' : α → Prop} (h : Reads c d facts)
    (hfacts : ∀ a, facts a → facts' a) : Reads c d facts' :=
  Surely.imp h fun a _ hpost => ⟨hpost.1, hfacts a hpost.2⟩

theorem Reads.pure {a : α} {facts : α → Prop} (h : facts a) : Reads (Pure.pure a) d facts := Surely.pure ⟨rfl, h⟩

theorem Reads.check (p : Prop) [Decidable p] : Reads (Calls.check p) d (fun _ => p) :=
  Surely.check (fun h => ⟨rfl, h⟩) fun _ => rfl

theorem Reads.found (o : Option α) : Reads (Calls.found o) d (o = some ·) :=
  Surely.found (fun _ h => ⟨rfl, h⟩) fun _ => rfl

theorem Reads.look : Reads Interruption.look d (d = ·) := Surely.look ⟨rfl, rfl⟩

theorem Reads.mayRaise : Reads Interruption.mayRaise d (fun _ => True) := Surely.mayRaise rfl ⟨rfl, trivial⟩

theorem Surely.forM {γ : Type} {l : List γ} {f : γ → Call (Cuttable δ) Unit} (inv : δ → Prop) (found : γ → δ → Prop)
    (hd : inv d) (hround : ∀ a ∈ l, ∀ d', inv d' → Surely (f a) d' (fun _ d'' => inv d'' ∧
      found a d'' ∧ ∀ b ∈ l, found b d' → found b d'') lost) :
    Surely (l.forM f) d (fun _ d' => inv d' ∧ ∀ a ∈ l, found a d') lost := by
  have hgo : ∀ done rest, l = done ++ rest → ∀ d', inv d' → (∀ a ∈ done, found a d') →
      Surely (rest.forM f) d' (fun _ d'' => inv d'' ∧ ∀ a ∈ l, found a d'') lost := by
    intro done rest
    induction rest generalizing done with
    | nil =>
        intro hsplit d' hinv hdone
        apply Surely.pure
        refine ⟨hinv, ?_⟩
        rw [hsplit, List.append_nil]
        exact hdone
    | cons a rest ih =>
        intro hsplit d' hinv hdone
        change Surely (f a >>= fun _ => rest.forM f) d' _ _
        apply Surely.bind (hround a (by simp [hsplit]) d' hinv)
        rintro _ d'' ⟨hinv', ha, hkept⟩
        apply ih (done ++ [a]) (by simp [hsplit]) d'' hinv'
        intro b hb
        rcases List.mem_append.mp hb with hb | hb
        · exact hkept b (by simp [hsplit, hb]) (hdone b hb)
        · rw [List.mem_singleton.mp hb]
          exact ha
  exact hgo [] l rfl d hd (by simp)

theorem Surely.site {p : δ → Prop} {c : Call (Cuttable δ) α} (h : Surely c d (fun _ => p) p) (cuts : List Cut) :
    p (siteAfter c cuts d) := wp_state (h cuts : wp c (fun _ s => p (Cuttable.site s)) (fun s => p s.site) ⟨d, cuts⟩)

end Rules

section Uncut

variable {d d' d'' : δ}

def Ends (c : Call (Cuttable δ) α) (d : δ) (a : α) (d' : δ) : Prop := c ⟨d, []⟩ = (some a, ⟨d', []⟩)

theorem Ends.pure (a : α) : Ends (Pure.pure a) d a d := rfl

theorem Ends.bind {c : Call (Cuttable δ) α} {f : α → Call (Cuttable δ) β} {a : α} {b : β} (h : Ends c d a d')
    (hf : Ends (f a) d' b d'') : Ends (c >>= f) d b d'' := (bind_run h).trans hf

theorem Ends.check {p : Prop} [Decidable p] (h : p) : Ends (Calls.check p) d () d := check_run h

theorem Ends.found {o : Option α} {a : α} (h : o = some a) : Ends (Calls.found o) d a d := found_run h

theorem Ends.look : Ends Interruption.look d d d := rfl

theorem Ends.mayRaise : Ends Interruption.mayRaise d () d := rfl

theorem Ends.write (f : δ → δ) : Ends (Interruption.write f) d () (f d) := rfl

theorem Ends.forM {γ : Type} {l : List γ} {f : γ → Call (Cuttable δ) Unit} (h : ∀ a ∈ l, Ends (f a) d () d) :
    Ends (l.forM f) d () d := forM_run h

end Uncut

end EtranProcessing.Library.Interruption
