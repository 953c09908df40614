import EtranProcessing.Library.Buffers

namespace EtranProcessing.Library.RawMemory

open Buffers

variable {α β : Type}

/-- A computation on raw memory: it has a value, it refuses, or it does what has no meaning, such as a read outside its
    buffer or a difference below zero. -/
inductive Checked (α : Type) where
  | done (a : α)
  | refused
  | fault
  deriving DecidableEq

def Checked.bind : Checked α → (α → Checked β) → Checked β
  | .done a, f => f a
  | .refused, _ => .refused
  | .fault, _ => .fault

instance : Monad Checked where
  pure := .done
  bind := Checked.bind

def require (p : Prop) [Decidable p] : Checked Unit := if p then .done () else .refused

def found (o : Option α) : Checked α :=
  match o with
  | some a => .done a
  | none => .refused

def minus (a b : Nat) : Checked Nat := if b ≤ a then .done (a - b) else .fault

def readAt (buf : List α) (offset size : Nat) : Checked (List α) :=
  if offset + size ≤ buf.length then .done (slice buf offset size) else .fault

def Sound (x : Checked α) (post : α → Prop) : Prop :=
  match x with
  | .done a => post a
  | .refused => True
  | .fault => False

section Rules

variable {x : Checked α} {f : α → Checked β} {post : α → Prop} {after : β → Prop}

theorem Sound.ne_fault (h : Sound x post) : x ≠ .fault := by
  rintro rfl
  exact h

theorem Sound.mono {post' : α → Prop} (h : Sound x post) (hpost : ∀ a, post a → post' a) : Sound x post' := by
  cases x with
  | done a => exact hpost a h
  | refused => trivial
  | fault => exact h

theorem Sound.bind (h : Sound x post) (hf : ∀ a, post a → Sound (f a) after) : Sound (x >>= f) after := by
  cases x with
  | done a => exact hf a h
  | refused => trivial
  | fault => exact h

@[simp] theorem sound_bind : Sound (x >>= f) after ↔ Sound x (fun a => Sound (f a) after) := by
  cases x with
  | done a => rfl
  | refused => rfl
  | fault => rfl

@[simp] theorem sound_pure {a : α} : Sound (pure a) post ↔ post a := Iff.rfl

@[simp] theorem sound_done {a : α} : Sound (.done a) post ↔ post a := Iff.rfl

@[simp] theorem sound_refused : Sound (.refused : Checked α) post := trivial

@[simp] theorem sound_require {p : Prop} [Decidable p] {post : Unit → Prop} : Sound (require p) post ↔ (p → post ()) := by
  unfold require
  split
  · next h => simp [h]
  · next h => simp [h]

@[simp] theorem sound_found {o : Option α} : Sound (found o) post ↔ ∀ a, o = some a → post a := by
  cases o with
  | none => simp [found]
  | some a => simp [found]

@[simp] theorem sound_minus {a b : Nat} {post : Nat → Prop} : Sound (minus a b) post ↔ b ≤ a ∧ post (a - b) := by
  unfold minus
  split
  · next h => simp [h]
  · next h => simp [Sound, h]

@[simp] theorem sound_readAt {buf : List α} {offset size : Nat} {post : List α → Prop} :
    Sound (readAt buf offset size) post ↔ offset + size ≤ buf.length ∧ post (slice buf offset size) := by
  unfold readAt
  split
  · next h => simp [h]
  · next h => simp [Sound, h]

theorem sound_ite {p : Prop} [Decidable p] {y : Checked α} :
    Sound (if p then x else y) post ↔ (p → Sound x post) ∧ (¬ p → Sound y post) := by
  split
  · next h => simp [h]
  · next h => simp [h]

end Rules

section Values

@[simp] theorem bind_eq_done {x : Checked α} {f : α → Checked β} {b : β} :
    (x >>= f) = .done b ↔ ∃ a, x = .done a ∧ f a = .done b := by
  change Checked.bind x f = .done b ↔ _
  cases x with
  | done a | refused | fault => simp [Checked.bind]

@[simp] theorem pure_eq_done {a b : α} : (pure a : Checked α) = .done b ↔ a = b := by
  change Checked.done a = .done b ↔ _
  simp

@[simp] theorem require_eq_done {p : Prop} [Decidable p] {u : Unit} : require p = .done u ↔ p := by
  unfold require
  split
  · next h => simp [h]
  · next h => simp [h]

@[simp] theorem found_eq_done {o : Option α} {a : α} : found o = .done a ↔ o = some a := by
  cases o with
  | none => simp [found]
  | some b => simp [found]

@[simp] theorem minus_eq_done {a b n : Nat} : minus a b = .done n ↔ b ≤ a ∧ a - b = n := by
  unfold minus
  split
  · next h => simp [h]
  · next h => simp [h]

@[simp] theorem readAt_eq_done {buf part : List α} {offset size : Nat} :
    readAt buf offset size = .done part ↔ offset + size ≤ buf.length ∧ slice buf offset size = part := by
  unfold readAt
  split
  · next h => simp [h]
  · next h => simp [h]

end Values

end EtranProcessing.Library.RawMemory
