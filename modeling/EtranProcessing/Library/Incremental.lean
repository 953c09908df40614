import Mathlib

namespace EtranProcessing.Library.Incremental

/-! Parsers that take one token at a time from the front of a buffer and wait
when it does not hold a whole one. -/

/-- What a parser in some state finds at the front of its buffer. -/
inductive Parsed (σ α β : Type)
  | wait
  | reject
  | token (a : α) (s : σ) (rest : List β)

structure Outcome (σ α β : Type) where
  tokens : List α
  left : Option (σ × List β)

variable {σ α β : Type} (next : σ → List β → Parsed σ α β)

def Outcome.after (ts : List α) (o : Outcome σ α β) : Outcome σ α β := ⟨ts ++ o.tokens, o.left⟩

def drain : Nat → σ → List β → Outcome σ α β
  | 0, s, buf => ⟨[], some (s, buf)⟩
  | fuel + 1, s, buf =>
      match next s buf with
      | .wait => ⟨[], some (s, buf)⟩
      | .reject => ⟨[], none⟩
      | .token a s' rest => (drain fuel s' rest).after [a]

def parse (s : σ) (buf : List β) : Outcome σ α β := drain next buf.length s buf

def resume (o : Outcome σ α β) (more : List β) : Outcome σ α β :=
  match o.left with
  | none => o
  | some (s, buf) => (parse next s (buf ++ more)).after o.tokens

/-- A token takes something from the buffer, and what a parser decides on is
not changed by what comes later. -/
structure Prefixed : Prop where
  empty : ∀ s, next s [] = .wait
  shrinks : ∀ {s buf a s' rest}, next s buf = .token a s' rest → rest.length < buf.length
  token : ∀ {s buf a s' rest} (more : List β), next s buf = .token a s' rest →
    next s (buf ++ more) = .token a s' (rest ++ more)
  reject : ∀ {s buf} (more : List β), next s buf = .reject → next s (buf ++ more) = .reject

variable {next}

example (s : σ) (buf : List β) : drain next 0 s buf = ⟨[], some (s, buf)⟩ := by simp only [drain]

theorem Outcome.after_after (ts us : List α) (o : Outcome σ α β) : (o.after us).after ts = o.after (ts ++ us) := by
  simp [Outcome.after]

theorem drain_nil (h : Prefixed next) (n : Nat) (s : σ) : drain next n s [] = ⟨[], some (s, [])⟩ := by
  cases n with
  | zero => rfl
  | succ n => simp only [drain, h.empty]

variable {buf : List β} {s : σ}

theorem drain_fuel (h : Prefixed next) {n m : Nat} (hn : buf.length ≤ n) (hm : buf.length ≤ m) :
    drain next n s buf = drain next m s buf := by
  induction n generalizing m s buf with
  | zero =>
      obtain rfl : buf = [] := List.length_eq_zero_iff.mp (Nat.le_zero.mp hn)
      rw [drain_nil h, drain_nil h]
  | succ n ih =>
      cases m with
      | zero =>
          obtain rfl : buf = [] := List.length_eq_zero_iff.mp (Nat.le_zero.mp hm)
          rw [drain_nil h, drain_nil h]
      | succ m =>
          simp only [drain]
          cases hnext : next s buf with
          | wait => rfl
          | reject => rfl
          | token a s' rest =>
              have hlt := h.shrinks hnext
              exact congrArg (Outcome.after [a]) (ih (by omega) (by omega))

theorem parse_wait (hw : next s buf = .wait) : parse next s buf = ⟨[], some (s, buf)⟩ := by
  simp only [parse]
  cases buf.length with
  | zero => rfl
  | succ n => simp only [drain, hw]

theorem length_pos_of_next (h : Prefixed next) (hw : next s buf ≠ .wait) : 0 < buf.length := by
  rw [List.length_pos_iff]
  rintro rfl
  exact hw (h.empty s)

theorem parse_reject (h : Prefixed next) (hr : next s buf = .reject) :
    parse next s buf = ⟨[], none⟩ := by
  have hpos : 0 < buf.length := length_pos_of_next h (s := s) (by simp [hr])
  obtain ⟨n, hn⟩ := Nat.exists_eq_add_of_lt hpos
  simp only [parse, hn, Nat.zero_add, drain, hr]

theorem parse_token (h : Prefixed next) {s s' : σ} {buf rest : List β} {a : α} (ht : next s buf = .token a s' rest) :
    parse next s buf = (parse next s' rest).after [a] := by
  have hpos : 0 < buf.length := length_pos_of_next h (s := s) (by simp [ht])
  obtain ⟨n, hn⟩ := Nat.exists_eq_add_of_lt hpos
  have hlt := h.shrinks ht
  simp only [parse, hn, Nat.zero_add, drain, ht]
  rw [drain_fuel h (by omega) (Nat.le_refl _)]

theorem parse_append (h : Prefixed next) (s : σ) (buf more : List β) :
    parse next s (buf ++ more) = resume next (parse next s buf) more := by
  induction hn : buf.length using Nat.strongRecOn generalizing s buf with
  | _ n ih =>
      cases hnext : next s buf with
      | wait =>
          rw [parse_wait hnext]
          rfl
      | reject =>
          rw [parse_reject h hnext, parse_reject h (h.reject more hnext)]
          rfl
      | token a s' rest =>
          have hlt := h.shrinks hnext
          rw [parse_token h hnext, parse_token h (h.token more hnext), ih rest.length (by omega) s' rest rfl]
          simp only [resume, Outcome.after]
          cases hleft : (parse next s' rest).left with
          | none => simp [hleft]
          | some rest => simp

theorem parse_left (h : Prefixed next) {s s' : σ} {buf rest : List β} (hl : (parse next s buf).left = some (s', rest)) :
    next s' rest = .wait := by
  induction hn : buf.length using Nat.strongRecOn generalizing s buf with
  | _ n ih =>
      cases hnext : next s buf with
      | wait =>
          rw [parse_wait hnext, Option.some.injEq, Prod.mk.injEq] at hl
          rw [← hl.1, ← hl.2]
          exact hnext
      | reject =>
          rw [parse_reject h hnext] at hl
          exact absurd hl (by simp)
      | token a s₁ rest₁ =>
          rw [parse_token h hnext] at hl
          exact ih rest₁.length (hn ▸ h.shrinks hnext) hl rfl

end EtranProcessing.Library.Incremental
