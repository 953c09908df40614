import Mathlib

namespace EtranProcessing.Library.Json

/-- A document as it is written: strings without their quotes, keys likewise. -/
inductive Value
  | word (w : List Char)
  | number (raw : List Char)
  | string (raw : List Char)
  | array (items : List Value)
  | object (members : List (List Char × Value))

def space (c : Char) : Bool := c == ' ' || c == '\t' || c == '\r' || c == '\n'

def skip (s : List Char) : List Char := s.dropWhile space

def digit (c : Char) : Bool := '0' ≤ c && c ≤ '9'

def hex (c : Char) : Option Nat :=
  if digit c then some (c.toNat - 48)
  else if 'a' ≤ c ∧ c ≤ 'f' then some (c.toNat - 87)
  else if 'A' ≤ c ∧ c ≤ 'F' then some (c.toNat - 55)
  else none

/-- What stands for a character after a backslash. -/
def short (c : Char) : Option Char :=
  if c = '"' ∨ c = '\\' ∨ c = '/' then some c
  else if c = 'b' then some '\x08'
  else if c = 'f' then some '\x0c'
  else if c = 'n' then some '\n'
  else if c = 'r' then some '\r'
  else if c = 't' then some '\t'
  else none

/-- A string up to its closing quote, and what follows it. -/
def quoted : List Char → Option (List Char × List Char)
  | [] => none
  | c :: s =>
      if c = '"' then some ([], s)
      else if c.toNat < 32 then none
      else if c = '\\' then
        match s with
        | [] => none
        | e :: s =>
            if e = 'u' then
              match s with
              | h₁ :: h₂ :: h₃ :: h₄ :: s =>
                  if (hex h₁).isSome ∧ (hex h₂).isSome ∧ (hex h₃).isSome ∧ (hex h₄).isSome then
                    (quoted s).map fun p => (c :: e :: h₁ :: h₂ :: h₃ :: h₄ :: p.1, p.2)
                  else none
              | _ => none
            else if (short e).isSome then (quoted s).map fun p => (c :: e :: p.1, p.2)
            else none
      else (quoted s).map fun p => (c :: p.1, p.2)

def whole : List Char → Option (List Char × List Char)
  | [] => none
  | c :: s =>
      if c = '0' then some ([c], s)
      else if digit c then some ((c :: s).takeWhile digit, (c :: s).dropWhile digit)
      else none

def digits (s : List Char) : Option (List Char × List Char) :=
  if s.takeWhile digit = [] then none else some (s.takeWhile digit, s.dropWhile digit)

def fraction : List Char → Option (List Char × List Char)
  | '.' :: s => (digits s).map fun p => ('.' :: p.1, p.2)
  | s => some ([], s)

def exponent : List Char → Option (List Char × List Char)
  | [] => some ([], [])
  | e :: s =>
      if e = 'e' ∨ e = 'E' then
        match s with
        | [] => none
        | c :: t =>
            if c = '+' ∨ c = '-' then (digits t).map fun p => (e :: c :: p.1, p.2)
            else (digits s).map fun p => (e :: p.1, p.2)
      else some ([], e :: s)

def minus : List Char → List Char × List Char
  | '-' :: s => (['-'], s)
  | s => ([], s)

def number (s : List Char) : Option (List Char × List Char) := do
  let (w, t) ← whole (minus s).2
  let (f, t) ← fraction t
  let (e, t) ← exponent t
  some ((minus s).1 ++ w ++ f ++ e, t)

def word : List (List Char) → List Char → Option (List Char × List Char)
  | [], _ => none
  | w :: words, s => if w <+: s then some (w, s.drop w.length) else word words s

def scalar (words : List (List Char)) (s : List Char) : Option (Value × List Char) :=
  match word words s with
  | some (w, rest) => some (.word w, rest)
  | none => (number s).map fun p => (.number p.1, p.2)

mutual

/-- One value at the start of a text, and what follows it. -/
def readValue (words : List (List Char)) : Nat → List Char → Option (Value × List Char)
  | 0, _ => none
  | fuel + 1, s =>
      match skip s with
      | '{' :: s =>
          match skip s with
          | '}' :: s => some (.object [], s)
          | s => (readMembers words fuel s).map fun p => (.object p.1, p.2)
      | '[' :: s =>
          match skip s with
          | ']' :: s => some (.array [], s)
          | s => (readItems words fuel s).map fun p => (.array p.1, p.2)
      | '"' :: s => (quoted s).map fun p => (.string p.1, p.2)
      | s => scalar words s

/-- What is left of an array, with its bracket. -/
def readItems (words : List (List Char)) : Nat → List Char → Option (List Value × List Char)
  | 0, _ => none
  | fuel + 1, s =>
      match readValue words fuel s with
      | none => none
      | some (v, s) =>
          match skip s with
          | ']' :: s => some ([v], s)
          | ',' :: s => (readItems words fuel s).map fun p => (v :: p.1, p.2)
          | _ => none

/-- What is left of an object, with its brace. -/
def readMembers (words : List (List Char)) : Nat → List Char → Option (List (List Char × Value) × List Char)
  | 0, _ => none
  | fuel + 1, s =>
      match skip s with
      | '"' :: s =>
          match quoted s with
          | none => none
          | some (k, s) =>
              match skip s with
              | ':' :: s =>
                  match readValue words fuel s with
                  | none => none
                  | some (v, s) =>
                      match skip s with
                      | '}' :: s => some ([(k, v)], s)
                      | ',' :: s => (readMembers words fuel s).map fun p => ((k, v) :: p.1, p.2)
                      | _ => none
              | _ => none
      | _ => none

end

/-! ### The reader by what it finds first -/

variable {words : List (List Char)} {n : Nat} {s r t : List Char}

theorem skip_skip (s : List Char) : skip (skip s) = skip s := by
  induction s with
  | nil => rfl
  | cons c s ih =>
      by_cases h : space c = true
      · simpa [skip, h] using ih
      · simp [skip, h]

example : readValue words 0 s = none := by simp only [readValue]

theorem readValue_empty_object (h : skip s = '{' :: r) (h' : skip r = '}' :: t) :
    readValue words (n + 1) s = some (.object [], t) := by
  simp [readValue, h, h']

theorem readValue_object (h : skip s = '{' :: r) (h' : ∀ t, skip r ≠ '}' :: t) :
    readValue words (n + 1) s = (readMembers words n (skip r)).map fun p => (.object p.1, p.2) := by
  simp [readValue, h]

theorem readValue_empty_array (h : skip s = '[' :: r) (h' : skip r = ']' :: t) :
    readValue words (n + 1) s = some (.array [], t) := by
  simp [readValue, h, h']

theorem readValue_array (h : skip s = '[' :: r) (h' : ∀ t, skip r ≠ ']' :: t) :
    readValue words (n + 1) s = (readItems words n (skip r)).map fun p => (.array p.1, p.2) := by
  simp [readValue, h]

theorem readValue_string (h : skip s = '"' :: r) :
    readValue words (n + 1) s = (quoted r).map fun p => (.string p.1, p.2) := by
  simp [readValue, h]

theorem readValue_scalar (h : ∀ r, skip s ≠ '{' :: r) (h' : ∀ r, skip s ≠ '[' :: r) (h'' : ∀ r, skip s ≠ '"' :: r) :
    readValue words (n + 1) s = scalar words (skip s) := by
  simp [readValue]

def document (words : List (List Char)) (s : List Char) : Option Value :=
  match readValue words (2 * s.length + 1) s with
  | some (v, rest) => if skip rest = [] then some v else none
  | none => none

mutual

def wordsOf : Value → List (List Char)
  | .word w => [w]
  | .array items => wordsOfItems items
  | .object members => wordsOfMembers members
  | _ => []

def wordsOfItems : List Value → List (List Char)
  | [] => []
  | v :: vs => wordsOf v ++ wordsOfItems vs

def wordsOfMembers : List (List Char × Value) → List (List Char)
  | [] => []
  | (_, v) :: ms => wordsOf v ++ wordsOfMembers ms

end

theorem wordsOf_member {ms : List (List Char × Value)} {m : List Char × Value} (h : m ∈ ms) :
    wordsOf m.2 ⊆ wordsOfMembers ms := by
  induction ms with
  | nil => cases h
  | cons u ms ih =>
      rcases List.mem_cons.mp h with rfl | h
      · exact List.subset_append_left _ _
      · exact List.subset_append_of_subset_right _ (ih h)

variable {v : Value} {raw : List Char}

theorem word_subset {s w rest : List Char} : ∀ {words : List (List Char)}, word words s = some (w, rest) → w ∈ words
  | [], h => by cases h
  | u :: words, h => by
      rw [word] at h
      split at h
      next => exact (Prod.mk.inj (Option.some.inj h)).1 ▸ List.mem_cons_self
      next => exact List.mem_cons_of_mem _ (word_subset h)

theorem scalar_words (h : scalar words s = some (v, r)) : wordsOf v ⊆ words := by
  unfold scalar at h
  split at h
  next w rest hw =>
    obtain ⟨rfl, -⟩ := Prod.mk.inj (Option.some.inj h)
    simpa [wordsOf] using word_subset hw
  next =>
    obtain ⟨p, -, e⟩ := Option.map_eq_some_iff.mp h
    obtain ⟨rfl, -⟩ := Prod.mk.inj e
    simp [wordsOf]

theorem read_words (fuel : Nat) :
    (∀ {s v r}, readValue words fuel s = some (v, r) → wordsOf v ⊆ words) ∧
    (∀ {s vs r}, readItems words fuel s = some (vs, r) → wordsOfItems vs ⊆ words) ∧
    (∀ {s ms r}, readMembers words fuel s = some (ms, r) → wordsOfMembers ms ⊆ words) := by
  induction fuel with
  | zero => exact ⟨fun h => by simp [readValue] at h, fun h => by simp [readItems] at h, fun h => by simp [readMembers] at h⟩
  | succ fuel ih =>
      obtain ⟨ihv, ihi, ihm⟩ := ih
      refine ⟨fun {s v r} h => ?_, fun {s vs r} h => ?_, fun {s ms r} h => ?_⟩
      · rw [readValue] at h
        split at h
        next =>
          split at h
          next => exact (Prod.mk.inj (Option.some.inj h)).1 ▸ List.nil_subset _
          next =>
            obtain ⟨p, hp, e⟩ := Option.map_eq_some_iff.mp h
            exact (Prod.mk.inj e).1 ▸ ihm hp
        next =>
          split at h
          next => exact (Prod.mk.inj (Option.some.inj h)).1 ▸ List.nil_subset _
          next =>
            obtain ⟨p, hp, e⟩ := Option.map_eq_some_iff.mp h
            exact (Prod.mk.inj e).1 ▸ ihi hp
        next =>
          obtain ⟨p, -, e⟩ := Option.map_eq_some_iff.mp h
          exact (Prod.mk.inj e).1 ▸ List.nil_subset _
        next => exact scalar_words h
      · rw [readItems] at h
        split at h
        next => cases h
        next v s hv =>
          split at h
          next =>
            obtain ⟨rfl, -⟩ := Prod.mk.inj (Option.some.inj h)
            simpa [wordsOfItems] using ihv hv
          next =>
            obtain ⟨p, hp, e⟩ := Option.map_eq_some_iff.mp h
            exact (Prod.mk.inj e).1 ▸ List.append_subset.mpr ⟨ihv hv, ihi hp⟩
          next => cases h
      · rw [readMembers] at h
        split at h
        next =>
          split at h
          next => cases h
          next =>
            split at h
            next =>
              split at h
              next => cases h
              next v s hv =>
                split at h
                next =>
                  obtain ⟨rfl, -⟩ := Prod.mk.inj (Option.some.inj h)
                  simpa [wordsOfMembers] using ihv hv
                next =>
                  obtain ⟨p, hp, e⟩ := Option.map_eq_some_iff.mp h
                  exact (Prod.mk.inj e).1 ▸ List.append_subset.mpr ⟨ihv hv, ihm hp⟩
                next => cases h
            next => cases h
        next => cases h

theorem document_words (h : document words s = some v) : wordsOf v ⊆ words := by
  unfold document at h
  split at h
  next u rest hread =>
    split at h
    next => exact Option.some.inj h ▸ (read_words _).1 hread
    next => cases h
  next => cases h

/-! ### Written documents -/

/-- Where a writer breaks lines, and what it puts after a colon. -/
structure Style where
  gap : Nat → List Char
  colon : List Char
  gap_space : ∀ n, ∀ c ∈ gap n, space c = true
  colon_space : ∀ c ∈ colon, space c = true

mutual

def write (st : Style) (level : Nat) : Value → List Char
  | .word w => w
  | .number raw => raw
  | .string raw => '"' :: raw ++ ['"']
  | .array items => '[' :: (if items.isEmpty then [']'] else st.gap (level + 1) ++ writeItems st level items)
  | .object members => '{' :: (if members.isEmpty then ['}'] else st.gap (level + 1) ++ writeMembers st level members)

def writeItems (st : Style) (level : Nat) : List Value → List Char
  | [] => st.gap level ++ [']']
  | v :: vs => write st (level + 1) v ++ (if vs.isEmpty then [] else ',' :: st.gap (level + 1)) ++ writeItems st level vs

def writeMembers (st : Style) (level : Nat) : List (List Char × Value) → List Char
  | [] => st.gap level ++ ['}']
  | (k, v) :: ms =>
      '"' :: k ++ '"' :: ':' :: st.colon ++ write st (level + 1) v ++
        (if ms.isEmpty then [] else ',' :: st.gap (level + 1)) ++ writeMembers st level ms

end

def Ends (rest : List Char) : Prop := ∀ c ∈ rest.head?, space c = true ∨ c = ',' ∨ c = ']' ∨ c = '}'

def lead (c : Char) : Bool := !space c && c != '{' && c != '}' && c != '[' && c != ']' && c != '"'

def Leaf (words : List (List Char)) (text : List Char) (v : Value) : Prop :=
  (∃ c s, text = c :: s ∧ lead c = true) ∧ ∀ rest, Ends rest → scalar words (text ++ rest) = some (v, rest)

def Quotable (raw : List Char) : Prop := ∀ rest, quoted (raw ++ '"' :: rest) = some (raw, rest)

mutual

def Regular (words : List (List Char)) : Value → Prop
  | .word w => Leaf words w (.word w)
  | .number raw => Leaf words raw (.number raw)
  | .string raw => Quotable raw
  | .array items => RegularItems words items
  | .object members => RegularMembers words members

def RegularItems (words : List (List Char)) : List Value → Prop
  | [] => True
  | v :: vs => Regular words v ∧ RegularItems words vs

def RegularMembers (words : List (List Char)) : List (List Char × Value) → Prop
  | [] => True
  | (k, v) :: ms => Quotable k ∧ Regular words v ∧ RegularMembers words ms

end

mutual

def weight : Value → Nat
  | .array items => 1 + itemsWeight items
  | .object members => 1 + membersWeight members
  | _ => 1

def itemsWeight : List Value → Nat
  | [] => 0
  | v :: vs => 1 + weight v + itemsWeight vs

def membersWeight : List (List Char × Value) → Nat
  | [] => 0
  | (_, v) :: ms => 1 + weight v + membersWeight ms

end

theorem skip_blank {blank : List Char} (h : ∀ c ∈ blank, space c = true) (s : List Char) : skip (blank ++ s) = skip s := by
  induction blank with
  | nil => rfl
  | cons c blank ih =>
      have hc := h c List.mem_cons_self
      simpa [skip, hc] using ih fun d hd => h d (List.mem_cons_of_mem c hd)

theorem skip_cons {c : Char} (h : space c = false) (s : List Char) : skip (c :: s) = c :: s := by
  simp [skip, h]

theorem ends_blank {blank s : List Char} (h : ∀ c ∈ blank, space c = true) (hs : Ends s) : Ends (blank ++ s) := by
  cases blank with
  | nil => exact hs
  | cons c blank =>
      intro d hd
      obtain rfl : c = d := by simpa using hd
      exact .inl (h c List.mem_cons_self)

theorem readValue_skip (fuel : Nat) (s : List Char) : readValue words fuel (skip s) = readValue words fuel s := by
  cases fuel with
  | zero => simp [readValue]
  | succ fuel => rw [readValue, readValue, skip_skip]

theorem readItems_skip (fuel : Nat) (s : List Char) : readItems words fuel (skip s) = readItems words fuel s := by
  cases fuel with
  | zero => simp [readItems]
  | succ fuel => rw [readItems, readItems, readValue_skip]

theorem readMembers_skip (fuel : Nat) (s : List Char) : readMembers words fuel (skip s) = readMembers words fuel s := by
  cases fuel with
  | zero => simp [readMembers]
  | succ fuel => rw [readMembers, readMembers, skip_skip]

theorem write_head (st : Style) (level : Nat) (h : Regular words v) :
    ∃ c s, write st level v = c :: s ∧ space c = false ∧ c ≠ ']' ∧ c ≠ '}' := by
  cases v with
  | word w | number raw =>
      obtain ⟨⟨c, s, hw, hlead⟩, -⟩ := h
      simp only [lead, Bool.and_eq_true, Bool.not_eq_true', bne_iff_ne] at hlead
      exact ⟨c, s, by rw [write, hw], by tauto, by tauto, by tauto⟩
  | string raw => exact ⟨'"', raw ++ ['"'], by rw [write, List.cons_append], by decide⟩
  | array items => exact ⟨'[', _, by rw [write], by decide⟩
  | object members => exact ⟨'{', _, by rw [write], by decide⟩

theorem ends_close {c : Char} (h : c = ',' ∨ c = ']' ∨ c = '}') (s : List Char) : Ends (c :: s) := by
  intro d hd
  obtain rfl : c = d := by simpa using hd
  exact .inr h

theorem readValue_leaf {text : List Char} (h : Leaf words text v) {n : Nat} (hn : 1 ≤ n) {rest : List Char}
    (hr : Ends rest) : readValue words n (text ++ rest) = some (v, rest) := by
  obtain ⟨⟨c, s, rfl, hlead⟩, hread⟩ := h
  simp only [lead, Bool.and_eq_true, Bool.not_eq_true', bne_iff_ne] at hlead
  have hskip : skip (c :: s ++ rest) = c :: s ++ rest := skip_cons (by tauto) _
  have hne : ∀ {d r}, c ≠ d → skip (c :: s ++ rest) ≠ d :: r := by
    intro d r hcd e
    rw [hskip] at e
    exact hcd (List.cons.inj e).1
  obtain ⟨m, rfl⟩ : ∃ m, n = m + 1 := ⟨n - 1, by omega⟩
  rw [readValue_scalar (fun r => hne (by tauto)) (fun r => hne (by tauto)) (fun r => hne (by tauto)), hskip]
  exact hread rest hr

mutual

theorem read_write (st : Style) : ∀ (v : Value) {l n : Nat} {r : List Char}, Regular words v → weight v ≤ n →
    Ends r → readValue words n (write st l v ++ r) = some (v, r)
  | .word w, level, n, rest, hv, hn, hr => by
      rw [write]
      exact readValue_leaf hv hn hr
  | .number raw, level, n, rest, hv, hn, hr => by
      rw [write]
      exact readValue_leaf hv hn hr
  | .string raw, level, n, rest, hv, hn, hr => by
      obtain ⟨m, rfl⟩ : ∃ m, n = m + 1 := ⟨n - 1, by simp only [weight] at hn; omega⟩
      have hraw := hv rest
      rw [write, readValue_string (r := raw ++ '"' :: rest) (by simp [skip_cons, space]), hraw]
      rfl
  | .array [], level, n, rest, hv, hn, hr => by
      obtain ⟨m, rfl⟩ : ∃ m, n = m + 1 := ⟨n - 1, by simp only [weight] at hn; omega⟩
      exact readValue_empty_array (r := ']' :: rest) rfl rfl
  | .array (v :: vs), level, n, rest, hv, hn, hr => by
      obtain ⟨m, rfl⟩ : ∃ m, n = m + 1 := ⟨n - 1, by simp only [weight] at hn; omega⟩
      have hitems := read_writeItems st (v :: vs) (l := level) (n := m) (r := rest) hv
        (by simp only [weight] at hn; omega) (by simp)
      have htext : write st level (.array (v :: vs)) ++ rest =
          '[' :: (st.gap (level + 1) ++ (writeItems st level (v :: vs) ++ rest)) := by
        simp [write]
      obtain ⟨c, s, hhead, hspace, hclose, -⟩ := write_head st (level + 1) hv.1
      have hskip : skip (st.gap (level + 1) ++ (writeItems st level (v :: vs) ++ rest)) =
          writeItems st level (v :: vs) ++ rest := by
        rw [skip_blank (st.gap_space _), writeItems, hhead]
        exact skip_cons hspace _
      rw [htext, readValue_array (skip_cons (by decide) _), hskip, hitems]
      · rfl
      · intro t ht
        rw [hskip, writeItems, hhead] at ht
        exact hclose (List.cons.inj ht).1
  | .object [], level, n, rest, hv, hn, hr => by
      obtain ⟨m, rfl⟩ : ∃ m, n = m + 1 := ⟨n - 1, by simp only [weight] at hn; omega⟩
      exact readValue_empty_object (r := '}' :: rest) rfl rfl
  | .object (m :: ms), level, n, rest, hv, hn, hr => by
      obtain ⟨n, rfl⟩ : ∃ k, n = k + 1 := ⟨n - 1, by simp only [weight] at hn; omega⟩
      have hmembers := read_writeMembers st (m :: ms) (l := level) (n := n) (r := rest) hv
        (by simp only [weight] at hn; omega) (by simp)
      have htext : write st level (.object (m :: ms)) ++ rest =
          '{' :: (st.gap (level + 1) ++ (writeMembers st level (m :: ms) ++ rest)) := by
        simp [write]
      have hskip : skip (st.gap (level + 1) ++ (writeMembers st level (m :: ms) ++ rest)) =
          writeMembers st level (m :: ms) ++ rest := by
        rw [skip_blank (st.gap_space _), writeMembers]
        exact skip_cons (by decide) _
      rw [htext, readValue_object (skip_cons (by decide) _), hskip, hmembers]
      · rfl
      · intro t ht
        rw [hskip, writeMembers] at ht
        exact absurd (List.cons.inj ht).1 (by decide)

theorem read_writeItems (st : Style) : ∀ (vs : List Value) {l n : Nat} {r : List Char}, RegularItems words vs →
    itemsWeight vs ≤ n → vs ≠ [] → readItems words n (writeItems st l vs ++ r) = some (vs, r)
  | [], level, n, rest, hvs, hn, hne => absurd rfl hne
  | [v], level, n, rest, hvs, hn, hne => by
      obtain ⟨m, rfl⟩ : ∃ m, n = m + 1 := ⟨n - 1, by simp only [itemsWeight] at hn; omega⟩
      have hend : Ends (st.gap level ++ ']' :: rest) := ends_blank (st.gap_space _) (ends_close (by simp) _)
      have hv := read_write st v (l := level + 1) (n := m) hvs.1 (by simp only [itemsWeight] at hn; omega) hend
      have htext : writeItems st level [v] ++ rest = write st (level + 1) v ++ (st.gap level ++ ']' :: rest) := by
        simp [writeItems]
      rw [htext, readItems, hv]
      simp [skip_blank (st.gap_space _), skip_cons, space]
  | v :: u :: vs, level, n, rest, hvs, hn, hne => by
      obtain ⟨m, rfl⟩ : ∃ m, n = m + 1 := ⟨n - 1, by simp only [itemsWeight] at hn; omega⟩
      have hrest := read_writeItems st (u :: vs) (l := level) (n := m) (r := rest) hvs.2
        (by simp only [itemsWeight] at hn ⊢; omega) (by simp)
      have hend : Ends (',' :: (st.gap (level + 1) ++ (writeItems st level (u :: vs) ++ rest))) := ends_close (by simp) _
      have hv := read_write st v (l := level + 1) (n := m) hvs.1 (by simp only [itemsWeight] at hn; omega) hend
      have htext : writeItems st level (v :: u :: vs) ++ rest =
          write st (level + 1) v ++ ',' :: (st.gap (level + 1) ++ (writeItems st level (u :: vs) ++ rest)) := by
        simp [writeItems]
      rw [htext, readItems, hv]
      simp only [skip_cons (c := ',') (by decide)]
      rw [← readItems_skip, skip_blank (st.gap_space _), readItems_skip, hrest]
      rfl

theorem read_writeMembers (st : Style) : ∀ (ms : List (List Char × Value)) {l n : Nat} {r : List Char},
    RegularMembers words ms → membersWeight ms ≤ n → ms ≠ [] →
    readMembers words n (writeMembers st l ms ++ r) = some (ms, r)
  | [], level, n, rest, hms, hn, hne => absurd rfl hne
  | [(k, v)], level, n, rest, hms, hn, hne => by
      obtain ⟨n, rfl⟩ : ∃ m, n = m + 1 := ⟨n - 1, by simp only [membersWeight] at hn; omega⟩
      have hend : Ends (st.gap level ++ '}' :: rest) := ends_blank (st.gap_space _) (ends_close (by simp) _)
      have hv := read_write st v (l := level + 1) (n := n) hms.2.1 (by simp only [membersWeight] at hn; omega) hend
      have htext : writeMembers st level [(k, v)] ++ rest =
          '"' :: (k ++ '"' :: ':' :: (st.colon ++ (write st (level + 1) v ++ (st.gap level ++ '}' :: rest)))) := by
        simp [writeMembers]
      rw [htext, readMembers]
      simp only [skip_cons (c := '"') (by decide), skip_cons (c := ':') (by decide), hms.1 _]
      rw [← readValue_skip, skip_blank st.colon_space, readValue_skip, hv]
      simp [skip_blank (st.gap_space _), skip_cons, space]
  | (k, v) :: m :: ms, level, n, rest, hms, hn, hne => by
      obtain ⟨n, rfl⟩ : ∃ k, n = k + 1 := ⟨n - 1, by simp only [membersWeight] at hn; omega⟩
      have hrest := read_writeMembers st (m :: ms) (l := level) (n := n) (r := rest) hms.2.2
        (by simp only [membersWeight] at hn ⊢; omega) (by simp)
      have hend : Ends (',' :: (st.gap (level + 1) ++ (writeMembers st level (m :: ms) ++ rest))) :=
        ends_close (by simp) _
      have hv := read_write st v (l := level + 1) (n := n) hms.2.1 (by simp only [membersWeight] at hn; omega) hend
      have htext : writeMembers st level ((k, v) :: m :: ms) ++ rest = '"' :: (k ++ '"' :: ':' :: (st.colon ++
          (write st (level + 1) v ++ ',' :: (st.gap (level + 1) ++ (writeMembers st level (m :: ms) ++ rest))))) := by
        simp [writeMembers]
      rw [htext, readMembers]
      simp only [skip_cons (c := '"') (by decide), skip_cons (c := ':') (by decide), hms.1 _]
      rw [← readValue_skip, skip_blank st.colon_space, readValue_skip, hv]
      simp only [skip_cons (c := ',') (by decide)]
      rw [← readMembers_skip, skip_blank (st.gap_space _), readMembers_skip, hrest]
      rfl

end

mutual

theorem weight_lt (st : Style) : ∀ (v : Value) {l : Nat}, Regular words v → weight v < 2 * (write st l v).length
  | .word w, _, hv => by
      obtain ⟨⟨c, s, hw, -⟩, -⟩ := hv
      simp only [weight, write, hw, List.length_cons]
      omega
  | .number raw, _, hv => by
      obtain ⟨⟨c, s, hw, -⟩, -⟩ := hv
      simp only [weight, write, hw, List.length_cons]
      omega
  | .string raw, _, _ => by
      simp only [weight, write, List.length_append, List.length_cons]
      omega
  | .array vs, level, hv => by
      have hitems := itemsWeight_le st vs (l := level) hv
      simp only [weight, write, List.length_cons]
      split
      next h => simp_all [itemsWeight]
      next => simp only [List.length_append]; omega
  | .object ms, level, hv => by
      have hmembers := membersWeight_le st ms (l := level) hv
      simp only [weight, write, List.length_cons]
      split
      next h => simp_all [membersWeight]
      next => simp only [List.length_append]; omega

theorem itemsWeight_le (st : Style) : ∀ (vs : List Value) {l : Nat}, RegularItems words vs →
    itemsWeight vs ≤ 2 * (writeItems st l vs).length
  | [], _, _ => by simp [itemsWeight]
  | v :: vs, level, hvs => by
      have hv := weight_lt st v (l := level + 1) hvs.1
      have hrest := itemsWeight_le st vs (l := level) hvs.2
      simp only [itemsWeight, writeItems, List.length_append]
      omega

theorem membersWeight_le (st : Style) : ∀ (ms : List (List Char × Value)) {l : Nat}, RegularMembers words ms →
    membersWeight ms ≤ 2 * (writeMembers st l ms).length
  | [], _, _ => by simp [membersWeight]
  | (k, v) :: ms, level, hms => by
      have hv := weight_lt st v (l := level + 1) hms.2.1
      have hrest := membersWeight_le st ms (l := level) hms.2.2
      simp only [membersWeight, writeMembers, List.length_append, List.length_cons]
      omega

end

theorem document_write (st : Style) (h : Regular words v) (level : Nat) {blank : List Char}
    (hb : ∀ c ∈ blank, space c = true) : document words (write st level v ++ blank) = some v := by
  have hweight := weight_lt st v (l := level) h
  have hread := read_write st v (l := level) (n := 2 * (write st level v ++ blank).length + 1) (r := blank) h
    (by simp only [List.length_append]; omega) (fun c hc => .inl (hb c (List.mem_of_mem_head? hc)))
  have hend : skip blank = [] := by
    rw [← List.append_nil blank, skip_blank hb]
    rfl
  rw [document, hread]
  simp [hend]

/-! ### Decimal numbers and plain strings -/

theorem digits_repr (n : Nat) : ∀ c ∈ Nat.toDigits 10 n, digit c = true := by
  intro c hc
  have hdigit := Nat.isDigit_of_mem_toDigits (by omega) (by omega) hc
  exact hdigit

theorem takeWhile_digits {ds rest : List Char} (h : ∀ c ∈ ds, digit c = true) (hr : ∀ c ∈ rest.head?, digit c = false) :
    (ds ++ rest).takeWhile digit = ds ∧ (ds ++ rest).dropWhile digit = rest := by
  induction ds with
  | nil =>
      cases rest with
      | nil => simp
      | cons c rest =>
          have hc := hr c rfl
          simp [hc]
  | cons d ds ih =>
      have hd := h d List.mem_cons_self
      simpa [hd] using ih fun c hc => h c (List.mem_cons_of_mem d hc)

theorem repr_head (n : Nat) : ∃ c s, Nat.toDigits 10 n = c :: s ∧ digit c = true ∧ (c = '0' → n = 0) := by
  induction n using Nat.base_induction 10 (by omega) with
  | single m hm =>
      refine ⟨m.digitChar, [], Nat.toDigits_of_lt_base hm, digits_repr m _ (by simp [Nat.toDigits_of_lt_base hm]), ?_⟩
      intro h
      simpa using h
  | digit m k hk hm ih =>
      obtain ⟨c, s, hs, hc, hzero⟩ := ih
      refine ⟨c, s ++ Nat.toDigits 10 k, ?_, hc, fun h => absurd (hzero h) (by omega)⟩
      rw [← Nat.toDigits_append_toDigits (by omega) hm hk, hs]
      rfl

theorem number_repr (n : Nat) {rest : List Char} (hr : Ends rest) :
    number (Nat.toDigits 10 n ++ rest) = some (Nat.toDigits 10 n, rest) := by
  obtain ⟨c, s, hs, hc, hzero⟩ := repr_head n
  have hrest : ∀ c ∈ rest.head?, digit c = false ∧ c ≠ '.' ∧ c ≠ 'e' ∧ c ≠ 'E' := by
    intro c hc
    rcases hr c hc with h | rfl | rfl | rfl
    · simp only [space, Bool.or_eq_true, beq_iff_eq] at h
      rcases h with ((rfl | rfl) | rfl) | rfl <;> decide
    all_goals decide
  obtain ⟨htake, hdrop⟩ := takeWhile_digits (digits_repr n) fun c hc => (hrest c hc).1
  have hminus : minus (Nat.toDigits 10 n ++ rest) = ([], Nat.toDigits 10 n ++ rest) := by
    rw [hs, List.cons_append]
    unfold minus
    split
    next e =>
      obtain rfl : c = '-' := (List.cons.inj e).1
      exact absurd hc (by decide)
    next => rfl
  have hwhole : whole (Nat.toDigits 10 n ++ rest) = some (Nat.toDigits 10 n, rest) := by
    by_cases h0 : c = '0'
    · obtain rfl := hzero h0
      rfl
    · rw [hs, List.cons_append, whole, if_neg h0, if_pos hc, ← List.cons_append, ← hs, htake, hdrop]
  have hfraction : fraction rest = some ([], rest) := by
    unfold fraction
    split
    next => exact absurd rfl (hrest '.' rfl).2.1
    next => rfl
  have hexponent : exponent rest = some ([], rest) := by
    cases rest with
    | nil => rfl
    | cons d rest =>
        have hd := hrest d rfl
        rw [exponent.eq_def]
        simp [hd.2.2]
  simp [number, hminus, hwhole, hfraction, hexponent]

theorem leaf_repr (hw : ∀ w ∈ words, ∃ c s, w = c :: s ∧ digit c = false) (n : Nat) :
    Leaf words (Nat.toDigits 10 n) (.number (Nat.toDigits 10 n)) := by
  obtain ⟨c, s, hs, hc, -⟩ := repr_head n
  constructor
  · refine ⟨c, s, hs, ?_⟩
    have hne : ∀ d : Char, digit d = false → c ≠ d := fun d hd e => by rw [e, hd] at hc; cases hc
    simp only [lead, space, Bool.and_eq_true, Bool.not_eq_true', Bool.or_eq_false_iff, bne_iff_ne, beq_eq_false_iff_ne]
    exact ⟨⟨⟨⟨⟨⟨⟨⟨hne _ rfl, hne _ rfl⟩, hne _ rfl⟩, hne _ rfl⟩, hne _ rfl⟩, hne _ rfl⟩, hne _ rfl⟩, hne _ rfl⟩, hne _ rfl⟩
  · intro rest hr
    have hnone : ∀ ws : List (List Char), (∀ w ∈ ws, ∃ c s, w = c :: s ∧ digit c = false) →
        word ws (Nat.toDigits 10 n ++ rest) = none := by
      intro ws
      induction ws with
      | nil => exact fun _ => rfl
      | cons w ws ih =>
          intro h
          obtain ⟨d, t, rfl, hd⟩ := h w List.mem_cons_self
          rw [word, if_neg, ih fun u hu => h u (List.mem_cons_of_mem _ hu)]
          rw [hs, List.cons_append, List.cons_prefix_cons]
          rintro ⟨rfl, -⟩
          rw [hd] at hc
          cases hc
    rw [scalar, hnone words hw, number_repr n hr]
    rfl

def clear (c : Char) : Bool := c != '"' && c != '\\' && 32 ≤ c.toNat

theorem quotable_nil : Quotable [] := fun rest => by
  rw [List.nil_append, quoted.eq_def]
  rfl

theorem quotable_clear {c : Char} (hc : clear c = true) (h : Quotable raw) : Quotable (c :: raw) := by
  intro rest
  simp only [clear, Bool.and_eq_true, bne_iff_ne, decide_eq_true_eq] at hc
  rw [List.cons_append, quoted.eq_def]
  simp only
  rw [if_neg hc.1.1, if_neg (by omega), if_neg hc.1.2, h rest]
  rfl

theorem quotable_unicode {h₁ h₂ h₃ h₄ : Char} (hh : (hex h₁).isSome ∧ (hex h₂).isSome ∧
    (hex h₃).isSome ∧ (hex h₄).isSome) (h : Quotable raw) : Quotable ('\\' :: 'u' :: h₁ :: h₂ :: h₃ :: h₄ :: raw) := by
  intro rest
  simp only [List.cons_append]
  rw [quoted.eq_def]
  simp [hh, h rest]

theorem quotable_all (h : ∀ c ∈ raw, clear c = true) : Quotable raw := by
  induction raw with
  | nil => exact quotable_nil
  | cons c raw ih => exact quotable_clear (h c List.mem_cons_self) (ih fun d hd => h d (List.mem_cons_of_mem c hd))

end EtranProcessing.Library.Json
