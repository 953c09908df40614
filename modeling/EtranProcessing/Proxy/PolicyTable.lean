import EtranProcessing.Proxy.PolicyJson

namespace EtranProcessing.Proxy.PolicyTable

open Library.Json PolicyJson

def words : List (List Char) := ["true".toList, "false".toList, "null".toList]

mutual

def size : Value → Nat
  | .array items => 1 + sizes items
  | .object members => 1 + memberSizes members
  | _ => 1

def sizes : List Value → Nat
  | [] => 0
  | v :: vs => size v + sizes vs

def memberSizes : List (List Char × Value) → Nat
  | [] => 0
  | (_, v) :: ms => 1 + size v + memberSizes ms

end

mutual

def height : Value → Nat
  | .array items => heights items
  | .object members => memberHeights members
  | _ => 0

def heights : List Value → Nat
  | [] => 0
  | v :: vs => max (1 + height v) (heights vs)

def memberHeights : List (List Char × Value) → Nat
  | [] => 0
  | (_, v) :: ms => max (1 + height v) (memberHeights ms)

end

mutual

def table : Nat → Value → Tokens
  | n, .word w => [⟨w.headD ' ', w, n + 1⟩]
  | n, .number raw => [⟨'0', raw, n + 1⟩]
  | n, .string raw => [⟨'"', raw, n + 1⟩]
  | n, .array items => ⟨'[', [], n + 1 + sizes items⟩ :: tables (n + 1) items
  | n, .object members => ⟨'{', [], n + 1 + memberSizes members⟩ :: memberTables (n + 1) members

def tables : Nat → List Value → Tokens
  | _, [] => []
  | n, v :: vs => table n v ++ tables (n + size v) vs

def memberTables : Nat → List (List Char × Value) → Tokens
  | _, [] => []
  | n, (k, v) :: ms => ⟨'"', k, n + 1⟩ :: table (n + 1) v ++ memberTables (n + 1 + size v) ms

end

mutual

theorem table_length (n : Nat) : ∀ v, (table n v).length = size v
  | .word _ => rfl
  | .number _ => rfl
  | .string _ => rfl
  | .array items => by simp [table, size, tables_length (n + 1) items, Nat.add_comm]
  | .object members => by simp [table, size, memberTables_length (n + 1) members, Nat.add_comm]

theorem tables_length (n : Nat) : ∀ vs, (tables n vs).length = sizes vs
  | [] => rfl
  | v :: vs => by simp [tables, sizes, table_length n v, tables_length (n + size v) vs]

theorem memberTables_length (n : Nat) : ∀ ms, (memberTables n ms).length = memberSizes ms
  | [] => rfl
  | (k, v) :: ms => by
      simp [memberTables, memberSizes, table_length (n + 1) v, memberTables_length (n + 1 + size v) ms]
      omega

end

attribute [simp] table_length tables_length memberTables_length

theorem size_pos (v : Value) : 0 < size v := by
  cases v <;> simp [size]

/-! ### The scanner builds the table of what a strict reader reads -/

def Fits (depth count height size : Nat) : Prop := depth + height ≤ maxDepth ∧ count + size ≤ maxTokens

instance : Decidable (Fits d c h s) := inferInstanceAs (Decidable (_ ∧ _))

theorem number_letter {c : Char} (s : List Char) (h : digit c = false) (h' : c ≠ '-') : number (c :: s) = none := by
  have hm : minus (c :: s) = ([], c :: s) := by
    unfold minus
    split
    · next e => exact absurd (List.cons.inj e).1 h'
    · rfl
  have h0 : c ≠ '0' := by
    intro e
    rw [e] at h
    exact absurd h (by decide)
  simp [number, hm, whole, h, h0]

theorem word_literal (c : Char) (s : List Char) :
    word words (c :: s) = (literal c).bind fun w =>
      if w <+: c :: s then some (w, (c :: s).drop w.length) else none := by
  have hwords : words = ['t' :: "rue".toList, 'f' :: "alse".toList, 'n' :: "ull".toList] := rfl
  have hliteral : literal c = if c = 't' then some ('t' :: "rue".toList) else if c = 'f' then some ('f' :: "alse".toList)
      else if c = 'n' then some ('n' :: "ull".toList) else none := rfl
  rw [hwords, hliteral]
  by_cases ht : c = 't'
  · subst ht
    simp [word, List.cons_prefix_cons]
  by_cases hf : c = 'f'
  · subst hf
    simp [word, List.cons_prefix_cons]
  by_cases hn : c = 'n'
  · subst hn
    simp [word, List.cons_prefix_cons]
  simp [word, List.cons_prefix_cons, ht, hf, hn, Ne.symm ht, Ne.symm hf, Ne.symm hn]

theorem digit_of_literal {c : Char} {w : List Char} (h : literal c = some w) :
    digit c = false ∧ c ≠ '-' ∧ w.head?.getD ' ' = c := by
  unfold literal at h
  split at h
  next e => exact e ▸ Option.some.inj h ▸ by decide
  next =>
    split at h
    next e => exact e ▸ Option.some.inj h ▸ by decide
    next =>
      split at h
      next e => exact e ▸ Option.some.inj h ▸ by decide
      next => cases h

theorem leaf_scalar (count : Nat) {s : List Char} (h : s ≠ []) :
    leaf count s = (scalar words s).map fun p => (table count p.1, p.2) := by
  cases s with
  | nil => exact absurd rfl h
  | cons c s =>
      rw [leaf, scalar, word_literal]
      cases hl : literal c with
      | none => simp [Function.comp_def, table]
      | some w =>
          obtain ⟨hdigit, hminus, hhead⟩ := digit_of_literal hl
          by_cases hp : w <+: c :: s
          · simp [hp, table, hhead]
          · simp [hp, number_letter s hdigit hminus]

variable {j : Tokens} {v : Value} {n : Nat} {ms : List (List Char × Value)} {key : String} {fuel : Nat}

theorem scalar_cases {words : List (List Char)} {s r : List Char} (h : scalar words s = some (v, r)) :
    height v = 0 ∧ size v = 1 := by
  unfold scalar at h
  split at h
  next =>
    obtain ⟨rfl, -⟩ := Prod.mk.inj (Option.some.inj h)
    exact ⟨rfl, rfl⟩
  next =>
    obtain ⟨p, -, e⟩ := Option.map_eq_some_iff.mp h
    obtain ⟨rfl, -⟩ := Prod.mk.inj e
    exact ⟨rfl, rfl⟩

def scanned (d c : Nat) (p : Value × List Char) : Option (Tokens × List Char) :=
  if Fits d c (height p.1) (size p.1) then some (table c p.1, p.2) else none

def scannedItems (d c : Nat) (p : List Value × List Char) : Option (Tokens × List Char) :=
  if Fits d c (heights p.1) (sizes p.1) then some (tables c p.1, p.2) else none

def scannedMembers (d c : Nat) (p : List (List Char × Value) × List Char) : Option (Tokens × List Char) :=
  if Fits d c (memberHeights p.1) (memberSizes p.1) then some (memberTables c p.1, p.2) else none

theorem scanned_some {d c : Nat} {rest : List Char} (h : Fits d c (height v) (size v)) :
    scanned d c (v, rest) = some (table c v, rest) := if_pos h

theorem scanned_none {d c : Nat} {rest : List Char} (h : ¬ Fits d c (height v) (size v)) :
    scanned d c (v, rest) = none := if_neg h

theorem entries_items (ihv : ∀ d c s, value fuel d c s = (readValue words fuel s).bind (scanned d c))
    (ihe : ∀ d c s, entries fuel d c s = (readItems words fuel s).bind (scannedItems d c)) (d c : Nat) (s : List Char) :
    entries (fuel + 1) d c s = (readItems words (fuel + 1) s).bind (scannedItems d c) := by
  rw [entries, readItems, ihv]
  cases readValue words fuel s with
  | none => rfl
  | some p =>
      obtain ⟨v, rest⟩ := p
      simp only [Option.bind_some, whitespace]
      by_cases hfit : Fits (d + 1) c (height v) (size v)
      · rw [scanned_some hfit]
        simp only [table_length, ihe]
        generalize skip rest = t
        split
        next s =>
          have hone : Fits d c (heights [v]) (sizes [v]) := by
            simp only [Fits, heights, sizes] at hfit ⊢
            omega
          simp [scannedItems, hone, tables]
        next s =>
          simp only [Option.bind_map]
          cases readItems words fuel s with
          | none => rfl
          | some p =>
              have hmore : Fits d (c + size v) (heights p.1) (sizes p.1) ↔
                  Fits d c (heights (v :: p.1)) (sizes (v :: p.1)) := by
                simp only [Fits, heights, sizes] at hfit ⊢
                omega
              by_cases h : Fits d (c + size v) (heights p.1) (sizes p.1)
              · simp [scannedItems, h, hmore.mp h, tables]
              · simp [scannedItems, h, hmore.not.mp h]
        next h h' => simp
      · rw [scanned_none hfit]
        change none = _
        have hfew : ∀ vs, ¬ Fits d c (heights (v :: vs)) (sizes (v :: vs)) := by
          intro vs h
          simp only [Fits, heights, sizes] at hfit h
          omega
        generalize skip rest = t
        split
        next s => simp [scannedItems, hfew]
        next s =>
          cases readItems words fuel s with
          | none => rfl
          | some p => simp [scannedItems, hfew]
        next => rfl

theorem member_read (ihv : ∀ d c s, value fuel d c s = (readValue words fuel s).bind (scanned d c))
    (ihp : ∀ d c s, pairs fuel d c s = (readMembers words fuel s).bind (scannedMembers d c)) (d c : Nat) (k s : List Char) :
    (match value fuel (d + 1) (c + 1) s with
      | none => none
      | some (item, s) =>
          match skip s with
          | '}' :: s => some ([Token.mk '"' k (c + 1)] ++ item, s)
          | ',' :: s =>
              (pairs fuel d (c + 1 + item.length) s).map fun p => ([Token.mk '"' k (c + 1)] ++ item ++ p.1, p.2)
          | _ => none : Option (Tokens × List Char)) =
      (match readValue words fuel s with
        | none => none
        | some (v, s) =>
            match skip s with
            | '}' :: s => some ([(k, v)], s)
            | ',' :: s => (readMembers words fuel s).map fun p => ((k, v) :: p.1, p.2)
            | _ => none : Option (List (List Char × Value) × List Char)).bind (scannedMembers d c) := by
  rw [ihv]
  cases readValue words fuel s with
  | none => rfl
  | some p =>
      obtain ⟨v, rest⟩ := p
      simp only [Option.bind_some]
      by_cases hfit : Fits (d + 1) (c + 1) (height v) (size v)
      · rw [scanned_some hfit]
        simp only [table_length, ihp]
        generalize skip rest = t
        split
        next s =>
          have hone : Fits d c (memberHeights [(k, v)]) (memberSizes [(k, v)]) := by
            simp only [Fits, memberHeights, memberSizes] at hfit ⊢
            omega
          simp [scannedMembers, hone, memberTables]
        next s =>
          simp only [Option.bind_map]
          cases readMembers words fuel s with
          | none => rfl
          | some p =>
              have hmore : Fits d (c + 1 + size v) (memberHeights p.1) (memberSizes p.1) ↔
                  Fits d c (memberHeights ((k, v) :: p.1)) (memberSizes ((k, v) :: p.1)) := by
                simp only [Fits, memberHeights, memberSizes] at hfit ⊢
                omega
              by_cases h : Fits d (c + 1 + size v) (memberHeights p.1) (memberSizes p.1)
              · simp [scannedMembers, h, hmore.mp h, memberTables]
              · simp [scannedMembers, h, hmore.not.mp h]
        next => simp
      · rw [scanned_none hfit]
        change none = _
        have hfew : ∀ ms, ¬ Fits d c (memberHeights ((k, v) :: ms)) (memberSizes ((k, v) :: ms)) := by
          intro ms h
          simp only [Fits, memberHeights, memberSizes] at hfit h
          omega
        generalize skip rest = t
        split
        next s => simp [scannedMembers, hfew]
        next s =>
          cases readMembers words fuel s with
          | none => rfl
          | some p => simp [scannedMembers, hfew]
        next => rfl

theorem scannedMembers_none {d c : Nat} (h : ¬ Fits (d + 1) c 0 1) (k : List Char) (v : Value)
    (ms : List (List Char × Value)) (rest : List Char) : scannedMembers d c ((k, v) :: ms, rest) = none := by
  refine if_neg fun h' => h ?_
  simp only [Fits, memberHeights, memberSizes] at h' ⊢
  omega

theorem pairs_members (ihv : ∀ d c s, value fuel d c s = (readValue words fuel s).bind (scanned d c))
    (ihp : ∀ d c s, pairs fuel d c s = (readMembers words fuel s).bind (scannedMembers d c)) (d c : Nat) (s : List Char) :
    pairs (fuel + 1) d c s = (readMembers words (fuel + 1) s).bind (scannedMembers d c) := by
  rw [pairs, readMembers]
  simp only [whitespace]
  generalize skip s = t
  split
  next s =>
    cases fuel with
    | zero =>
        simp only [value, readValue]
        cases quoted s with
        | none => rfl
        | some p =>
            obtain ⟨k, rest⟩ := p
            dsimp only
            generalize skip rest = t
            split <;> rfl
    | succ fuel =>
        rw [ihv, readValue_string (r := s) rfl]
        cases hq : quoted s with
        | none => simp [hq]
        | some p =>
            obtain ⟨k, rest⟩ := p
            simp only [hq, Option.map_some, Option.bind_some]
            by_cases hkey : Fits (d + 1) c 0 1
            · rw [scanned_some hkey]
              simp only [table]
              generalize skip rest = t
              split
              next s => exact member_read ihv ihp d c k s
              next => simp
            · rw [scanned_none hkey]
              change none = _
              refine Eq.symm (Option.bind_eq_none_iff.mpr fun q hq => ?_)
              split at hq
              next s =>
                split at hq
                next => cases hq
                next v s _ =>
                  split at hq
                  next => exact Option.some.inj hq ▸ scannedMembers_none hkey k v [] _
                  next =>
                    obtain ⟨p, -, rfl⟩ := Option.map_eq_some_iff.mp hq
                    exact scannedMembers_none hkey k v p.1 p.2
                  next => cases hq
              next => cases hq
  next => simp

theorem value_read (fuel : Nat) :
    (∀ d c s, value fuel d c s = (readValue words fuel s).bind (scanned d c)) ∧
    (∀ d c s, entries fuel d c s = (readItems words fuel s).bind (scannedItems d c)) ∧
    (∀ d c s, pairs fuel d c s = (readMembers words fuel s).bind (scannedMembers d c)) := by
  induction fuel with
  | zero =>
      exact ⟨fun _ _ _ => by simp [value, readValue], fun _ _ _ => by simp [entries, readItems],
        fun _ _ _ => by simp [pairs, readMembers]⟩
  | succ fuel ih =>
      obtain ⟨ihv, ihe, ihp⟩ := ih
      refine ⟨fun d c s => ?_, entries_items ihv ihe, pairs_members ihv ihp⟩
      rw [value]
      by_cases hstop : skip s = [] ∨ maxDepth < d ∨ maxTokens ≤ c
      · rw [if_pos hstop]
        rcases hstop with hs | hfull
        · simp [readValue, hs, scalar, word, words, number, minus, whole]
        · have hnot : ∀ p, scanned d c p = none := by
            intro p
            refine if_neg fun h => ?_
            have := size_pos p.1
            simp only [Fits] at h
            omega
          rw [Option.bind_congr (fun p _ => hnot p), Option.bind_fun_none]
      · rw [if_neg hstop]
        have hroom : d ≤ maxDepth ∧ c + 1 ≤ maxTokens := by omega
        split
        next s hs =>
          split
          next s h =>
            have hfit : Fits d c (height (.object [])) (size (.object [])) := hroom
            rw [readValue_empty_object hs h]
            simp [scanned, hfit, table, memberSizes, memberTables]
          next h =>
            rw [readValue_object hs h, ihp]
            cases readMembers words fuel (skip s) with
            | none => rfl
            | some p =>
                have hfit : Fits d c (height (.object p.1)) (size (.object p.1)) ↔
                    Fits d (c + 1) (memberHeights p.1) (memberSizes p.1) := by
                  simp only [Fits, height, size]
                  omega
                by_cases h : Fits d (c + 1) (memberHeights p.1) (memberSizes p.1)
                · simp [scanned, scannedMembers, hfit, h, table]
                · simp [scanned, scannedMembers, hfit, h]
        next s hs =>
          split
          next s h =>
            have hfit : Fits d c (height (.array [])) (size (.array [])) := hroom
            rw [readValue_empty_array hs h]
            simp [scanned, hfit, table, sizes, tables]
          next h =>
            rw [readValue_array hs h, ihe]
            cases readItems words fuel (skip s) with
            | none => rfl
            | some p =>
                have hfit : Fits d c (height (.array p.1)) (size (.array p.1)) ↔
                    Fits d (c + 1) (heights p.1) (sizes p.1) := by
                  simp only [Fits, height, size]
                  omega
                by_cases h : Fits d (c + 1) (heights p.1) (sizes p.1)
                · simp [scanned, scannedItems, hfit, h, table]
                · simp [scanned, scannedItems, hfit, h]
        next s hs =>
          rw [readValue_string hs]
          cases quoted s with
          | none => rfl
          | some p =>
              have hfit : Fits d c (height (.string p.1)) (size (.string p.1)) := hroom
              simp [scanned, hfit, table]
        next h₁ h₂ h₃ =>
          rw [readValue_scalar h₁ h₂ h₃, leaf_scalar c fun h => hstop (.inl h)]
          cases hv : scalar words (skip s) with
          | none => rfl
          | some p =>
              obtain ⟨hheight, hsize⟩ := scalar_cases (r := p.2) hv
              have hfit : Fits d c (height p.1) (size p.1) := by
                rw [hheight, hsize]
                exact hroom
              simp [scanned, hfit]

/-! ### Finding one's way in a table -/

def At (j : Tokens) (n : Nat) (v : Value) : Prop := ∃ before after, j = before ++ table n v ++ after ∧ before.length = n

def AtItems (j : Tokens) (n : Nat) (vs : List Value) : Prop :=
  ∃ before after, j = before ++ tables n vs ++ after ∧ before.length = n

def AtMembers (j : Tokens) (n : Nat) (ms : List (List Char × Value)) : Prop :=
  ∃ before after, j = before ++ memberTables n ms ++ after ∧ before.length = n

theorem at_root (v : Value) : At (table 0 v) 0 v := ⟨[], [], by simp, rfl⟩

def first (n : Nat) : Value → Token
  | .word w => ⟨w.headD ' ', w, n + 1⟩
  | .number raw => ⟨'0', raw, n + 1⟩
  | .string raw => ⟨'"', raw, n + 1⟩
  | .array items => ⟨'[', [], n + 1 + sizes items⟩
  | .object members => ⟨'{', [], n + 1 + memberSizes members⟩

theorem table_first (n : Nat) (v : Value) : ∃ below, table n v = first n v :: below := by
  cases v <;> exact ⟨_, rfl⟩

theorem first_next (n : Nat) (v : Value) : (first n v).next = n + size v := by
  cases v <;> simp [first, size] <;> omega

theorem At.token (h : At j n v) : j[n]? = some (first n v) := by
  obtain ⟨before, after, rfl, rfl⟩ := h
  obtain ⟨below, hbelow⟩ := table_first before.length v
  simp [hbelow]

theorem At.items {vs : List Value} (h : At j n (.array vs)) : AtItems j (n + 1) vs := by
  obtain ⟨before, after, rfl, rfl⟩ := h
  exact ⟨before ++ [first before.length (.array vs)], after, by simp [table, first], by simp⟩

theorem At.members (h : At j n (.object ms)) :
    AtMembers j (n + 1) ms := by
  obtain ⟨before, after, rfl, rfl⟩ := h
  exact ⟨before ++ [first before.length (.object ms)], after, by simp [table, first], by simp⟩

theorem AtItems.head {vs : List Value} (h : AtItems j n (v :: vs)) :
    At j n v ∧ AtItems j (n + size v) vs := by
  obtain ⟨before, after, rfl, rfl⟩ := h
  refine ⟨⟨before, tables (before.length + size v) vs ++ after, by simp [tables], rfl⟩,
    before ++ table before.length v, after, by simp [tables], by simp⟩

theorem AtMembers.head {k : List Char}
    (h : AtMembers j n ((k, v) :: ms)) :
    At j n (.string k) ∧ At j (n + 1) v ∧ AtMembers j (n + 1 + size v) ms := by
  obtain ⟨before, after, rfl, rfl⟩ := h
  refine ⟨⟨before, table (before.length + 1) v ++ memberTables (before.length + 1 + size v) ms ++ after,
      by simp [memberTables, table], rfl⟩,
    ⟨before ++ table before.length (.string k), memberTables (before.length + 1 + size v) ms ++ after,
      by simp [memberTables, table], by simp [table]⟩,
    before ++ table before.length (.string k) ++ table (before.length + 1) v, after,
      by simp [memberTables, table], by simp [size]; omega⟩

def keyPlaces : Nat → List (List Char × Value) → List Nat
  | _, [] => []
  | n, (_, v) :: ms => n :: keyPlaces (n + 1 + size v) ms

theorem chain_members {limit : Nat} (ms : List (List Char × Value)) : ∀ {n fuel : Nat}, AtMembers j n ms →
    limit = n + memberSizes ms → ms.length ≤ fuel → chain j 1 limit fuel n = keyPlaces n ms := by
  induction ms with
  | nil =>
      rintro n fuel - rfl -
      cases fuel with
      | zero => rfl
      | succ fuel => simp [chain, keyPlaces]
  | cons m ms ih =>
      obtain ⟨k, v⟩ := m
      rintro n fuel hat rfl hfuel
      obtain ⟨-, hv, hrest⟩ := hat.head
      cases fuel with
      | zero => simp at hfuel
      | succ fuel =>
          have hlt : n < n + memberSizes ((k, v) :: ms) := by
            simp only [memberSizes]
            omega
          rw [chain, if_pos hlt, hv.token]
          simp only [first_next, keyPlaces]
          rw [ih hrest (by simp only [memberSizes]; omega) (by simpa using hfuel)]

theorem length_le_memberSizes (ms : List (List Char × Value)) : ms.length ≤ memberSizes ms := by
  induction ms with
  | nil => simp
  | cons m ms ih =>
      simp only [List.length_cons, memberSizes]
      omega

theorem At.size_le (h : At j n v) : n + size v ≤ j.length := by
  obtain ⟨before, after, rfl, rfl⟩ := h
  simp

theorem At.keys (h : At j n (.object ms)) :
    keys j n (n + 1 + memberSizes ms) = keyPlaces (n + 1) ms := by
  have hsize := h.size_le
  have hlength := length_le_memberSizes ms
  simp only [size] at hsize
  exact chain_members ms h.members rfl (by omega)

def stringOf (size : Nat) : Value → Option (List Char)
  | .string raw => if size = 0 then none else unescape size 0 raw
  | _ => none

def boolOf : Value → Option Bool
  | .word w => if w = "true".toList then some true else if w = "false".toList then some false else none
  | _ => none

def uintOf : Value → Option Nat
  | .number raw => decimal raw
  | _ => none

theorem word_mem {w : List Char} (h : wordsOf (.word w) ⊆ words) :
    w = "true".toList ∨ w = "false".toList ∨ w = "null".toList := by
  simpa [words, wordsOf] using h

theorem At.string (h : At j n v) (hw : wordsOf v ⊆ words) (size : Nat) :
    string j (some n) size = stringOf size v := by
  simp only [PolicyJson.string, Option.bind_eq_bind, Option.bind_some, h.token]
  cases v with
  | word w => rcases word_mem hw with rfl | rfl | rfl <;> simp [first, stringOf]
  | string raw => simp [first, stringOf]
  | _ => simp [first, stringOf]

theorem At.bool (h : At j n v) (hw : wordsOf v ⊆ words) :
    bool j (some n) = boolOf v := by
  simp only [PolicyJson.bool, Option.bind_eq_bind, Option.bind_some, h.token]
  cases v with
  | word w => rcases word_mem hw with rfl | rfl | rfl <;> simp [first, boolOf]
  | _ => simp [first, boolOf]

theorem At.uint (h : At j n v) (hw : wordsOf v ⊆ words) :
    uint j (some n) = uintOf v := by
  simp only [PolicyJson.uint, Option.bind_eq_bind, Option.bind_some, h.token]
  cases v with
  | word w => rcases word_mem hw with rfl | rfl | rfl <;> simp [first, uintOf]
  | number raw => simp [first, uintOf]
  | _ => simp [first, uintOf]

def memberOf (ms : List (List Char × Value)) (key : String) : Option Value :=
  (ms.find? fun m => unescape 256 0 m.1 == some key.toList).map Prod.snd

def fieldOf (v : Value) (key : String) : Option Value :=
  match v with
  | .object ms => memberOf ms key
  | _ => none

theorem find_places (key : String) (ms : List (List Char × Value)) : ∀ {n : Nat}, AtMembers j n ms →
    match memberOf ms key with
    | none => (keyPlaces n ms).find? (fun a => string j (some a) 256 == some key.toList) = none
    | some v => ∃ a, (keyPlaces n ms).find? (fun a => string j (some a) 256 == some key.toList) = some a ∧ At j (a + 1) v := by
  induction ms with
  | nil => simp [memberOf, keyPlaces]
  | cons m ms ih =>
      obtain ⟨k, v⟩ := m
      intro n h
      obtain ⟨hk, hv, hrest⟩ := h.head
      have hkey : string j (some n) 256 = unescape 256 0 k := by
        rw [hk.string (by simp [wordsOf])]
        rfl
      by_cases hfound : (unescape 256 0 k == some key.toList) = true
      · simp only [memberOf, List.find?_cons, hfound, keyPlaces, hkey]
        exact ⟨n, rfl, hv⟩
      · have hmember : memberOf ((k, v) :: ms) key = memberOf ms key := by simp [memberOf, hfound]
        rw [hmember]
        simp only [keyPlaces, List.find?_cons, hkey, hfound]
        exact ih hrest

theorem At.field (h : At j n v) (hw : wordsOf v ⊆ words) (key : String) :
    match fieldOf v key with
    | none => field j (some n) key = none
    | some u => ∃ i, field j (some n) key = some i ∧ At j i u := by
  simp only [PolicyJson.field, Option.bind_eq_bind, Option.bind_some, h.token]
  cases v with
  | word w => rcases word_mem hw with rfl | rfl | rfl <;> simp [first, fieldOf]
  | object ms =>
      have hplaces := find_places key ms h.members
      simp only [fieldOf, first, h.keys, ne_eq, not_true_eq_false, if_false]
      cases hm : memberOf ms key with
      | none =>
          rw [hm] at hplaces
          simp [hplaces]
      | some u =>
          rw [hm] at hplaces
          obtain ⟨a, ha, hu⟩ := hplaces
          exact ⟨a + 1, by simp [ha], hu⟩
  | _ => simp [first, fieldOf]

theorem At.field_some {v u : Value} (h : At j n v) (hw : wordsOf v ⊆ words)
    (hu : fieldOf v key = some u) : ∃ i, PolicyJson.field j (some n) key = some i ∧ At j i u := by
  have hfield := h.field hw key
  rw [hu] at hfield
  exact hfield

theorem At.field_none (h : At j n v) (hw : wordsOf v ⊆ words)
    (hu : fieldOf v key = none) : PolicyJson.field j (some n) key = none := by
  have hfield := h.field hw key
  rw [hu] at hfield
  exact hfield

theorem fieldOf_words {v u : Value} (h : fieldOf v key = some u) : wordsOf u ⊆ wordsOf v := by
  cases v with
  | object ms =>
      obtain ⟨m, hm, rfl⟩ := Option.map_eq_some_iff.mp h
      exact wordsOf_member (List.mem_of_find?_eq_some hm)
  | _ => cases h

theorem At.field_string (h : At j n v) (hw : wordsOf v ⊆ words) (key : String)
    (size : Nat) : PolicyJson.string j (PolicyJson.field j (some n) key) size = (fieldOf v key).bind (stringOf size) := by
  cases hu : fieldOf v key with
  | none =>
      rw [h.field_none hw hu]
      rfl
  | some u =>
      obtain ⟨i, hi, hat⟩ := h.field_some hw hu
      rw [hi, hat.string (List.Subset.trans (fieldOf_words hu) hw)]
      rfl

theorem At.field_bool (h : At j n v) (hw : wordsOf v ⊆ words) (key : String) :
    PolicyJson.bool j (PolicyJson.field j (some n) key) = (fieldOf v key).bind boolOf := by
  cases hu : fieldOf v key with
  | none =>
      rw [h.field_none hw hu]
      rfl
  | some u =>
      obtain ⟨i, hi, hat⟩ := h.field_some hw hu
      rw [hi, hat.bool (List.Subset.trans (fieldOf_words hu) hw)]
      rfl

theorem At.field_uint (h : At j n v) (hw : wordsOf v ⊆ words) (key : String) :
    PolicyJson.uint j (PolicyJson.field j (some n) key) = (fieldOf v key).bind uintOf := by
  cases hu : fieldOf v key with
  | none =>
      rw [h.field_none hw hu]
      rfl
  | some u =>
      obtain ⟨i, hi, hat⟩ := h.field_some hw hu
      rw [hi, hat.uint (List.Subset.trans (fieldOf_words hu) hw)]
      rfl

/-! ### Keys that stand once -/

/-- The keys can be read and differ from one another. -/
def apart : List (List Char) → Bool
  | [] => true
  | k :: ks =>
      match unescape 256 0 k with
      | none => false
      | some key =>
          (ks.all fun o =>
            match unescape 256 0 o with
            | none => false
            | some other => other != key) && apart ks

mutual

def wellKeyed : Value → Bool
  | .array items => wellKeyedItems items
  | .object members => apart (members.map Prod.fst) && wellKeyedMembers members
  | _ => true

def wellKeyedItems : List Value → Bool
  | [] => true
  | v :: vs => wellKeyed v && wellKeyedItems vs

def wellKeyedMembers : List (List Char × Value) → Bool
  | [] => true
  | (_, v) :: ms => wellKeyed v && wellKeyedMembers ms

end

theorem strings_places (ms : List (List Char × Value)) : ∀ {n : Nat}, AtMembers j n ms →
    (keyPlaces n ms).map (fun a => string j (some a) 256) = ms.map fun m => unescape 256 0 m.1 := by
  induction ms with
  | nil => simp [keyPlaces]
  | cons m ms ih =>
      obtain ⟨k, v⟩ := m
      intro n h
      obtain ⟨hk, -, hrest⟩ := h.head
      have hkey : string j (some n) 256 = unescape 256 0 k := by
        rw [hk.string (by simp [wordsOf])]
        rfl
      simp [keyPlaces, hkey, ih hrest]

theorem unrepeated_places (ms : List (List Char × Value)) : ∀ {n : Nat}, AtMembers j n ms →
    unrepeated j (keyPlaces n ms) = apart (ms.map Prod.fst) := by
  induction ms with
  | nil => simp [keyPlaces, unrepeated, apart]
  | cons m ms ih =>
      obtain ⟨k, v⟩ := m
      intro n h
      obtain ⟨hk, -, hrest⟩ := h.head
      have hkey : string j (some n) 256 = unescape 256 0 k := by
        rw [hk.string (by simp [wordsOf])]
        rfl
      have hall : ∀ f : Option (List Char) → Bool,
          (keyPlaces (n + 1 + size v) ms).all (fun b => f (string j (some b) 256)) =
            (ms.map Prod.fst).all fun o => f (unescape 256 0 o) := by
        intro f
        have hmap := congrArg (List.all · f) (strings_places ms hrest)
        simpa [List.all_map, Function.comp_def] using hmap
      rw [keyPlaces, unrepeated, hkey, List.map_cons, apart]
      cases unescape 256 0 k with
      | none => rfl
      | some key =>
          rw [ih hrest]
          dsimp only
          congr 1
          exact hall fun o => match o with
            | none => false
            | some other => other != key

def keyed (j : Tokens) (p : Token × Nat) : Bool := p.1.type != '{' || unrepeated j (keys j p.2 p.1.next)

mutual

theorem keyed_table {j : Tokens} : ∀ (v : Value) {n : Nat}, At j n v → wordsOf v ⊆ words →
    ((table n v).zipIdx n).all (keyed j) = wellKeyed v
  | .word w, n, _, hw => by rcases word_mem hw with rfl | rfl | rfl <;> simp [table, keyed, wellKeyed]
  | .number _, n, _, _ => by simp [table, keyed, wellKeyed]
  | .string _, n, _, _ => by simp [table, keyed, wellKeyed]
  | .array items, n, h, hw => by
      simp [table, keyed, wellKeyed, keyed_tables items h.items hw]
  | .object members, n, h, hw => by
      have hkeys := unrepeated_places members h.members
      simp only [table, List.zipIdx_cons, List.all_cons, keyed_memberTables members h.members hw, wellKeyed]
      simp [keyed, h.keys, hkeys]

theorem keyed_tables {j : Tokens} : ∀ (vs : List Value) {n : Nat}, AtItems j n vs → wordsOfItems vs ⊆ words →
    ((tables n vs).zipIdx n).all (keyed j) = wellKeyedItems vs
  | [], n, _, _ => by simp [tables, wellKeyedItems]
  | v :: vs, n, h, hw => by
      obtain ⟨hv, hvs⟩ := List.append_subset.mp hw
      rw [tables, List.zipIdx_append, List.all_append, table_length, keyed_table v h.head.1 hv,
        keyed_tables vs h.head.2 hvs, wellKeyedItems]

theorem keyed_memberTables {j : Tokens} : ∀ (ms : List (List Char × Value)) {n : Nat}, AtMembers j n ms →
    wordsOfMembers ms ⊆ words → ((memberTables n ms).zipIdx n).all (keyed j) = wellKeyedMembers ms
  | [], n, _, _ => by simp [memberTables, wellKeyedMembers]
  | (k, v) :: ms, n, h, hw => by
      obtain ⟨hv, hms⟩ := List.append_subset.mp hw
      obtain ⟨-, hat, hrest⟩ := h.head
      rw [memberTables, List.cons_append, List.zipIdx_cons, List.zipIdx_append, List.all_cons, List.all_append,
        table_length, keyed_table v hat hv, keyed_memberTables ms hrest hms, wellKeyedMembers]
      simp [keyed]

end

def Readable (s : List Char) (ms : List (List Char × Value)) : Prop :=
  s.length ≤ 65535 ∧ '\x00' ∉ s ∧ document words s = some (.object ms) ∧
    Fits 0 0 (height (.object ms)) (size (.object ms)) ∧ wellKeyed (.object ms) = true

theorem first_brace (hw : wordsOf v ⊆ words) (n : Nat) : (first n v).type = '{' ↔ ∃ ms, v = .object ms := by
  cases v with
  | word w => rcases word_mem hw with rfl | rfl | rfl <;> simp [first]
  | _ => simp [first]

theorem parse_readable {s : List Char} :
    parse s = some j ↔ ∃ ms, Readable s ms ∧ j = table 0 (.object ms) := by
  rw [parse, (value_read _).1]
  constructor
  · intro h
    split at h
    next => cases h
    next hbytes =>
      cases hread : readValue words (2 * s.length + 1) s with
      | none => simp [hread] at h
      | some p =>
          obtain ⟨v, rest⟩ := p
          have hw := (read_words _).1 hread
          rw [hread, Option.bind_some, scanned] at h
          split at h
          next => cases h
          next hscan =>
            split at hscan
            next hfit =>
              obtain ⟨rfl, rfl⟩ := Prod.mk.inj (Option.some.inj hscan)
              split at h
              next => cases h
              next hend =>
                split at h
                next hkeys =>
                  obtain ⟨below, hbelow⟩ := table_first 0 v
                  have hend : skip rest = [] ∧ (first 0 v).type = '{' := by simpa [hbelow] using hend
                  obtain ⟨ms, rfl⟩ := (first_brace hw 0).mp hend.2
                  refine ⟨ms, ⟨by omega, by tauto, by simp [document, hread, hend.1], hfit, ?_⟩, (Option.some.inj h).symm⟩
                  rw [← keyed_table _ (at_root _) hw]
                  exact hkeys
                next => cases h
            next => cases hscan
  · rintro ⟨ms, ⟨hlength, hnul, hdoc, hfit, hkeyed⟩, rfl⟩
    have hw := document_words hdoc
    have hne : s ≠ [] := by
      rintro rfl
      simp [document, readValue, skip, scalar, word, words, number, minus, whole] at hdoc
    have hbytes : ¬ (s = [] ∨ 65535 < s.length ∨ '\x00' ∈ s) := by
      rintro (h | h | h)
      · exact hne h
      · omega
      · exact hnul h
    rw [if_neg hbytes]
    unfold document at hdoc
    split at hdoc
    next v rest hread =>
      split at hdoc
      next hend =>
        obtain rfl := Option.some.inj hdoc
        rw [hread, Option.bind_some, scanned, if_pos hfit]
        have hall : ((table 0 (.object ms)).zipIdx).all (keyed (table 0 (.object ms))) = true :=
          (keyed_table _ (at_root _) hw).trans hkeyed
        simp only [hend, table, List.head?_cons, Option.map_some, ne_eq, not_true_eq_false, or_self, if_false]
        exact if_pos hall
      next => cases hdoc
    next => cases hdoc

end EtranProcessing.Proxy.PolicyTable
