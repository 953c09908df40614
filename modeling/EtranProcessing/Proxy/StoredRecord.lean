import EtranProcessing.Proxy.PolicyRecords

namespace EtranProcessing.Proxy.StoredRecord

open Library.Json PolicyJson PolicyTable PolicyRecords

def compact : Style := ⟨fun _ => [], [], by simp, by simp⟩

def recordMembers (r : PolicyRecord) : List (List Char × Value) :=
  [("storage_version".toList, .number ['1']), ("sn".toList, .string (r.sn.val.flatMap escape)),
    ("generation".toList, .number (digitsOf r.generation)), ("known".toList, .word (truth r.known)),
    ("allowed".toList, .word (truth r.allowed)), ("last_success_at".toList, .number (digitsOf r.lastSuccessAt)),
    ("offline_allowed_until".toList, .number (digitsOf r.offlineAllowedUntil)), ("facts".toList, .string r.facts.val)]

theorem recordText_write (r : PolicyRecord) : recordText r = write compact 0 (.object (recordMembers r)) := by
  simp only [recordText, recordMembers, member, inQuotes, write, writeMembers, compact, List.isEmpty_cons, List.isEmpty_nil,
    if_true, if_false, Bool.false_eq_true, List.append_assoc, List.cons_append, List.nil_append, List.append_nil]

theorem hex_digitChar {n : Nat} (h : n < 16) : hex (Nat.digitChar n) = some n := by
  have hall : ∀ m : Fin 16, hex (Nat.digitChar m.val) = some m.val := by decide
  exact hall ⟨n, h⟩

theorem quotable_escape (s : List Char) : Quotable (s.flatMap escape) := by
  induction s with
  | nil => exact quotable_nil
  | cons c s ih =>
      rw [List.flatMap_cons, escape]
      split
      next h =>
        have hhigh := hex_digitChar (n := c.toNat / 16 % 16) (by omega)
        have hlow := hex_digitChar (n := c.toNat % 16) (by omega)
        exact quotable_unicode ⟨by decide, by decide, by simp [hhigh], by simp [hlow]⟩ ih
      next h =>
        have hclear : clear c = true := by
          simp only [not_or] at h
          simp only [clear, Bool.and_eq_true, bne_iff_ne, decide_eq_true_eq]
          exact ⟨⟨h.2.1, h.2.2⟩, by omega⟩
        exact quotable_clear hclear ih

theorem unescape_plain {size used : Nat} {c : Char} (s : List Char) (hc : c ≠ '\\') (hnul : c ≠ '\x00')
    (hused : used + 1 < size) : unescape size used (c :: s) = (unescape size (used + 1) s).map (c :: ·) := by
  rw [unescape.eq_def]
  simp only
  rw [if_neg hc, if_neg (by rintro (h | h); exacts [hnul h, absurd h (by omega)])]

theorem unescape_unicode {size used a b c d : Nat} {h₁ h₂ h₃ h₄ : Char} (s : List Char) (ha : hex h₁ = some a)
    (hb : hex h₂ = some b) (hc : hex h₃ = some c) (hd : hex h₄ = some d) (hused : used + 1 < size)
    (hcode : 0 < ((a * 16 + b) * 16 + c) * 16 + d ∧ ((a * 16 + b) * 16 + c) * 16 + d < 128) :
    unescape size used ('\\' :: 'u' :: h₁ :: h₂ :: h₃ :: h₄ :: s) =
      (unescape size (used + 1) s).map (Char.ofNat (((a * 16 + b) * 16 + c) * 16 + d) :: ·) := by
  rw [unescape.eq_def]
  simp only [if_true, ha, hb, hc, hd]
  rw [if_neg (by omega), if_neg (by omega)]

theorem unescape_escape (size : Nat) (s : List Char) (hnul : '\x00' ∉ s) : ∀ {u : Nat}, u + s.length < size →
    unescape size u (s.flatMap escape) = some s := by
  induction s with
  | nil => exact fun _ => by simp [unescape]
  | cons c s ih =>
      intro used hused
      simp only [List.mem_cons, not_or] at hnul
      simp only [List.length_cons] at hused
      have hrest := ih hnul.2 (u := used + 1) (by omega)
      rw [List.flatMap_cons, escape]
      split
      next h =>
        have hsmall : c.toNat < 128 := by
          rcases h with h | rfl | rfl
          · omega
          all_goals decide
        have hzero : c.toNat ≠ 0 := by
          intro h0
          apply hnul.1
          apply Char.toNat_inj.mp
          rw [h0]
          rfl
        have hcode : ((0 * 16 + 0) * 16 + c.toNat / 16 % 16) * 16 + c.toNat % 16 = c.toNat := by omega
        have hdigit : hex '0' = some 0 := by decide
        simp only [List.cons_append, List.nil_append]
        rw [unescape_unicode _ hdigit hdigit (hex_digitChar (by omega)) (hex_digitChar (by omega)) (by omega) (by omega), hrest,
          hcode, Char.ofNat_toNat]
        rfl
      next h =>
        rw [List.singleton_append, unescape_plain _ (fun e => h (.inr (.inr e))) (Ne.symm hnul.1) (by omega), hrest]
        rfl

theorem unescape_clear (size : Nat) (s : List Char) (hs : ∀ c ∈ s, clear c = true) : ∀ {u : Nat},
    u + s.length < size → unescape size u s = some s := by
  induction s with
  | nil => exact fun _ => by simp [unescape]
  | cons c s ih =>
      intro used hused
      simp only [List.length_cons] at hused
      have hrest := ih (fun d hd => hs d (List.mem_cons_of_mem c hd)) (u := used + 1) (by omega)
      have hc := hs c List.mem_cons_self
      simp only [clear, Bool.and_eq_true, bne_iff_ne, decide_eq_true_eq] at hc
      have hnul : c ≠ '\x00' := by
        rintro rfl
        exact absurd hc.2 (by decide)
      rw [unescape_plain _ hc.1.2 hnul (by omega), hrest]
      rfl

theorem clear_fact {c : Char} (h : (factChar c || c == ',') = true) : clear c = true := by
  simp only [factChar, Bool.or_eq_true, Bool.and_eq_true, decide_eq_true_eq, beq_iff_eq] at h
  have hlarge : 44 ≤ c.toNat ∧ c ≠ '\\' := by
    rcases h with ((⟨h, -⟩ | ⟨h, h'⟩) | rfl) | rfl
    · exact ⟨le_trans (by decide) (Char.le_def.mp h), fun e => absurd h (by rw [e]; decide)⟩
    · exact ⟨le_trans (by decide) (Char.le_def.mp h), fun e => absurd h' (by rw [e]; decide)⟩
    all_goals decide
  simp only [clear, Bool.and_eq_true, bne_iff_ne, decide_eq_true_eq]
  refine ⟨⟨?_, hlarge.2⟩, by omega⟩
  rintro rfl
  exact absurd hlarge.1 (by decide)

theorem leaf_truth (b : Bool) : Leaf words (truth b) (.word (truth b)) := by
  cases b
  · exact ⟨⟨'f', _, rfl, by decide⟩, fun rest _ => by simp [scalar, word, words, truth]⟩
  · exact ⟨⟨'t', _, rfl, by decide⟩, fun rest _ => by simp [scalar, word, words, truth]⟩

theorem regular_record (r : PolicyRecord) : Regular words (.object (recordMembers r)) := by
  have hkey : ∀ key : List Char, (key.all clear) = true → Quotable key := by
    intro key h
    exact quotable_all (List.all_eq_true.mp h)
  have hfacts : Quotable r.facts.val := by
    apply quotable_all
    intro c hc
    exact clear_fact (List.all_eq_true.mp r.facts.property.1 c hc)
  have hnumber : ∀ n, Leaf words (Nat.toDigits 10 n) (.number (Nat.toDigits 10 n)) := by
    apply leaf_repr
    intro w hw
    simp only [words, List.mem_cons, List.not_mem_nil, or_false] at hw
    rcases hw with rfl | rfl | rfl <;> exact ⟨_, _, rfl, by decide⟩
  exact ⟨hkey _ (by decide), hnumber 1, hkey _ (by decide), quotable_escape _, hkey _ (by decide), hnumber _,
    hkey _ (by decide), leaf_truth _, hkey _ (by decide), leaf_truth _, hkey _ (by decide), hnumber _,
    hkey _ (by decide), hnumber _, hkey _ (by decide), hfacts, trivial⟩

theorem document_record (r : PolicyRecord) : document words (recordText r) = some (.object (recordMembers r)) := by
  have h := document_write compact (regular_record r) 0 (by simp : ∀ c ∈ [], space c = true)
  rwa [List.append_nil, ← recordText_write] at h

theorem length_digitsOf (n : UInt64) : (digitsOf n).length ≤ 20 := by
  apply (Nat.length_toDigits_le_iff (by omega) (by omega)).mpr
  have := n.toNat_lt
  omega

theorem length_flatMap_escape (s : List Char) : (s.flatMap escape).length ≤ 6 * s.length := by
  induction s with
  | nil => simp
  | cons c s ih =>
      have hc : (escape c).length ≤ 6 := by
        unfold escape
        split <;> simp
      simp only [List.flatMap_cons, List.length_append, List.length_cons]
      omega

theorem length_truth (b : Bool) : (truth b).length ≤ 5 := by cases b <;> decide

theorem recordText_length (r : PolicyRecord) : 0 < (recordText r).length ∧ (recordText r).length < 3072 := by
  have hsn := length_flatMap_escape r.sn.val
  have hsn' := r.sn.property.2
  have hfacts := r.facts.property.2
  have h₁ := length_digitsOf r.generation
  have h₂ := length_digitsOf r.lastSuccessAt
  have h₃ := length_digitsOf r.offlineAllowedUntil
  have h₄ := length_truth r.known
  have h₅ := length_truth r.allowed
  simp only [maxSnLen, factsSize] at hsn' hfacts
  simp [recordText, member, inQuotes, -List.length_flatMap]
  omega

theorem nul_notMem (r : PolicyRecord) : '\x00' ∉ recordText r := by
  have hdigits : ∀ n, '\x00' ∉ digitsOf n := fun n h => absurd (digits_repr n.toNat _ h) (by decide)
  have htruth : ∀ b, '\x00' ∉ truth b := by decide
  have hfacts : '\x00' ∉ r.facts.val := fun h => absurd (List.all_eq_true.mp r.facts.property.1 _ h) (by decide)
  have hsn : '\x00' ∉ r.sn.val.flatMap escape := by
    intro h
    obtain ⟨c, hc, hin⟩ := List.mem_flatMap.mp h
    unfold escape at hin
    split at hin
    next =>
      have hhex : ∀ n : Fin 16, '\x00' ≠ Nat.digitChar n.val := by decide
      have hhigh := hhex ⟨c.toNat / 16 % 16, by omega⟩
      have hlow := hhex ⟨c.toNat % 16, by omega⟩
      simp_all
    next => exact r.sn.property.1 (List.mem_singleton.mp hin ▸ hc)
  simp [recordText, member, inQuotes, hdigits, htruth, hfacts, hsn]

theorem readable_record (r : PolicyRecord) : Readable (recordText r) (recordMembers r) := by
  refine ⟨by have := recordText_length r; omega, nul_notMem r, document_record r, ?_, ?_⟩
  · simp [Fits, height, recordMembers, memberHeights, size, memberSizes, maxDepth, maxTokens]
  · have hapart : apart ((recordMembers r).map Prod.fst) = true := by
      simp only [recordMembers, List.map_cons, List.map_nil]
      decide +kernel
    have hmembers : wellKeyedMembers (recordMembers r) = true := by simp [recordMembers, wellKeyedMembers, wellKeyed]
    rw [wellKeyed, hapart, hmembers]
    rfl

def recordTable (r : PolicyRecord) : Tokens := table 0 (.object (recordMembers r))

theorem parse_record (r : PolicyRecord) : parse (recordText r) = some (recordTable r) :=
  parse_readable.mpr ⟨_, readable_record r, rfl⟩

theorem memberOf_clear (key : String) {ms : List (List Char × Value)} : (∀ m ∈ ms, (∀ c ∈ m.1, clear c = true) ∧ m.1.length < 256) →
    memberOf ms key = (ms.find? fun m => m.1 == key.toList).map Prod.snd := by
  induction ms with
  | nil => exact fun _ => rfl
  | cons m ms ih =>
      intro h
      obtain ⟨hclear, hlength⟩ := h m List.mem_cons_self
      have hrest := ih fun u hu => h u (List.mem_cons_of_mem m hu)
      unfold memberOf at hrest ⊢
      rw [List.find?_cons, List.find?_cons, unescape_clear 256 m.1 hclear (by omega)]
      by_cases hk : m.1 = key.toList
      · simp [hk]
      · have hk' : (m.1 == key.toList) = false := by simpa using hk
        have hk'' : (some m.1 == some key.toList) = false := by simpa using hk
        rw [hk', hk'']
        exact hrest

theorem clear_members (r : PolicyRecord) :
    ∀ m ∈ recordMembers r, (∀ c ∈ m.1, clear c = true) ∧ m.1.length < 256 := by
  have hkeys : ∀ k ∈ (recordMembers r).map Prod.fst, (k.all clear = true) ∧ k.length < 256 := by
    simp only [recordMembers, List.map_cons, List.map_nil]
    decide +kernel
  intro m hm
  obtain ⟨hclear, hlength⟩ := hkeys m.1 (List.mem_map_of_mem hm)
  exact ⟨List.all_eq_true.mp hclear, hlength⟩

theorem memberOf_record (r : PolicyRecord) (key : String) :
    fieldOf (.object (recordMembers r)) key = ((recordMembers r).find? fun m => m.1 == key.toList).map Prod.snd :=
  memberOf_clear key (clear_members r)

theorem decimal_digitsOf (n : UInt64) : uintOf (.number (digitsOf n)) = some n.toNat := by
  have hdigits : (digitsOf n).all digit = true := List.all_eq_true.mpr (digits_repr n.toNat)
  have hlength := length_digitsOf n
  have hpos : 0 < (digitsOf n).length := Nat.length_toDigits_pos
  have hvalue : Nat.ofDigitChars 10 (digitsOf n) 0 = n.toNat := Nat.ofDigitChars_ten_toDigits
  have hlt := n.toNat_lt
  rw [uintOf, decimal, hvalue, if_neg, if_pos hlt]
  rw [hdigits]
  simp only [reduceCtorEq, or_false]
  omega

theorem boolOf_truth (b : Bool) : boolOf (.word (truth b)) = some b := by cases b <;> rfl

theorem readFacts_found {j : Tokens} {i : Nat} {f : Facts} (hi : field j (some 0) "facts" = some i)
    (hs : string j (some i) factsSize = some f.val) : readFacts j = some f := by
  unfold readFacts
  split
  next h =>
    rw [h] at hi
    cases hi
  next n h =>
    obtain rfl : n = i := Option.some.inj (h.symm.trans hi)
    split
    next h' =>
      rw [h'] at hs
      cases hs
    next g h' =>
      obtain rfl : g = f.val := Option.some.inj (h'.symm.trans hs)
      rw [dif_pos f.property.1]

section Stored

variable (r : PolicyRecord)

theorem at_record : At (recordTable r) 0 (.object (recordMembers r)) := at_root _

theorem words_record : wordsOf (.object (recordMembers r)) ⊆ words := document_words (document_record r)

theorem stored_version : uintField (recordTable r) "storage_version" = some 1 := by
  rw [uintField, (at_record r).field_uint (words_record r), memberOf_record]
  have hone : uintOf (.number ['1']) = some 1 := by decide +kernel
  exact hone

theorem stored_generation : uintField (recordTable r) "generation" = some r.generation.toNat := by
  rw [uintField, (at_record r).field_uint (words_record r), memberOf_record]
  exact decimal_digitsOf _

theorem stored_success : uintField (recordTable r) "last_success_at" = some r.lastSuccessAt.toNat := by
  rw [uintField, (at_record r).field_uint (words_record r), memberOf_record]
  exact decimal_digitsOf _

theorem stored_until : uintField (recordTable r) "offline_allowed_until" = some r.offlineAllowedUntil.toNat := by
  rw [uintField, (at_record r).field_uint (words_record r), memberOf_record]
  exact decimal_digitsOf _

theorem stored_known : boolField (recordTable r) "known" = some r.known := by
  rw [boolField, (at_record r).field_bool (words_record r), memberOf_record]
  simp [recordMembers, boolOf_truth]

theorem stored_allowed : boolField (recordTable r) "allowed" = some r.allowed := by
  rw [boolField, (at_record r).field_bool (words_record r), memberOf_record]
  simp [recordMembers, boolOf_truth]

theorem stored_sn : string (recordTable r) (field (recordTable r) (some 0) "sn") maxSnLen = some r.sn.val := by
  rw [(at_record r).field_string (words_record r), memberOf_record]
  have hsn := unescape_escape 128 r.sn.val r.sn.property.1 (u := 0)
    (by have := r.sn.property.2; simp [maxSnLen] at this; omega)
  simp [recordMembers, stringOf, hsn, maxSnLen]

theorem stored_facts : readFacts (recordTable r) = some r.facts := by
  have hclear : ∀ c ∈ r.facts.val, clear c = true := fun c hc =>
    clear_fact (List.all_eq_true.mp r.facts.property.1 c hc)
  have hfield : fieldOf (.object (recordMembers r)) "facts" = some (.string r.facts.val) := by
    rw [memberOf_record]
    simp [recordMembers]
  obtain ⟨i, hi, hat⟩ := (at_record r).field_some (words_record r) hfield
  have hstring : string (recordTable r) (some i) factsSize = some r.facts.val := by
    rw [hat.string (by simp [wordsOf])]
    have := unescape_clear 1024 r.facts.val hclear (u := 0)
      (by have := r.facts.property.2; simp [factsSize] at this; omega)
    simp [stringOf, this, factsSize]
  exact readFacts_found hi hstring

theorem parse_recordText : policyRecordParse (recordText r) r.sn = if admissible r then some r else none := by
  rw [policyRecordParse, parse_record r]
  simp only [Option.bind_eq_bind, Option.bind_some, stored_version, ne_eq, not_true_eq_false, if_false, stored_sn,
    stored_generation, stored_success, stored_until, stored_known, stored_allowed, stored_facts, UInt64.ofNat_toNat]

end Stored

end EtranProcessing.Proxy.StoredRecord
