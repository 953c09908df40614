import EtranProcessing.Desk.JsonMin

namespace EtranProcessing.Desk.FieldExtraction

open CaptureAdapter JsonMin

abbrev Bytes := List UInt8

/-! ### The extraction with what it returns -/

/-- The loop over a string stops at a quote. -/
def terminated : Bytes → Bool
  | [] => false
  | [b] => b = quote
  | b :: c :: rest =>
    if b = quote then true
    else if b = backslash then terminated rest
    else terminated (c :: rest)

def jsonExtractStr (json : CString) (key : String) (maxLen : Nat) : Bool × Bytes :=
  if maxLen = 0 then (false, [])
  else
    match (findKeyColon json key).map skipSpaces with
    | some (b :: rest) => if b = quote then (terminated rest, (unquote rest).take (maxLen - 1)) else (false, [])
    | _ => (false, [])

/-! ### Objects without nested containers -/

def isBlank (b : UInt8) : Bool := b == 0x20 || b == 0x09 || b == 0x0a || b == 0x0d

abbrev Blank := { s : Bytes // ∀ b ∈ s, isBlank b = true }

def isHex (b : UInt8) : Bool := isDigit b || (0x41 ≤ b && b ≤ 0x46) || (0x61 ≤ b && b ≤ 0x66)

/-- One character of a string as it is written. -/
inductive Item
  | plain (b : UInt8) (h : 0x20 ≤ b ∧ b ≠ quote ∧ b ≠ backslash)
  | short (c : UInt8) (h : c ∈ text "\"\\/bfnrt")
  | unicode (digits : Bytes) (h : digits.length = 4 ∧ ∀ b ∈ digits, isHex b = true)

def Item.text : Item → Bytes
  | .plain b _ => [b]
  | .short c _ => [backslash, c]
  | .unicode digits _ => backslash :: 0x75 :: digits

def textOf (items : List Item) : Bytes := items.flatMap Item.text

def shortValue (c : UInt8) : UInt8 :=
  if c = 0x62 then 0x08 else if c = 0x66 then 0x0c else if c = 0x6e then 0x0a else if c = 0x72 then 0x0d
  else if c = 0x74 then 0x09 else c

def hexDigit (b : UInt8) : Nat :=
  if isDigit b then b.toNat - 0x30 else if b ≤ 0x46 then b.toNat - 0x37 else b.toNat - 0x57

def codeUnit (digits : Bytes) : Nat := digits.foldl (fun n b => 16 * n + hexDigit b) 0

def utf8 (code : Nat) : Bytes :=
  (if code < 0x80 then [code]
  else if code < 0x800 then [0xc0 + code / 64, 0x80 + code % 64]
  else if code < 0x10000 then [0xe0 + code / 4096, 0x80 + code / 64 % 64, 0x80 + code % 64]
  else [0xf0 + code / 262144, 0x80 + code / 4096 % 64, 0x80 + code / 64 % 64, 0x80 + code % 64]).map UInt8.ofNat

/-- The value of a string in UTF-8; a surrogate that stands alone has none. -/
def decode : List Item → Option Bytes
  | [] => some []
  | .plain b _ :: rest => (decode rest).map (b :: ·)
  | .short c _ :: rest => (decode rest).map (shortValue c :: ·)
  | .unicode digits _ :: rest =>
    let unit := codeUnit digits
    if unit < 0xd800 ∨ 0xe000 ≤ unit then (decode rest).map (utf8 unit ++ ·)
    else if 0xdc00 ≤ unit then none
    else
      match rest with
      | .unicode low _ :: rest =>
        if 0xdc00 ≤ codeUnit low ∧ codeUnit low < 0xe000 then
          (decode rest).map (utf8 (0x10000 + 1024 * (unit - 0xd800) + (codeUnit low - 0xdc00)) ++ ·)
        else none
      | _ => none

structure Exponent where
  mark : UInt8
  sign : Option Bool
  digits : Bytes
  mark_eq : mark = 0x65 ∨ mark = 0x45
  digits_eq : digits ≠ [] ∧ ∀ b ∈ digits, isDigit b = true

structure Number where
  negative : Bool
  whole : Bytes
  fraction : Option Bytes
  exponent : Option Exponent
  whole_eq : whole = [0x30] ∨ ∃ b rest, whole = b :: rest ∧ b ≠ 0x30
  whole_digits : ∀ b ∈ whole, isDigit b = true
  fraction_eq : ∀ f ∈ fraction, f ≠ [] ∧ ∀ b ∈ f, isDigit b = true

def Exponent.text (e : Exponent) : Bytes :=
  e.mark :: ((match e.sign with | some true => [0x2d] | some false => [0x2b] | none => []) ++ e.digits)

def Number.text (n : Number) : Bytes :=
  (if n.negative then [0x2d] else []) ++ n.whole ++
    (match n.fraction with | some f => 0x2e :: f | none => []) ++
    (match n.exponent with | some e => e.text | none => [])

def Exponent.value (e : Exponent) : Int :=
  if e.sign = some true then -(digitsValue e.digits : Int) else digitsValue e.digits

def Number.value (n : Number) : ℚ :=
  let fraction := n.fraction.getD []
  let exponent := (n.exponent.map Exponent.value).getD 0
  (if n.negative then -1 else 1) * (digitsValue (n.whole ++ fraction) : ℚ) * 10 ^ (exponent - (fraction.length : Int))

inductive Word
  | true | false | null

def Word.text : Word → Bytes
  | .true => JsonMin.text "true"
  | .false => JsonMin.text "false"
  | .null => JsonMin.text "null"

inductive Value
  | string (items : List Item)
  | number (n : Number)
  | word (w : Word)

def Value.text : Value → Bytes
  | .string items => quote :: (textOf items ++ [quote])
  | .number n => n.text
  | .word w => w.text

structure Member where
  before : Blank
  key : List Item
  beforeColon : Blank
  afterColon : Blank
  value : Value
  after : Blank

def Member.text (m : Member) : Bytes :=
  m.before.val ++ (quote :: (textOf m.key ++ quote :: (m.beforeColon.val ++ 0x3a :: (m.afterColon.val ++ m.value.text ++ m.after.val))))

def membersText : List Member → Bytes
  | [] => []
  | [m] => m.text
  | m :: ms => m.text ++ 0x2c :: membersText ms

structure FlatObject where
  lead : Blank
  inside : Blank
  members : List Member
  trail : Blank
  distinct : (members.map fun m => decode m.key).Nodup

def FlatObject.text (o : FlatObject) : Bytes :=
  o.lead.val ++ 0x7b :: ((if o.members = [] then o.inside.val else membersText o.members) ++ 0x7d :: o.trail.val)

/-! ### The search, one position after the other -/

def scan (key : Bytes) : Bool → Bytes → Option Bytes
  | _, [] => none
  | quoted, b :: rest =>
    match if quoted = true ∧ key <+: b :: rest then afterKey ((b :: rest).drop key.length) else none with
    | some value => some value
    | none => scan key (b == quote) rest

variable {key : Bytes}

theorem scanKey_eq (hquote : quote ∉ key) (hne : key ≠ []) (skip : Nat) (before : Option UInt8) (s : Bytes)
    (hskip : ∀ b ∈ s.take skip, b ≠ quote) (hbefore : 0 < skip → before ≠ some quote) :
    scanKey key skip before s = scan key (before == some quote) s := by
  induction s generalizing skip before with
  | nil => cases skip <;> rfl
  | cons b rest ih =>
      cases skip with
      | succ skip =>
          have hb : b ≠ quote := hskip b (by simp)
          have hnone : (before == some quote) = false := by simpa using hbefore (by omega)
          have hrest := ih skip (some b) (fun c hc => hskip c (by simp [hc])) (fun _ => by simpa using hb)
          simp only [scanKey, scan, hnone, Bool.false_eq_true, false_and, if_false, hrest]
          rfl
      | zero =>
          unfold scanKey scan
          have hstep (n : Nat) (hn : ∀ c ∈ rest.take n, c ≠ quote) (hb : 0 < n → b ≠ quote) :
              scanKey key n (some b) rest = scan key (b == quote) rest :=
            ih n (some b) hn fun h => by simpa using hb h
          split
          next hlead =>
            have hafter : scanKey key (key.length - 1) (some b) rest = scan key (b == quote) rest := by
              obtain ⟨t, ht⟩ := hlead
              obtain ⟨c, key', rfl⟩ := List.exists_cons_of_ne_nil hne
              obtain ⟨rfl, rfl⟩ : c = b ∧ key' ++ t = rest := by simpa using ht
              refine hstep _ (fun d hd => ?_) fun _ hc => hquote (by simp [hc])
              rintro rfl
              rw [List.length_cons, Nat.add_sub_cancel, List.take_left] at hd
              exact hquote (List.mem_cons_of_mem c hd)
            rw [hafter]
            by_cases hq : before = some quote
            · generalize afterKey ((b :: rest).drop key.length) = value
              cases value <;> simp [hq, hlead]
            · simp [hq]
          next hlead =>
            rw [hstep 0 (by simp) (by omega)]
            simp [hlead]

theorem scan_pass {q : Bool} {b : UInt8} (rest : Bytes)
    (h : q = true → key <+: b :: rest → afterKey ((b :: rest).drop key.length) = none) :
    scan key q (b :: rest) = scan key (b == quote) rest := by
  have hnone : (if q = true ∧ key <+: b :: rest then afterKey ((b :: rest).drop key.length) else none) = none := by
    split
    next hmatch => exact h hmatch.1 hmatch.2
    next => rfl
  rw [scan, hnone]

theorem scan_step {q : Bool} {b : UInt8} (rest : Bytes) (h : q = false ∨ ¬ key <+: b :: rest) :
    scan key q (b :: rest) = scan key (b == quote) rest :=
  scan_pass rest fun hq hlead => h.elim (fun hf => by simp [hf] at hq) fun hnot => absurd hlead hnot

theorem not_leading {c : UInt8} (rest : Bytes) (hc : c ∉ key) (hne : key ≠ []) : ¬ key <+: c :: rest := by
  intro hlead
  obtain ⟨d, key', rfl⟩ := List.exists_cons_of_ne_nil hne
  obtain ⟨t, ht⟩ := hlead
  obtain ⟨rfl, -⟩ : d = c ∧ key' ++ t = rest := by simpa using ht
  exact hc List.mem_cons_self

theorem scan_quiet (part rest : Bytes) (h : quote ∉ part) : scan key false (part ++ rest) = scan key false rest := by
  induction part with
  | nil => rfl
  | cons b part ih =>
      obtain ⟨hb, hpart⟩ : quote ≠ b ∧ quote ∉ part := by simpa using h
      rw [List.cons_append, scan_step _ (.inl rfl), beq_eq_false_iff_ne.mpr hb.symm, ih hpart]

theorem scan_other {c : UInt8} {q : Bool} (rest : Bytes) (hc : c ∉ key) (hne : key ≠ []) (hq : c ≠ quote) :
    scan key q (c :: rest) = scan key false rest := by
  rw [scan_step rest (.inr (not_leading rest hc hne)), beq_eq_false_iff_ne.mpr hq]

theorem rest_eq_key {key' t rest : Bytes} {items : List Item} (hquote : quote ∉ key') (hslash : backslash ∉ key')
    (h : key' ++ quote :: t = textOf items ++ quote :: rest) : textOf items = key' ∧ t = rest := by
  induction items generalizing key' with
  | nil =>
      cases key' with
      | nil => exact ⟨rfl, by simpa [textOf] using h⟩
      | cons b key' =>
          obtain ⟨rfl, -⟩ : b = quote ∧ key' ++ quote :: t = rest := by simpa [textOf] using h
          exact absurd List.mem_cons_self hquote
  | cons item items ih =>
      cases item with
      | plain b hb =>
          cases key' with
          | nil =>
              obtain ⟨heq, -⟩ : quote = b ∧ t = textOf items ++ quote :: rest := by simpa [textOf, Item.text] using h
              exact absurd heq.symm hb.2.1
          | cons c key' =>
              obtain ⟨rfl, hrest⟩ : c = b ∧ key' ++ quote :: t = textOf items ++ quote :: rest := by
                simpa [textOf, Item.text] using h
              obtain ⟨heq, ht⟩ := ih (by simp_all) (by simp_all) hrest
              exact ⟨by rw [← heq]; rfl, ht⟩
      | short c hc =>
          cases key' with
          | nil => simp [textOf, Item.text, quote, backslash] at h
          | cons d key' =>
              obtain ⟨rfl, -⟩ : d = backslash ∧ key' ++ quote :: t = c :: (textOf items ++ quote :: rest) := by
                simpa [textOf, Item.text] using h
              exact absurd List.mem_cons_self hslash
      | unicode digits hd =>
          cases key' with
          | nil => simp [textOf, Item.text, quote, backslash] at h
          | cons d key' =>
              obtain ⟨rfl, -⟩ : d = backslash ∧ key' ++ quote :: t = 0x75 :: (digits ++ (textOf items ++ quote :: rest)) := by
                simpa [textOf, Item.text] using h
              exact absurd List.mem_cons_self hslash

def EndsQuoted (key : Bytes) (items : List Item) : Prop :=
  ∃ before c h after, items = before ++ .short c h :: after ∧ c = quote ∧ textOf after = key

theorem match_in_string {items : List Item} {rest v : Bytes} (hquote : quote ∉ key) (hslash : backslash ∉ key)
    (hlead : key <+: textOf items ++ quote :: rest)
    (hafter : afterKey ((textOf items ++ quote :: rest).drop key.length) = some v) :
    textOf items = key ∧ afterKey (quote :: rest) = some v := by
  obtain ⟨t, ht⟩ := hlead
  rw [← ht, List.drop_left] at hafter
  cases t with
  | nil => simp [afterKey] at hafter
  | cons b t =>
      have hb : b = quote := by
        unfold afterKey at hafter
        dsimp only at hafter
        split at hafter
        next h => exact h
        next => cases hafter
      subst hb
      obtain ⟨heq, rfl⟩ := rest_eq_key hquote hslash ht
      exact ⟨heq, hafter⟩

theorem endsQuoted_cons {item : Item} {items : List Item} (h : EndsQuoted key items) : EndsQuoted key (item :: items) := by
  obtain ⟨before, c, hc, after, rfl, hquote, hafter⟩ := h
  exact ⟨item :: before, c, hc, after, rfl, hquote, hafter⟩

theorem hex_ne_quote {b : UInt8} (h : isHex b = true) : b ≠ quote := by
  rintro rfl
  exact absurd h (by decide)

theorem scan_string (hquote : quote ∉ key) (hslash : backslash ∉ key) (hne : key ≠ []) (rest : Bytes) {items : List Item}
    {q : Bool} (h : afterKey (quote :: rest) = none ∨ ¬ (q = true ∧ textOf items = key) ∧ ¬ EndsQuoted key items) :
    scan key q (textOf items ++ quote :: rest) = scan key true rest := by
  induction items generalizing q with
  | nil => exact scan_step rest (.inr (not_leading rest hquote hne))
  | cons item items ih =>
      have hrest : afterKey (quote :: rest) = none ∨ ¬ (false = true ∧ textOf items = key) ∧ ¬ EndsQuoted key items :=
        h.imp_right fun h => ⟨by simp, fun hends => h.2 (endsQuoted_cons hends)⟩
      cases item with
      | plain b hb =>
          have hpass : q = true → key <+: b :: (textOf items ++ quote :: rest) →
              afterKey ((b :: (textOf items ++ quote :: rest)).drop key.length) = none := by
            intro hq hlead
            by_contra hsome
            obtain ⟨v, hv⟩ := Option.ne_none_iff_exists'.mp hsome
            obtain ⟨heq, hafter⟩ := @match_in_string _ (.plain b hb :: items) _ _ hquote hslash hlead hv
            obtain hnone | ⟨hnot, -⟩ := h
            · rw [hnone] at hafter
              cases hafter
            · exact hnot ⟨hq, heq⟩
          change scan key q (b :: (textOf items ++ quote :: rest)) = _
          rw [scan_pass _ hpass, beq_eq_false_iff_ne.mpr hb.2.1, ih hrest]
      | short c hc =>
          change scan key q (backslash :: c :: (textOf items ++ quote :: rest)) = _
          rw [scan_other _ hslash hne (by decide), scan_step _ (.inl rfl)]
          refine ih (h.imp_right fun h => ⟨fun hmatch => h.2 ?_, fun hends => h.2 (endsQuoted_cons hends)⟩)
          exact ⟨[], c, hc, items, rfl, by simpa using hmatch.1, hmatch.2⟩
      | unicode digits hd =>
          have hclear : quote ∉ (0x75 : UInt8) :: digits := by
            rw [List.mem_cons, not_or]
            exact ⟨by decide, fun hmem => hex_ne_quote (hd.2 _ hmem) rfl⟩
          have hsplit : textOf (.unicode digits hd :: items) ++ quote :: rest =
              backslash :: ((0x75 :: digits) ++ (textOf items ++ quote :: rest)) := by simp [textOf, Item.text]
          rw [hsplit, scan_other _ hslash hne (by decide), scan_quiet _ _ hclear, ih hrest]

/-! ### The members -/

def isKeyByte (b : UInt8) : Bool := isDigit b || (0x41 ≤ b && b ≤ 0x5a) || (0x61 ≤ b && b ≤ 0x7a) || b == 0x5f

def Named (key : String) : Prop := text key ≠ [] ∧ ∀ b ∈ text key, isKeyByte b = true

theorem named_not_mem {key : String} (h : Named key) {b : UInt8} (hb : isKeyByte b = false) : b ∉ text key := fun hmem => by
  rw [h.2 b hmem] at hb
  cases hb

theorem blank_cases {b : UInt8} (h : isBlank b = true) : b = 0x20 ∨ b = 0x09 ∨ b = 0x0a ∨ b = 0x0d := by
  simpa [isBlank, or_assoc] using h

theorem blank_clear (part : Blank) : quote ∉ part.val := fun hmem => absurd (part.property _ hmem) (by decide)

theorem scan_gap {key : String} (h : Named key) (part : Blank) {c : UInt8} (hc : isKeyByte c = false) (hq : c ≠ quote)
    (rest : Bytes) (q : Bool) : scan (text key) q (part.val ++ c :: rest) = scan (text key) false rest := by
  obtain ⟨part, hpart⟩ := part
  cases part with
  | nil => exact scan_other rest (named_not_mem h hc) h.1 hq
  | cons b part =>
      have hb : isKeyByte b = false ∧ b ≠ quote := by
        rcases blank_cases (hpart b List.mem_cons_self) with rfl | rfl | rfl | rfl <;> decide
      have hclear := blank_clear ⟨part, fun c hc => hpart c (List.mem_cons_of_mem b hc)⟩
      rw [List.cons_append, scan_other _ (named_not_mem h hb.1) h.1 hb.2, scan_quiet _ _ hclear,
        scan_other rest (named_not_mem h hc) h.1 hq]

theorem skipSpaces_blank (part : Blank) {b : UInt8} (hb : isSpace b = false) (rest : Bytes) :
    skipSpaces (part.val ++ b :: rest) = b :: rest := by
  unfold skipSpaces
  rw [List.dropWhile_append_of_pos fun c hc => ?_, List.dropWhile_cons_of_neg (by simp [hb])]
  rcases blank_cases (part.property c hc) with rfl | rfl | rfl | rfl <;> decide

def Mark (c : UInt8) : Prop := c = 0x2c ∨ c = 0x7d

theorem mark_spec {c : UInt8} (h : Mark c) : isKeyByte c = false ∧ c ≠ quote ∧ isSpace c = false ∧ c ≠ 0x3a ∧ isDigit c = false := by
  rcases h with rfl | rfl <;> decide

theorem afterKey_mark (part : Blank) {c : UInt8} (h : Mark c) (rest : Bytes) :
    afterKey (quote :: (part.val ++ c :: rest)) = none := by
  obtain ⟨-, -, hspace, hcolon, -⟩ := mark_spec h
  simp [afterKey, skipSpaces_blank part hspace, hcolon]

theorem digits_free {x : UInt8} (hx : isDigit x = false) {ds : Bytes} (h : ∀ b ∈ ds, isDigit b = true) : x ∉ ds := fun hmem => by
  rw [h x hmem] at hx
  cases hx

theorem number_free {x : UInt8} (hx : isDigit x = false) (hmark : x ∉ [0x2d, 0x2b, 0x2e, 0x65, (0x45 : UInt8)]) (n : Number) :
    x ∉ n.text := by
  obtain ⟨negative, whole, fraction, exponent, -, hwhole, hfraction⟩ := n
  simp only [List.mem_cons, List.not_mem_nil, or_false, not_or] at hmark
  obtain ⟨hminus, hplus, hdot, he, hE⟩ := hmark
  unfold Number.text
  simp only [List.mem_append, not_or]
  refine ⟨⟨⟨by cases negative <;> simp [hminus], digits_free hx hwhole⟩, ?_⟩, ?_⟩
  · cases fraction with
    | none => simp
    | some f =>
        rw [List.mem_cons, not_or]
        exact ⟨hdot, digits_free hx (hfraction f rfl).2⟩
  · cases exponent with
    | none => simp
    | some e =>
        obtain ⟨mark, sign, digits, hmark, hdigits⟩ := e
        simp only [Exponent.text, List.mem_cons, List.mem_append, not_or]
        refine ⟨by rcases hmark with rfl | rfl <;> assumption, ?_, digits_free hx hdigits.2⟩
        rcases sign with _ | _ | _ <;> simp [hplus, hminus]

theorem number_clear (n : Number) : quote ∉ n.text := number_free (by decide) (by decide) n

theorem word_clear (w : Word) : quote ∉ w.text := by cases w <;> decide

theorem scan_value {key : String} (h : Named key) (value : Value) (before after : Blank) {c : UInt8} (hc : Mark c)
    (rest : Bytes) : scan (text key) false (before.val ++ value.text ++ after.val ++ c :: rest) =
      scan (text key) false rest := by
  obtain ⟨hkey, hquote, -⟩ := mark_spec hc
  rw [List.append_assoc, List.append_assoc, scan_quiet _ _ (blank_clear before)]
  cases value with
  | string items =>
      have hsplit : Value.text (.string items) ++ (after.val ++ c :: rest) =
          quote :: (textOf items ++ quote :: (after.val ++ c :: rest)) := by simp [Value.text]
      rw [hsplit, scan_step _ (.inl rfl), scan_string (named_not_mem h (by decide)) (named_not_mem h (by decide)) h.1 _
        (.inl (afterKey_mark after hc rest)), scan_gap h after hkey hquote]
  | number n =>
      change scan _ _ (n.text ++ _) = _
      rw [scan_quiet _ _ (number_clear n), scan_gap h after hkey hquote]
  | word w =>
      change scan _ _ (w.text ++ _) = _
      rw [scan_quiet _ _ (word_clear w), scan_gap h after hkey hquote]

theorem member_split (m : Member) (rest : Bytes) : m.text ++ rest = m.before.val ++ (quote :: (textOf m.key ++
    quote :: (m.beforeColon.val ++ 0x3a :: (m.afterColon.val ++ m.value.text ++ m.after.val ++ rest)))) := by
  simp [Member.text]

theorem scan_member_other {key : String} (h : Named key) (m : Member) (hkey : textOf m.key ≠ text key)
    (hends : ¬ EndsQuoted (text key) m.key) {c : UInt8} (hc : Mark c) (rest : Bytes) :
    scan (text key) false (m.text ++ c :: rest) = scan (text key) false rest := by
  rw [member_split, scan_quiet _ _ (blank_clear m.before), scan_step _ (.inl rfl),
    scan_string (named_not_mem h (by decide)) (named_not_mem h (by decide)) h.1 _ (.inr ⟨fun hmatch => hkey hmatch.2, hends⟩),
    scan_gap h m.beforeColon (by decide) (by decide), scan_value h m.value m.afterColon m.after hc]

theorem scan_member_match {key : String} (h : Named key) (m : Member) (hkey : textOf m.key = text key) (rest : Bytes) :
    scan (text key) false (m.text ++ rest) = some (m.afterColon.val ++ m.value.text ++ m.after.val ++ rest) := by
  rw [member_split, scan_quiet _ _ (blank_clear m.before), scan_step _ (.inl rfl), hkey]
  have hafter : afterKey (quote :: (m.beforeColon.val ++ 0x3a :: (m.afterColon.val ++ m.value.text ++ m.after.val ++ rest))) =
      some (m.afterColon.val ++ m.value.text ++ m.after.val ++ rest) := by
    simp [afterKey, skipSpaces_blank m.beforeColon (b := 0x3a) (by decide)]
  obtain ⟨b, key', hcons⟩ := List.exists_cons_of_ne_nil h.1
  have hlead := List.prefix_append (text key)
    (quote :: (m.beforeColon.val ++ 0x3a :: (m.afterColon.val ++ m.value.text ++ m.after.val ++ rest)))
  have hdrop := @List.drop_left _ (text key)
    (quote :: (m.beforeColon.val ++ 0x3a :: (m.afterColon.val ++ m.value.text ++ m.after.val ++ rest)))
  generalize quote :: (m.beforeColon.val ++ 0x3a :: (m.afterColon.val ++ m.value.text ++ m.after.val ++ rest)) = tail at *
  rw [hcons] at hlead hdrop ⊢
  rw [List.cons_append] at hlead hdrop ⊢
  rw [scan, if_pos ⟨by decide, hlead⟩, hdrop, hafter]

theorem scan_members {key : String} (h : Named key) (ms : List Member) (trail : Blank)
    (hclear : ∀ m ∈ ms, textOf m.key = text key ∨ ¬ EndsQuoted (text key) m.key) :
    (∀ m, ms.find? (fun m => textOf m.key = text key) = some m → ∃ c rest, Mark c ∧
      scan (text key) false (membersText ms ++ 0x7d :: trail.val) =
        some (m.afterColon.val ++ m.value.text ++ m.after.val ++ c :: rest)) ∧
    (ms.find? (fun m => textOf m.key = text key) = none →
      scan (text key) false (membersText ms ++ 0x7d :: trail.val) = none) := by
  have hend : scan (text key) false trail.val = none := by
    simpa [scan] using scan_quiet trail.val [] (blank_clear trail)
  induction ms with
  | nil =>
      refine ⟨by simp, fun _ => ?_⟩
      rw [membersText, List.nil_append, scan_other _ (named_not_mem h (by decide)) h.1 (by decide), hend]
  | cons m ms ih =>
      obtain ⟨ihsome, ihnone⟩ := ih fun m' hm' => hclear m' (List.mem_cons_of_mem m hm')
      obtain ⟨c, rest, hc, htext, hrest⟩ : ∃ c rest, Mark c ∧ membersText (m :: ms) ++ 0x7d :: trail.val = m.text ++ c :: rest ∧
          scan (text key) false rest = scan (text key) false (membersText ms ++ 0x7d :: trail.val) := by
        cases ms with
        | nil =>
            refine ⟨0x7d, trail.val, .inr rfl, rfl, ?_⟩
            rw [membersText, List.nil_append, scan_other trail.val (named_not_mem h (by decide)) h.1 (by decide)]
        | cons m' ms => exact ⟨0x2c, membersText (m' :: ms) ++ 0x7d :: trail.val, .inl rfl, by simp [membersText], rfl⟩
      rw [htext]
      by_cases hkey : textOf m.key = text key
      · rw [List.find?_cons_of_pos (by simpa using hkey)]
        refine ⟨fun m' hm' => ?_, by simp⟩
        obtain rfl : m = m' := by simpa using hm'
        exact ⟨c, rest, hc, scan_member_match h m hkey _⟩
      · rw [List.find?_cons_of_neg (by simpa using hkey),
          scan_member_other h m hkey ((hclear m List.mem_cons_self).resolve_left hkey) hc, hrest]
        exact ⟨ihsome, ihnone⟩

/-! ### The values -/

def Item.Known : Item → Prop
  | .plain _ _ => True
  | .short c _ => c ≠ 0x62 ∧ c ≠ 0x66
  | .unicode _ _ => False

theorem terminated_text (items : List Item) (rest : Bytes) : terminated (textOf items ++ quote :: rest) = true := by
  have hskip : ∀ (part s : Bytes), backslash ∉ part → quote ∉ part → s ≠ [] → terminated (part ++ s) = terminated s := by
    intro part s hslash hquote hs
    induction part with
    | nil => rfl
    | cons b part ih =>
        obtain ⟨hb, hpart⟩ : backslash ≠ b ∧ backslash ∉ part := by simpa using hslash
        obtain ⟨hq, hpart'⟩ : quote ≠ b ∧ quote ∉ part := by simpa using hquote
        obtain ⟨c, r, hcons⟩ := List.exists_cons_of_ne_nil (show part ++ s ≠ [] by simp [hs])
        rw [List.cons_append, hcons, terminated, if_neg hq.symm, if_neg hb.symm, ← hcons, ih hpart hpart']
  induction items with
  | nil => cases rest <;> simp [textOf, terminated]
  | cons item items ih =>
      have hne : textOf items ++ quote :: rest ≠ [] := by simp
      cases item with
      | plain b hb =>
          change terminated ([b] ++ (textOf items ++ quote :: rest)) = true
          rw [hskip [b] _ (by simpa using hb.2.2.symm) (by simpa using hb.2.1.symm) hne, ih]
      | short c hc =>
          change terminated (backslash :: c :: (textOf items ++ quote :: rest)) = true
          rw [terminated, if_neg (by decide), if_pos rfl, ih]
      | unicode digits hd =>
          have hsplit : textOf (.unicode digits hd :: items) ++ quote :: rest =
              backslash :: 0x75 :: (digits ++ (textOf items ++ quote :: rest)) := by simp [textOf, Item.text]
          have hslash : backslash ∉ digits := fun hmem => absurd (hd.2 _ hmem) (by decide)
          rw [hsplit, terminated, if_neg (by decide), if_pos rfl,
            hskip digits _ hslash (fun hmem => hex_ne_quote (hd.2 _ hmem) rfl) hne, ih]

theorem escaped_known {c : UInt8} (hc : c ∈ text "\"\\/bfnrt") (h : c ≠ 0x62 ∧ c ≠ 0x66) : escaped c = shortValue c := by
  have hcases : c ∈ [0x22, 0x5c, 0x2f, 0x62, 0x66, 0x6e, 0x72, (0x74 : UInt8)] := hc
  simp only [List.mem_cons, List.not_mem_nil, or_false] at hcases
  obtain ⟨hb, hf⟩ := h
  rcases hcases with rfl | rfl | rfl | rfl | rfl | rfl | rfl | rfl <;> first | rfl | exact absurd rfl hb | exact absurd rfl hf

theorem unquote_known {items : List Item} {v : Bytes} (hknown : ∀ item ∈ items, item.Known) (hv : decode items = some v)
    (rest : Bytes) : unquote (textOf items ++ quote :: rest) = v := by
  induction items generalizing v with
  | nil =>
      obtain rfl : [] = v := by simpa [decode] using hv
      cases rest <;> simp [textOf, unquote]
  | cons item items ih =>
      have hrest := fun item hitem => hknown item (List.mem_cons_of_mem _ hitem)
      cases item with
      | plain b hb =>
          obtain ⟨w, hw, rfl⟩ := Option.map_eq_some_iff.mp hv
          obtain ⟨c, r, hcons⟩ := List.exists_cons_of_ne_nil (show textOf items ++ quote :: rest ≠ [] by simp)
          change unquote (b :: (textOf items ++ quote :: rest)) = _
          rw [hcons, unquote, if_neg hb.2.1, if_neg hb.2.2, ← hcons, ih hrest hw]
      | short c hc =>
          obtain ⟨w, hw, rfl⟩ := Option.map_eq_some_iff.mp hv
          change unquote (backslash :: c :: (textOf items ++ quote :: rest)) = _
          rw [unquote, if_neg (by decide), if_pos rfl, ih hrest hw,
            escaped_known hc (hknown (.short c hc) List.mem_cons_self)]
      | unicode digits hd => exact (hknown (.unicode digits hd) List.mem_cons_self).elim

def Value.Known : Value → Prop
  | .string items => ∀ item ∈ items, item.Known
  | .number n => n.fraction = none ∧ n.exponent = none
  | .word _ => True

theorem number_head (n : Number) : ∃ b s, n.text = b :: s ∧ (isDigit b = true ∨ b = 0x2d) := by
  obtain ⟨b, w, hcons⟩ : ∃ b w, n.whole = b :: w := by
    obtain h | ⟨b, w, h, -⟩ := n.whole_eq
    · exact ⟨_, _, h⟩
    · exact ⟨b, w, h⟩
  unfold Number.text
  rw [hcons]
  cases n.negative with
  | true => exact ⟨_, _, rfl, .inr rfl⟩
  | false => exact ⟨_, _, rfl, .inl (n.whole_digits b (by simp [hcons]))⟩

theorem readInt_number (n : Number) {tail : Bytes} (htail : ∀ b ∈ tail.head?, isDigit b = false) :
    readInt 64 ((if n.negative then [0x2d] else []) ++ (n.whole ++ tail)) = some (max (-(2 ^ 63)) (min
      (if n.negative then -(digitsValue n.whole : Int) else digitsValue n.whole) (2 ^ 63 - 1))) := by
  have hdigits : (n.whole ++ tail).takeWhile isDigit = n.whole := by
    rw [List.takeWhile_append_of_pos n.whole_digits]
    cases tail with
    | nil => simp
    | cons b tail => rw [List.takeWhile_cons_of_neg (by simpa using htail b rfl), List.append_nil]
  obtain ⟨b, w, hcons⟩ : ∃ b w, n.whole = b :: w := by
    obtain h | ⟨b, w, h, -⟩ := n.whole_eq
    · exact ⟨_, _, h⟩
    · exact ⟨b, w, h⟩
  have hminus : b ≠ 0x2d := by
    rintro rfl
    exact absurd (n.whole_digits _ (by rw [hcons]; exact List.mem_cons_self)) (by decide)
  have hne : n.whole ≠ [] := by rw [hcons]; exact List.cons_ne_nil _ _
  cases n.negative with
  | true =>
      simp only [readInt, if_true, List.singleton_append, hdigits, if_neg hne]
  | false =>
      have hstart : n.whole ++ tail = b :: (w ++ tail) := by rw [hcons]; rfl
      rw [if_neg Bool.false_ne_true, List.nil_append, hstart]
      simp only [readInt, if_neg hminus]
      rw [← hstart, hdigits, if_neg hne]

theorem readInt_other {b : UInt8} (hb : isDigit b = false ∧ b ≠ 0x2d) (rest : Bytes) : readInt 64 (b :: rest) = none := by
  simp [readInt, hb.1, hb.2]

/-! ### The extraction from an object -/

theorem items_nonzero (items : List Item) : 0 ∉ textOf items := by
  intro hmem
  obtain ⟨item, -, hmem⟩ := List.mem_flatMap.mp hmem
  cases item with
  | plain b hb =>
      obtain rfl : 0 = b := by simpa [Item.text] using hmem
      exact absurd hb.1 (by decide)
  | short c hc =>
      obtain h | h : 0 = backslash ∨ 0 = c := by simpa [Item.text] using hmem
      · exact absurd h (by decide)
      · subst h
        exact absurd hc (by decide)
  | unicode digits hd =>
      obtain h | h | h : 0 = backslash ∨ (0 : UInt8) = 0x75 ∨ 0 ∈ digits := by simpa [Item.text] using hmem
      · exact absurd h (by decide)
      · exact absurd h (by decide)
      · exact absurd (hd.2 0 h) (by decide)

theorem blank_nonzero (part : Blank) : 0 ∉ part.val := fun hmem => absurd (part.property 0 hmem) (by decide)

theorem value_nonzero (v : Value) : 0 ∉ v.text := by
  cases v with
  | string items =>
      have hitems := items_nonzero items
      simp [Value.text, hitems, quote]
  | number n => exact number_free (by decide) (by decide) n
  | word w => cases w <;> decide

theorem members_nonzero (ms : List Member) : 0 ∉ membersText ms := by
  have hmember (m : Member) : 0 ∉ m.text := by
    simp [Member.text, blank_nonzero, items_nonzero, value_nonzero, quote]
  induction ms with
  | nil => simp [membersText]
  | cons m ms ih =>
      cases ms with
      | nil => exact hmember m
      | cons => simp [membersText, hmember m, ih]

theorem text_nonzero (o : FlatObject) : 0 ∉ o.text := by
  unfold FlatObject.text
  split <;> simp [blank_nonzero, members_nonzero]

def FlatObject.json (o : FlatObject) : CString := ⟨o.text, text_nonzero o⟩

def FlatObject.member (o : FlatObject) (key : String) : Option Member :=
  o.members.find? fun m => decode m.key = some (JsonMin.text key)

/-- `json_extract_str` finds exactly the members with a string and yields its value, cut to the array. -/
def ReadsStr (o : FlatObject) (key : String) : Prop :=
  ∀ maxLen, 0 < maxLen → match (o.member key).map Member.value with
    | some (.string items) => (jsonExtractStr o.json key maxLen).1 = true ∧
        ∀ v, decode items = some v → (jsonExtractStr o.json key maxLen).2 = v.take (maxLen - 1)
    | _ => (jsonExtractStr o.json key maxLen).1 = false

/-- `json_extract_int64` finds exactly the members with a number and yields its value where it is an integer in range. -/
def ReadsInt (o : FlatObject) (key : String) : Prop :=
  match (o.member key).map Member.value with
  | some (.number n) => (extractInt64 o.json key).isSome ∧
      ∀ i : Int, n.value = i → -(2 ^ 63) ≤ i → i < 2 ^ 63 → extractInt64 o.json key = some i
  | _ => extractInt64 o.json key = none

/-- The key that is asked for is written without escapes, no other key ends in an escaped quote and that key, and the
value is one that is read as it is meant. -/
def Legible (o : FlatObject) (key : String) : Prop :=
  ∀ m ∈ o.members, (textOf m.key = text key ∧ m.value.Known) ∨
    (textOf m.key ≠ text key ∧ decode m.key ≠ some (text key) ∧ ¬ EndsQuoted (text key) m.key)

theorem decode_plain {items : List Item} (h : backslash ∉ textOf items) : decode items = some (textOf items) := by
  induction items with
  | nil => rfl
  | cons item items ih =>
      cases item with
      | plain b hb =>
          have hrest : backslash ∉ textOf items := fun hmem => h (List.mem_cons_of_mem b hmem)
          change (decode items).map (b :: ·) = _
          rw [ih hrest]
          rfl
      | short c hc | unicode digits hd => exact absurd List.mem_cons_self h

section Extraction

variable {o : FlatObject} {key : String} (hnamed : Named key) (hlegible : Legible o key)

include hnamed hlegible

theorem member_eq : o.member key = o.members.find? fun m => textOf m.key = text key := by
  refine List.find?_congr fun m hm => ?_
  obtain ⟨heq, -⟩ | ⟨hne, hdecode, -⟩ := hlegible m hm
  · rw [decode_plain (by rw [heq]; exact named_not_mem hnamed (by decide)), heq]
    simp
  · simp [hne, hdecode]

theorem findKeyColon_eq :
    (∀ m, o.member key = some m → m.value.Known ∧ ∃ c rest, Mark c ∧
      findKeyColon o.json key = some (m.afterColon.val ++ m.value.text ++ m.after.val ++ c :: rest)) ∧
    (o.member key = none → findKeyColon o.json key = none) := by
  rw [member_eq hnamed hlegible]
  have hclear : ∀ m ∈ o.members, textOf m.key = text key ∨ ¬ EndsQuoted (text key) m.key := fun m hm =>
    (hlegible m hm).imp And.left fun h => h.2.2
  obtain ⟨hsome, hnone⟩ := scan_members hnamed o.members o.trail hclear
  have hfind : findKeyColon o.json key = scan (text key) false (membersText o.members ++ 0x7d :: o.trail.val) := by
    have hscan := scanKey_eq (named_not_mem hnamed (by decide)) hnamed.1 0 none o.text (by simp) (by omega)
    have hopen : scan (text key) false o.text = scan (text key) false
        ((if o.members = [] then o.inside.val else membersText o.members) ++ 0x7d :: o.trail.val) :=
      scan_gap hnamed o.lead (by decide) (by decide) _ false
    change scanKey (text key) 0 none o.text = _
    rw [hscan, show ((none : Option UInt8) == some quote) = false from rfl, hopen]
    split
    next hempty =>
      rw [hempty, membersText, List.nil_append, scan_gap hnamed o.inside (by decide) (by decide) _ false,
        scan_other _ (named_not_mem hnamed (by decide)) hnamed.1 (by decide)]
    next => rfl
  rw [hfind]
  refine ⟨fun m hm => ⟨?_, hsome m hm⟩, hnone⟩
  obtain ⟨-, hknown⟩ | ⟨hne, -⟩ := hlegible m (List.mem_of_find?_eq_some hm)
  · exact hknown
  · exact absurd (by simpa using List.find?_some hm) hne

end Extraction

theorem value_head (v : Value) : ∃ b s, v.text = b :: s ∧ isSpace b = false := by
  cases v with
  | string items => exact ⟨quote, _, rfl, by decide⟩
  | number n =>
      obtain ⟨b, s, heq, hb⟩ := number_head n
      refine ⟨b, s, heq, ?_⟩
      obtain hdigit | rfl := hb
      · by_contra hspace
        have hrange : (0x30 : UInt8) ≤ b := by simp [isDigit] at hdigit; exact hdigit.1
        have hblank : b = 0x20 ∨ (0x09 : UInt8) ≤ b ∧ b ≤ 0x0d := by simpa [isSpace, or_iff_not_imp_left] using hspace
        obtain rfl | ⟨-, hle⟩ := hblank
        · exact absurd hrange (by decide)
        · exact absurd (UInt8.le_trans hrange hle) (by decide)
      · decide
  | word w => cases w <;> exact ⟨_, _, rfl, by decide⟩

theorem value_eq {n : Number} (hf : n.fraction = none) (he : n.exponent = none) {i : Int} (h : n.value = i) :
    (if n.negative then -(digitsValue n.whole : Int) else digitsValue n.whole) = i := by
  simp only [Number.value, hf, he, Option.getD_none, Option.map_none, List.append_nil, List.length_nil, Nat.cast_zero, sub_zero,
    zpow_zero, mul_one] at h
  cases hneg : n.negative with
  | true =>
      rw [hneg] at h
      simp only [if_true] at h ⊢
      exact_mod_cast (by simpa using h : -(digitsValue n.whole : ℚ) = i)
  | false =>
      rw [hneg] at h
      simp only [Bool.false_eq_true, if_false, one_mul] at h ⊢
      exact_mod_cast h

namespace Samples

def none' : Blank := ⟨[], by simp⟩

def letter : Item := .plain 0x61 (by decide)

def single (key : List Item) (value : Value) : FlatObject where
  lead := none'
  inside := none'
  members := [⟨none', key, none', none', value, none'⟩]
  trail := none'
  distinct := by simp

def escapedLetter : FlatObject := single [letter] (.string [.unicode [0x30, 0x34, 0x31, 0x36] ⟨rfl, List.all_eq_true.mp rfl⟩])

def quotedKey : FlatObject := single [.short quote (by decide), letter] (.number ⟨false, [0x31], none, none,
  .inr ⟨0x31, [], rfl, by decide⟩, List.all_eq_true.mp rfl, by simp⟩)

def thousand : FlatObject := single [letter] (.number ⟨false, [0x31], none,
  some ⟨0x65, none, [0x33], .inl rfl, by decide, List.all_eq_true.mp rfl⟩, .inr ⟨0x31, [], rfl, by decide⟩, List.all_eq_true.mp rfl, by simp⟩)

def whole : FlatObject := single [letter] (.number ⟨true, [0x31, 0x32], none, none,
  .inr ⟨0x31, [0x32], rfl, by decide⟩, List.all_eq_true.mp rfl, by simp⟩)

end Samples

end EtranProcessing.Desk.FieldExtraction
