import EtranProcessing.Ingress.MediaV2
import EtranProcessing.Library.RawMemory

namespace EtranProcessing.Ingress.JanusAnswer

open State JsonText MediaV2 Library.Buffers Library.RawMemory

def crlf : CString := [13, 10]
def responseSize : Nat := 65536

def hexDigitValue (c : UInt8) : Nat :=
  if c ≤ 57 then c.toNat - 48 else if c ≤ 70 then c.toNat - 55 else c.toNat - 87

def hexValue (digits : CString) : Nat := digits.foldl (fun n c => n * 16 + hexDigitValue c) 0

def skipSign (s : CString) : CString := if s.head? = some 45 ∨ s.head? = some 43 then s.tail else s

def skipHexPrefix : CString → CString
  | 48 :: x :: d :: rest => if (x = 120 ∨ x = 88) ∧ isHexDigit d then d :: rest else 48 :: x :: d :: rest
  | s => s

def wrapped (negative : Bool) (magnitude : Nat) : Nat :=
  if negative then (2 ^ 64 - magnitude) % 2 ^ 64 else magnitude

def strtoul16 (s : CString) : Option (Nat × CString) :=
  let text := s.dropWhile isSpace
  let numeral := skipHexPrefix (skipSign text)
  let digits := numeral.takeWhile isHexDigit
  if digits = [] ∨ 2 ^ 64 ≤ hexValue digits then none
  else some (wrapped (text.head? == some 45) (hexValue digits), numeral.dropWhile isHexDigit)

/-- The loop over the chunks. The reads of a chunk go up to the terminating NUL,
the copies into an array of the same size as the response. -/
def mjDecode : Nat → CString → CString → Checked (Option CString)
  | 0, _, _ => .refused
  | fuel + 1, chunk, decoded =>
      if chunk = [] then .done none
      else
        match strtoul16 chunk, strstr crlf chunk with
        | some (count, stop), some line =>
            if stop.length < line.length then .done none
            else
              let chunk := line.drop 2
              if count = 0 then do
                let _ ← minus responseSize (decoded.length + 1)
                .done (some decoded)
              else do
                let room ← minus responseSize decoded.length
                if room ≤ count ∨ chunk.length < count + 2 then .done none
                else do
                  let stop ← readAt chunk count 2
                  if stop ≠ crlf then .done none
                  else do
                    let data ← readAt chunk 0 count
                    let _ ← minus responseSize (decoded.length + count)
                    mjDecode fuel (chunk.drop (count + 2)) (decoded ++ data)
        | _, _ => .done none

def strcasestr (needle text : CString) : Option CString :=
  let lower (c : UInt8) : UInt8 := if 65 ≤ c ∧ c ≤ 90 then c + 32 else c
  strstr (needle.map lower) (text.map lower)

/-- The text of a response that mj_request hands to json_loads. -/
def mjText (response : CString) : Checked (Option CString) :=
  match strstr (crlf ++ crlf) response with
  | none => .done (some response)
  | some rest =>
      if (strcasestr (bytes "Transfer-Encoding: chunked") response).isSome then
        mjDecode ((rest.drop 4).length + 1) (rest.drop 4) []
      else .done (some (rest.drop 4))

structure Announced (response coded : CString) : Prop where
  body : strstr (crlf ++ crlf) response = some (crlf ++ crlf ++ coded)
  chunked : (strcasestr (bytes "Transfer-Encoding: chunked") response).isSome = true

structure HttpSize (line : CString) (size : Nat) : Prop where
  parts : ∃ digits extension, line = digits ++ extension ∧ digits ≠ [] ∧ (∀ c ∈ digits, isHexDigit c = true) ∧
    (∀ c ∈ extension.head?, isHexDigit c = false ∧ c ≠ 120 ∧ c ≠ 88) ∧ hexValue digits = size
  oneLine : ¬ crlf <:+: line

/-- The chunked coding of a body; a trailer may follow the last chunk. -/
inductive Coded : CString → CString → Prop
  | last {line} (trailer : CString) (size : HttpSize line 0) : Coded (line ++ (crlf ++ trailer)) []
  | chunk {line data rest body} (size : HttpSize line data.length) (some : data ≠ []) (coded : Coded rest body) :
      Coded (line ++ (crlf ++ (data ++ (crlf ++ rest)))) (data ++ body)

/-- A size line as strtoul reads it: blanks, a sign and a prefix may stand
before the digits, and a negative number wraps. -/
structure SizeLine (line : CString) (size : Nat) : Prop where
  parts : ∃ blanks sign lead digits extension, line = blanks ++ (sign ++ (lead ++ (digits ++ extension))) ∧
    (∀ c ∈ blanks, isSpace c = true) ∧ (sign = [] ∨ sign = [43] ∨ sign = [45]) ∧
    (lead = [] ∨ lead = [48, 120] ∨ lead = [48, 88]) ∧ digits ≠ [] ∧ (∀ c ∈ digits, isHexDigit c = true) ∧
    (∀ c ∈ extension.head?, isHexDigit c = false) ∧ hexValue digits < 2 ^ 64 ∧
    size = wrapped (sign == [45]) (hexValue digits)
  oneLine : ¬ crlf <:+: line

/-- Chunks whose data have the size that their line gives. -/
inductive Matched : CString → CString → Prop
  | last {line} (trailer : CString) (size : SizeLine line 0) : Matched (line ++ (crlf ++ trailer)) []
  | chunk {line data rest body} (size : SizeLine line data.length) (some : data ≠ []) (matched : Matched rest body) :
      Matched (line ++ (crlf ++ (data ++ (crlf ++ rest)))) (data ++ body)

theorem strstr_line {line : CString} (h : ¬ crlf <:+: line) (rest : CString) :
    strstr crlf (line ++ (crlf ++ rest)) = some (crlf ++ rest) := by
  induction line with
  | nil => rfl
  | cons c line ih =>
      have hinner : ¬ crlf <:+: line := by
        intro hmid
        exact h (hmid.trans (List.suffix_cons c line).isInfix)
      have hnot : crlf.isPrefixOf (c :: (line ++ (crlf ++ rest))) = false := by
        cases line with
        | nil => simp [crlf, List.isPrefixOf]
        | cons d line =>
            rw [Bool.eq_false_iff]
            intro hlead
            apply h
            simp only [crlf, List.cons_append, List.isPrefixOf, Bool.and_eq_true, beq_iff_eq] at hlead
            rw [← hlead.1, ← hlead.2.1]
            exact ⟨[], line, rfl⟩
      rw [List.cons_append, strstr, hnot]
      exact ih hinner

theorem strstr_first {text rest : CString} (h : strstr crlf text = some rest) :
    ∃ line tail, text = line ++ (crlf ++ tail) ∧ rest = crlf ++ tail ∧ ¬ crlf <:+: line := by
  induction text with
  | nil => simp [strstr, crlf] at h
  | cons c text ih =>
      rw [strstr] at h
      split at h
      next hlead =>
        obtain ⟨tail, htail⟩ := List.isPrefixOf_iff_prefix.mp hlead
        obtain rfl := Option.some.inj h
        exact ⟨[], tail, htail.symm, htail.symm, by simp [crlf]⟩
      next hlead =>
        obtain ⟨line, tail, rfl, hrest, hline⟩ := ih h
        refine ⟨c :: line, tail, rfl, hrest, ?_⟩
        intro hmid
        obtain hfront | hinner := List.infix_cons_iff.mp hmid
        · apply hlead
          apply List.isPrefixOf_iff_prefix.mpr
          exact hfront.trans (List.prefix_append _ _)
        · exact hline hinner

theorem skipSign_split (s : CString) :
    ∃ sign, s = sign ++ skipSign s ∧ (sign = [] ∨ sign = [43] ∨ sign = [45]) ∧
      (s.head? == some 45) = (sign == [45]) := by
  rw [skipSign]
  split
  next h =>
    cases s with
    | nil => simp at h
    | cons c s =>
        obtain hminus | hplus := h
        · obtain rfl : c = 45 := Option.some.inj hminus
          exact ⟨[45], rfl, .inr (.inr rfl), rfl⟩
        · obtain rfl : c = 43 := Option.some.inj hplus
          exact ⟨[43], rfl, .inr (.inl rfl), rfl⟩
  next h =>
    rw [not_or] at h
    exact ⟨[], rfl, .inl rfl, by simpa using h.1⟩

theorem skipHexPrefix_split (s : CString) :
    ∃ lead, s = lead ++ skipHexPrefix s ∧ (lead = [] ∨ lead = [48, 120] ∨ lead = [48, 88]) := by
  rw [skipHexPrefix.eq_def]
  split
  next x d rest =>
    split
    next h =>
      obtain ⟨rfl | rfl, -⟩ := h
      · exact ⟨[48, 120], rfl, .inr (.inl rfl)⟩
      · exact ⟨[48, 88], rfl, .inr (.inr rfl)⟩
    next => exact ⟨[], rfl, .inl rfl⟩
  next => exact ⟨[], rfl, .inl rfl⟩

theorem strtoul16_split {s stop : CString} {n : Nat} (h : strtoul16 s = some (n, stop)) :
    ∃ blanks sign lead digits, s = blanks ++ (sign ++ (lead ++ (digits ++ stop))) ∧
      (∀ c ∈ blanks, isSpace c = true) ∧ (sign = [] ∨ sign = [43] ∨ sign = [45]) ∧
      (lead = [] ∨ lead = [48, 120] ∨ lead = [48, 88]) ∧ digits ≠ [] ∧ (∀ c ∈ digits, isHexDigit c = true) ∧
      (∀ c ∈ stop.head?, isHexDigit c = false) ∧ hexValue digits < 2 ^ 64 ∧
      n = wrapped (sign == [45]) (hexValue digits) := by
  simp only [strtoul16, Option.ite_none_left_eq_some, Option.some.injEq, Prod.mk.injEq, not_or, not_le] at h
  obtain ⟨⟨hdigits, hvalue⟩, hn, hstop⟩ := h
  obtain ⟨sign, hsign, hsigns, hminus⟩ := skipSign_split (s.dropWhile isSpace)
  obtain ⟨lead, hlead, hleads⟩ := skipHexPrefix_split (skipSign (s.dropWhile isSpace))
  refine ⟨s.takeWhile isSpace, sign, lead, _, ?_, ?_, hsigns, hleads, hdigits, ?_, ?_, hvalue, ?_⟩
  · rw [← hstop, List.takeWhile_append_dropWhile, ← hlead, ← hsign, List.takeWhile_append_dropWhile]
  · intro c hc
    exact List.mem_takeWhile_imp hc
  · intro c hc
    exact List.mem_takeWhile_imp hc
  · intro c hc
    rw [← hstop] at hc
    have hnone := List.head?_dropWhile_not isHexDigit (skipHexPrefix (skipSign (s.dropWhile isSpace)))
    rw [Option.mem_def.mp hc] at hnone
    simpa using hnone
  · rw [← hminus, hn]

theorem sizeLine_of_strtoul {line rest stop : CString} {n : Nat} (hline : ¬ crlf <:+: line)
    (h : strtoul16 (line ++ (crlf ++ rest)) = some (n, stop)) (hstop : (crlf ++ rest).length ≤ stop.length) :
    SizeLine line n := by
  obtain ⟨blanks, sign, lead, digits, heq, hblanks, hsign, hlead, hdigits, hhex, hhead, hvalue, hn⟩ :=
    strtoul16_split h
  have hparts : line ++ (crlf ++ rest) = (blanks ++ (sign ++ (lead ++ digits))) ++ stop := by
    rw [heq]
    simp only [List.append_assoc]
  obtain ⟨extension, hext⟩ : ∃ extension, stop = extension ++ (crlf ++ rest) := by
    obtain ⟨a, -, ha⟩ | ⟨b, hb, hb'⟩ := List.append_eq_append_iff.mp hparts
    · have hlen := congrArg List.length ha
      simp only [List.length_append] at hlen hstop
      have hnil : a = [] := List.length_eq_zero_iff.mp (by omega)
      exact ⟨[], by rw [ha, hnil]; rfl⟩
    · exact ⟨b, hb'⟩
  subst hext
  refine ⟨⟨blanks, sign, lead, digits, extension, ?_, hblanks, hsign, hlead, hdigits, hhex, ?_, hvalue, hn⟩, hline⟩
  · apply @List.append_cancel_right _ _ (crlf ++ rest)
    rw [heq]
    simp only [List.append_assoc]
  · intro c hc
    apply hhead
    cases extension with
    | nil => simp at hc
    | cons => exact hc

theorem hexDigit_plain {c : UInt8} (h : isHexDigit c = true) :
    isSpace c = false ∧ c ≠ 45 ∧ c ≠ 43 ∧ c ≠ 120 ∧ c ≠ 88 := by
  simp only [isHexDigit, isSpace] at h ⊢
  grind

theorem skipHexPrefix_self {s : CString} (h : ∀ c ∈ s.tail.head?, c ≠ 120 ∧ c ≠ 88) : skipHexPrefix s = s := by
  rw [skipHexPrefix.eq_def]
  split
  next x d rest =>
    have hx := h x rfl
    rw [if_neg]
    rintro ⟨rfl | rfl, -⟩
    · exact hx.1 rfl
    · exact hx.2 rfl
  next => rfl

theorem digits_stop {digits stop : CString} (hhex : ∀ c ∈ digits, isHexDigit c = true)
    (hstop : ∀ c ∈ stop.head?, isHexDigit c = false) :
    (digits ++ stop).takeWhile isHexDigit = digits ∧ (digits ++ stop).dropWhile isHexDigit = stop := by
  rw [List.takeWhile_append_of_pos hhex, List.dropWhile_append_of_pos hhex]
  cases stop with
  | nil => simp
  | cons c stop =>
      have hc : ¬ isHexDigit c = true := by
        rw [hstop c rfl]
        exact Bool.false_ne_true
      rw [List.takeWhile_cons_of_neg hc, List.dropWhile_cons_of_neg hc, List.append_nil]
      exact ⟨rfl, rfl⟩

theorem strtoul16_http {line rest : CString} {size : Nat} (h : HttpSize line size) (hsize : size < 2 ^ 64) :
    ∃ extension, strtoul16 (line ++ (crlf ++ rest)) = some (size, extension ++ (crlf ++ rest)) := by
  obtain ⟨digits, extension, rfl, hne, hhex, hext, rfl⟩ := h.parts
  refine ⟨extension, ?_⟩
  have hafter : ∀ c ∈ (extension ++ (crlf ++ rest)).head?, isHexDigit c = false ∧ c ≠ 120 ∧ c ≠ 88 := by
    intro c hc
    cases extension with
    | nil =>
        obtain rfl : 13 = c := Option.some.inj hc
        decide
    | cons => exact hext c hc
  generalize hend : extension ++ (crlf ++ rest) = stop at hafter ⊢
  rw [List.append_assoc, hend]
  obtain ⟨htake, hdrop⟩ := digits_stop hhex fun c hc => (hafter c hc).1
  cases digits with
  | nil => exact absurd rfl hne
  | cons d digits =>
      obtain ⟨hblank, hminus, hplus, -⟩ := hexDigit_plain (hhex d List.mem_cons_self)
      have htext : (d :: digits ++ stop).dropWhile isSpace = d :: digits ++ stop := by
        rw [List.cons_append, List.dropWhile_cons_of_neg (by simp [hblank])]
      have hsign : skipSign (d :: digits ++ stop) = d :: digits ++ stop := by
        rw [skipSign, if_neg (by simp [hminus, hplus])]
      have hlead : skipHexPrefix (d :: digits ++ stop) = d :: digits ++ stop := by
        apply skipHexPrefix_self
        intro c hc
        cases digits with
        | nil => exact (hafter c hc).2
        | cons e digits =>
            obtain rfl : e = c := Option.some.inj hc
            exact (hexDigit_plain (hhex e (by simp))).2.2.2
      have hhead : ((d :: digits ++ stop).head? == some 45) = false := by simpa using hminus
      simp only [strtoul16, htext, hsign, hlead, htake, hdrop, hhead, wrapped]
      rw [if_neg (by simpa using hsize)]
      rfl

end EtranProcessing.Ingress.JanusAnswer
