import EtranProcessing.Desk.CaptureAdapter

namespace EtranProcessing.Desk.JsonMin

open CaptureAdapter

abbrev Field (size : Nat) := { s : List UInt8 // 0 ∉ s ∧ s.length < size }

def Field.str {size : Nat} (f : Field size) : CString := ⟨f.val, f.property.1⟩

def text (s : String) : List UInt8 := s.toList.map fun c => UInt8.ofNat c.toNat

def quote : UInt8 := 0x22
def backslash : UInt8 := 0x5c

def isSpace (b : UInt8) : Bool := b = 0x20 || (0x09 ≤ b && b ≤ 0x0d)
def isDigit (b : UInt8) : Bool := 0x30 ≤ b && b ≤ 0x39

def skipSpaces (s : List UInt8) : List UInt8 := s.dropWhile isSpace

/-- What follows the quote and the colon after a key. -/
def afterKey (s : List UInt8) : Option (List UInt8) :=
  match s with
  | [] => none
  | b :: rest =>
      if b = quote then
        match skipSpaces rest with
        | c :: value => if c = 0x3a then some value else none
        | [] => none
      else none

/-- The search for a quoted key: after a hit that is none, it goes on behind it. -/
def scanKey (key : List UInt8) : Nat → Option UInt8 → List UInt8 → Option (List UInt8)
  | _, _, [] => none
  | skip + 1, _, b :: rest => scanKey key skip (some b) rest
  | 0, before, b :: rest =>
      if key <+: b :: rest then
        match if before = some quote then afterKey ((b :: rest).drop key.length) else none with
        | some value => some value
        | none => scanKey key (key.length - 1) (some b) rest
      else scanKey key 0 (some b) rest

def findKeyColon (json : CString) (key : String) : Option (List UInt8) := scanKey (text key) 0 none json.val

def escaped (b : UInt8) : UInt8 := if b = 0x6e then 0x0a else if b = 0x72 then 0x0d else if b = 0x74 then 0x09 else b

/-- The characters of a string up to its closing quote. -/
def unquote : List UInt8 → List UInt8
  | [] => []
  | [b] => if b = quote then [] else [b]
  | b :: c :: rest =>
      if b = quote then []
      else if b = backslash then escaped c :: unquote rest
      else b :: unquote (c :: rest)

def stringValue (json : CString) (key : String) : List UInt8 :=
  match (findKeyColon json key).map skipSpaces with
  | some (b :: rest) => if b = quote then unquote rest else []
  | _ => []

theorem afterKey_suffix {s value : List UInt8} (h : afterKey s = some value) : value <:+ s := by
  cases s with
  | nil => cases h
  | cons b rest =>
      unfold afterKey at h
      dsimp only at h
      split at h
      · split at h
        · next c v hskip =>
            split_ifs at h
            obtain rfl := Option.some.inj h
            have hdrop : c :: v <:+ rest := hskip ▸ List.dropWhile_suffix _
            exact ((List.suffix_cons c v).trans hdrop).trans (List.suffix_cons b rest)
        · cases h
      · cases h

theorem scanKey_suffix {key json value : List UInt8} {skip : Nat} {before : Option UInt8}
    (h : scanKey key skip before json = some value) : value <:+ json := by
  induction json generalizing skip before with
  | nil => cases skip <;> cases h
  | cons b rest ih =>
      cases skip with
      | succ skip => exact (ih h).trans (List.suffix_cons b rest)
      | zero =>
          unfold scanKey at h
          split at h
          · split at h
            · next v hfound =>
                obtain rfl := Option.some.inj h
                split_ifs at hfound
                exact (afterKey_suffix hfound).trans (List.drop_suffix _ _)
            · exact (ih h).trans (List.suffix_cons b rest)
          · exact (ih h).trans (List.suffix_cons b rest)

theorem escaped_nonzero {b : UInt8} (h : 0 ≠ b) : 0 ≠ escaped b := by
  unfold escaped
  split_ifs
  · decide
  · decide
  · decide
  · exact h

theorem unquote_nonzero {s : List UInt8} (h : 0 ∉ s) : 0 ∉ unquote s := by
  induction s using unquote.induct with
  | case1 => simp [unquote]
  | case2 => simp [unquote, *]
  | case3 b hb => simpa [unquote, hb] using h
  | case4 c rest => simp [unquote]
  | case5 c rest hquote ih =>
      simp only [List.mem_cons, not_or] at h
      rw [unquote, if_neg hquote, if_pos rfl, List.mem_cons, not_or]
      exact ⟨escaped_nonzero h.2.1, ih h.2.2⟩
  | case6 b c rest hquote hslash ih =>
      simp only [List.mem_cons, not_or] at h
      rw [unquote, if_neg hquote, if_neg hslash, List.mem_cons, not_or]
      exact ⟨h.1, ih (by simp [h.2])⟩

theorem stringValue_nonzero (json : CString) (key : String) : 0 ∉ stringValue json key := by
  unfold stringValue
  split
  · next b rest hvalue =>
      split_ifs
      · obtain ⟨value, hfound, hskip⟩ := Option.map_eq_some_iff.mp hvalue
        have hsuffix : b :: rest <:+ json.val :=
          (hskip ▸ List.dropWhile_suffix _ : b :: rest <:+ value).trans (scanKey_suffix hfound)
        exact unquote_nonzero fun hzero => json.property (hsuffix.mem (List.mem_cons_of_mem b hzero))
      · simp
  · simp

def extractStr (json : CString) (key : String) (maxLen : Nat) (h : 0 < maxLen := by decide) : Field maxLen :=
  ⟨(stringValue json key).take (maxLen - 1), fun hzero => stringValue_nonzero json key (List.mem_of_mem_take hzero), by
    rw [List.length_take]
    omega⟩

def digitsValue (digits : List UInt8) : Nat := digits.foldl (fun n d => 10 * n + (d.toNat - 0x30)) 0

/-- The decimal number at the start, kept within its width. -/
def readInt (bits : Nat) (s : List UInt8) : Option Int :=
  let (negative, s) := match s with
    | b :: rest => if b = 0x2d then (true, rest) else (false, s)
    | [] => (false, [])
  let digits := s.takeWhile isDigit
  if digits = [] then none
  else
    let value : Int := if negative then -(digitsValue digits : Int) else digitsValue digits
    some (max (-(2 ^ (bits - 1))) (min value (2 ^ (bits - 1) - 1)))

def extractInteger (bits : Nat) (json : CString) (key : String) : Option Int :=
  (findKeyColon json key).bind fun value => readInt bits (skipSpaces value)

def extractInt (json : CString) (key : String) : Option Int := extractInteger 32 json key
def extractInt64 (json : CString) (key : String) : Option Int := extractInteger 64 json key

end EtranProcessing.Desk.JsonMin
