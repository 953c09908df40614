import EtranProcessing.Ingress.State

namespace EtranProcessing.Ingress.JsonText

open State

/-! The text search the legacy endpoints read their bodies with. It finds keys
by the first occurrence of their quoted name, wherever that stands. -/

def strstr (needle : CString) : CString → Option CString
  | [] => if needle.isEmpty then some [] else none
  | c :: rest => if needle.isPrefixOf (c :: rest) then some (c :: rest) else strstr needle rest

theorem strstr_split {needle text rest : CString} (h : strstr needle text = some rest) :
    ∃ before, text = before ++ rest ∧ needle <+: rest := by
  induction text with
  | nil =>
      simp only [strstr, Option.ite_none_right_eq_some, Option.some.injEq, List.isEmpty_iff] at h
      obtain ⟨rfl, rfl⟩ := h
      exact ⟨[], rfl, List.nil_prefix⟩
  | cons c text ih =>
      simp only [strstr] at h
      split at h
      next hfound =>
        obtain rfl := Option.some.inj h
        exact ⟨[], rfl, List.isPrefixOf_iff_prefix.mp hfound⟩
      · obtain ⟨before, rfl, hprefix⟩ := ih h
        exact ⟨c :: before, rfl, hprefix⟩

def isBlank (c : UInt8) : Bool := c == 32 || c == 9 || c == 13 || c == 10

def isSpace (c : UInt8) : Bool := c == 32 || (9 ≤ c && c ≤ 13)

def isDigit (c : UInt8) : Bool := 48 ≤ c && c ≤ 57

def quote : UInt8 := 34
def backslash : UInt8 := 92

def jsonFindKey (json : CString) (key : String) : Option CString :=
  let needle := quote :: bytes key ++ [quote]
  (strstr needle json).bind fun p =>
    match (p.drop needle.length).dropWhile isBlank with
    | [] => none
    | c :: rest => if c = 58 then some (rest.dropWhile isBlank) else none

/-- Copy up to the closing quote or the end of the buffer; a backslash makes
the next character ordinary. -/
def copyString : Nat → CString → CString
  | 0, _ => []
  | _, [] => []
  | room + 1, c :: rest =>
      if c = quote then []
      else if c = backslash then
        match rest with
        | [] => [c]
        | d :: rest => d :: copyString room rest
      else c :: copyString room rest

def jsonGetString (json : CString) (key : String) (size : Nat) : CString :=
  match jsonFindKey json key with
  | some (c :: rest) => if c = quote then copyString (size - 1) rest else []
  | _ => []

/-- Sign, magnitude and rest of the decimal number strtol would read. -/
def scanNumber (text : CString) : Option (Bool × Nat × CString) :=
  let text := text.dropWhile isSpace
  let negative := text.head? == some 45
  let text := if text.head? = some 45 ∨ text.head? = some 43 then text.tail else text
  let digits := text.takeWhile isDigit
  if digits = [] then none
  else some (negative, digits.foldl (fun n c => n * 10 + (c.toNat - 48)) 0, text.dropWhile isDigit)

def signed (negative : Bool) (magnitude : Nat) : Int := if negative then -magnitude else magnitude

def jsonGetInt (json : CString) (key : String) (default : Int) : Int :=
  match (jsonFindKey json key).bind scanNumber with
  | none => default
  | some (negative, magnitude, _) =>
      Int.bmod (max (-(2 ^ 63)) (min (2 ^ 63 - 1) (signed negative magnitude))) (2 ^ 32)

def jsonGetUint32 (json : CString) (key : String) (default : Nat) : Nat :=
  match (jsonFindKey json key).bind scanNumber with
  | none => default
  | some (negative, magnitude, _) =>
      (if 2 ^ 64 ≤ magnitude then 2 ^ 64 - 1
        else if negative then (2 ^ 64 - magnitude) % 2 ^ 64 else magnitude) % 2 ^ 32

/-- The lease bound of a legacy request: its remaining seconds and whether it
names a deadline at all; none when the deadline is malformed or out of range. -/
def mediaLeaseTtl (body : CString) (now ttl : Int) : Option (Int × Bool) :=
  match jsonFindKey body "lease_expires_at" with
  | none => some (ttl, false)
  | some value =>
      match scanNumber value with
      | none => none
      | some (negative, magnitude, rest) =>
          let expiry := signed negative magnitude
          let stop := (rest.dropWhile isBlank).head?
          if expiry < -(2 ^ 63) ∨ 2 ^ 63 ≤ expiry then none
          else if stop ≠ some 44 ∧ stop ≠ some 125 then none
          else if expiry ≤ now ∨ 7200 < expiry - now then none
          else some (expiry - now, true)

end EtranProcessing.Ingress.JsonText
