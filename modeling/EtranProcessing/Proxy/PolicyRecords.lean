import EtranProcessing.Proxy.PolicyTable
import EtranProcessing.Library.Preference

namespace EtranProcessing.Proxy.PolicyRecords

open Library.Json PolicyJson

def graceSeconds : UInt64 := 72 * 60 * 60

def maxSnLen : Nat := 128
def factsSize : Nat := 1024

abbrev CText (size : Nat) := { s : List Char // '\x00' ∉ s ∧ s.length < size }

abbrev Sn := CText maxSnLen

def factChar (c : Char) : Bool := ('a' ≤ c && c ≤ 'z') || ('0' ≤ c && c ≤ '9') || c == '_'

abbrev Facts := { s : List Char // (s.all fun c => factChar c || c == ',') = true ∧ s.length < factsSize }

def Facts.none : Facts := ⟨[], by decide⟩

structure PolicyRecord where
  sn : Sn
  generation : UInt64
  lastSuccessAt : UInt64
  offlineAllowedUntil : UInt64
  known : Bool
  allowed : Bool
  facts : Facts
  deriving DecidableEq

theorem short_ne_nul {e c : Char} (h : short e = some c) : c ≠ '\x00' := by
  rintro rfl
  unfold short at h
  split at h
  next he =>
    obtain rfl := Option.some.inj h
    exact absurd he (by decide)
  next => repeat' (split at h; next => exact absurd h (by decide))
          exact absurd h (by decide)

theorem toNat_ofNat {n : Nat} (h : n < 128) : (Char.ofNat n).toNat = n := by
  have hall : ∀ m : Fin 128, (Char.ofNat m.val).toNat = m.val := by decide +kernel
  exact hall ⟨n, h⟩

theorem put_fits {size used : Nat} {c : Char} {o : Option (List Char)} {out : List Char} (hc : c ≠ '\x00')
    (hused : ¬ size ≤ used + 1)
    (ih : ∀ {out : List Char}, o = some out → used + 1 < size → '\x00' ∉ out ∧ used + 1 + out.length < size)
    (h : o.map (c :: ·) = some out) : '\x00' ∉ out ∧ used + out.length < size := by
  obtain ⟨rest, hrest, rfl⟩ := Option.map_eq_some_iff.mp h
  obtain ⟨hnul, hlength⟩ := ih hrest (by omega)
  refine ⟨by simpa [hnul] using Ne.symm hc, ?_⟩
  simp only [List.length_cons]
  omega

theorem unescape_fits {size used : Nat} {s out : List Char} (h : unescape size used s = some out) (hu : used < size) :
    '\x00' ∉ out ∧ used + out.length < size := by
  fun_induction unescape size used s generalizing out with
  | case1 used => exact Option.some.inj h ▸ ⟨by simp, by simpa using hu⟩
  | case5 =>
      rename_i a b c d _ _ _ _ code hcode hused ih
      refine put_fits (fun e => ?_) hused ih h
      have hto := toNat_ofNat (n := ((a * 16 + b) * 16 + c) * 16 + d) (by omega)
      rw [e] at hto
      exact hcode (.inl hto.symm)
  | case10 used e s hne c he hused ih => exact put_fits (short_ne_nul he) hused ih h
  | case12 used c s hne hok ih => exact put_fits (fun e => hok (.inl e)) (fun e => hok (.inr e)) ih h
  | _ => cases h

theorem string_fits {j : Tokens} {n : Option Nat} {size : Nat} {s : List Char} (h : string j n size = some s) :
    '\x00' ∉ s ∧ s.length < size := by
  simp only [string, Option.bind_eq_bind, Option.bind_eq_some_iff] at h
  obtain ⟨n, -, t, -, h⟩ := h
  split at h
  next => cases h
  next hsize =>
    obtain ⟨hnul, hlength⟩ := unescape_fits h (by omega)
    exact ⟨hnul, by omega⟩

def uintField (j : Tokens) (name : String) : Option Nat := uint j (field j (some 0) name)

def boolField (j : Tokens) (name : String) : Option Bool := bool j (field j (some 0) name)

/-- The facts of a stored record, which may be missing. -/
def readFacts (j : Tokens) : Option Facts :=
  match field j (some 0) "facts" with
  | none => some Facts.none
  | some n =>
      match h : string j (some n) factsSize with
      | none => none
      | some f =>
          if hc : (f.all fun c => factChar c || c == ',') = true then some ⟨f, hc, (string_fits h).2⟩ else none

def admissible (r : PolicyRecord) : Bool :=
  r.generation != 0 && r.generation != 0xFFFFFFFFFFFFFFFF &&
    (if r.known then r.lastSuccessAt != 0 && r.lastSuccessAt ≤ 0xFFFFFFFFFFFFFFFF - graceSeconds &&
        r.offlineAllowedUntil == r.lastSuccessAt + graceSeconds
      else r.allowed && r.lastSuccessAt == 0 && r.offlineAllowedUntil != 0) &&
    r.offlineAllowedUntil ≤ 32503680000

def policyRecordParse (text : List Char) (sn : Sn) : Option PolicyRecord := do
  let j ← parse text
  let version ← uintField j "storage_version"
  if version ≠ 1 then none
  else
    let found ← string j (field j (some 0) "sn") maxSnLen
    if found ≠ sn.val then none
    else
      let generation ← uintField j "generation"
      let lastSuccessAt ← uintField j "last_success_at"
      let offlineAllowedUntil ← uintField j "offline_allowed_until"
      let known ← boolField j "known"
      let allowed ← boolField j "allowed"
      let facts ← readFacts j
      let r : PolicyRecord := ⟨sn, .ofNat generation, .ofNat lastSuccessAt, .ofNat offlineAllowedUntil, known, allowed, facts⟩
      if admissible r then some r else none

/-- One more code behind the ones that are there. -/
def Facts.add (out : Facts) (fact : List Char) (h : fact.all factChar = true ∧ out.val.length + fact.length + 2 ≤ factsSize) :
    Facts :=
  ⟨if out.val = [] then fact else out.val ++ ',' :: fact, by
    obtain ⟨hchars, hlength⟩ := out.property
    have hfact : (fact.all fun c => factChar c || c == ',') = true := by
      simp only [List.all_eq_true, Bool.or_eq_true] at h ⊢
      exact fun c hc => .inl (h.1 c hc)
    split
    · exact ⟨hfact, by omega⟩
    · refine ⟨by simp only [List.all_append, List.all_cons, hchars, hfact, beq_self_eq_true, Bool.or_true, Bool.and_self], ?_⟩
      simp only [List.length_append, List.length_cons]
      omega⟩

/-- The codes of an array, one after the other. -/
def joinFacts (j : Tokens) : List Nat → Facts → Option Facts
  | [], out => some out
  | n :: rest, out =>
      match string j (some n) 128 with
      | none => none
      | some fact =>
          if fact = [] then none
          else if h : fact.all factChar = true ∧ out.val.length + fact.length + 2 ≤ factsSize then
            joinFacts j rest (out.add fact h)
          else none

/-- What an answer says of media and of HTTPS, and its facts. -/
def policyResponseParse (text : List Char) (sn : Sn) : Option (Bool × Bool × Facts) := do
  let j ← parse text
  let version ← uintField j "v"
  if version ≠ 1 then none
  else
    let found ← string j (field j (some 0) "sn") maxSnLen
    if found ≠ sn.val then none
    else
      let media ← boolField j "mqtt_rtp_allowed"
      let f ← field j (some 0) "stop_facts"
      let t ← j[f]?
      if t.type ≠ '[' then none
      else
        let facts ← joinFacts j (elements j f t.next) Facts.none
        some (media, boolField j "outgoing_https_allowed" != some false, facts)

def undenied (r : PolicyRecord) : Bool := !(r.known && !r.allowed)

def policyRecordAllowed (r : PolicyRecord) (now : UInt64) : Bool := undenied r && now < r.offlineAllowedUntil

def policyRecordPrefer (a b : PolicyRecord) : Bool :=
  if a.generation ≠ b.generation then a.generation > b.generation
  else if undenied a ≠ undenied b then undenied a
  else undenied a && a.offlineAllowedUntil > b.offlineAllowedUntil

def escape (c : Char) : List Char :=
  if c.toNat < 32 ∨ c = '"' ∨ c = '\\' then
    ['\\', 'u', '0', '0', Nat.digitChar (c.toNat / 16 % 16), Nat.digitChar (c.toNat % 16)]
  else [c]

def truth (b : Bool) : List Char := if b then "true".toList else "false".toList

def digitsOf (n : UInt64) : List Char := Nat.toDigits 10 n.toNat

def member (key : String) (text : List Char) : List Char := '"' :: key.toList ++ '"' :: ':' :: text

def inQuotes (text : List Char) : List Char := '"' :: text ++ ['"']

/-- The text that `persist` stores. -/
def recordText (r : PolicyRecord) : List Char :=
  '{' :: member "storage_version" ['1'] ++ ',' :: member "sn" (inQuotes (r.sn.val.flatMap escape)) ++
    ',' :: member "generation" (digitsOf r.generation) ++ ',' :: member "known" (truth r.known) ++
    ',' :: member "allowed" (truth r.allowed) ++ ',' :: member "last_success_at" (digitsOf r.lastSuccessAt) ++
    ',' :: member "offline_allowed_until" (digitsOf r.offlineAllowedUntil) ++
    ',' :: member "facts" (inQuotes r.facts.val) ++ ['}']

end EtranProcessing.Proxy.PolicyRecords
