import EtranProcessing.Ingress.State
import EtranProcessing.Library.Rounding

namespace EtranProcessing.Ingress.Schema

open State Library.Rounding

/-- A parsed document. A real is the number that its double stands for. -/
inductive Json
  | null
  | bool (b : Bool)
  | integer (n : Int)
  | real (q : Rat)
  | string (s : CString)
  | array (items : List Json)
  | object (members : List (CString × Json))

namespace Json

def get (j : Json) (key : CString) : Option Json :=
  match j with
  | .object members => members.lookup key
  | _ => none

def text : Json → Option CString
  | .string s => some s
  | _ => none

def elements : Json → List Json
  | .array items => items
  | _ => []

def members : Json → List (CString × Json)
  | .object members => members
  | _ => []

def integerValue : Json → Int
  | .integer n => n
  | _ => 0

def toDouble (n : Int) : Rat := if 0 ≤ n then nearest 52 n else -nearest 52 (-n : Int)

def number : Json → Option Rat
  | .integer n => some (toDouble n)
  | .real q => some q
  | _ => none

def numberValue (j : Json) : Rat := j.number.getD 0

end Json

mutual

def msEqual : Json → Json → Bool
  | .array xs, .array ys => msEqualItems xs ys
  | .object xs, .object ys => xs.length == ys.length && msEqualMembers xs ys
  | .string s, .string t => s == t
  | .bool a, .bool b => a == b
  | .null, .null => true
  | a, b =>
      match a.number, b.number with
      | some x, some y => x == y
      | _, _ => false

def msEqualItems : List Json → List Json → Bool
  | [], [] => true
  | x :: xs, y :: ys => msEqual x y && msEqualItems xs ys
  | _, _ => false

def msEqualMembers : List (CString × Json) → List (CString × Json) → Bool
  | [], _ => true
  | (key, x) :: xs, ys =>
      match ys.lookup key with
      | some y => msEqual x y && msEqualMembers xs ys
      | none => false

end

def lowerHex (c : UInt8) : Bool := (48 ≤ c && c ≤ 57) || (97 ≤ c && c ≤ 102)

def xdigit (c : UInt8) : Bool := lowerHex c || (65 ≤ c && c ≤ 70)

def msUuid (value : CString) : Bool :=
  value.length == 36 && value.zipIdx.all fun (c, i) => if i = 8 ∨ i = 13 ∨ i = 18 ∨ i = 23 then c == 45 else xdigit c

def nameByte (c : UInt8) : Bool :=
  (65 ≤ c && c ≤ 90) || (97 ≤ c && c ≤ 122) || (48 ≤ c && c ≤ 57) || c == 46 || c == 95 || c == 45

def anyProfile : CString := bytes "^(42|4d|64)[0-9a-f]\x7b4\x7d$"

def profilePatterns : List CString :=
  [bytes "^42[0-9a-f]\x7b4\x7d$", bytes "^4d[0-9a-f]\x7b4\x7d$", bytes "^64[0-9a-f]\x7b4\x7d$", anyProfile]

/-- The patterns of the frozen schemas; any other one fails. -/
def msPattern (pattern value : CString) : Bool :=
  if pattern = bytes "^/" then value.head? == some 47
  else if pattern = bytes "^[A-Za-z0-9._-]+$" then value.all nameByte && !value.isEmpty
  else if pattern ∈ profilePatterns then
    if value.length ≠ 6 ∨ !(value.drop 2).all lowerHex then false
    else if pattern = anyProfile then
      value.take 2 == bytes "42" || value.take 2 == bytes "4d" || value.take 2 == bytes "64"
    else value.take 2 == (pattern.drop 1).take 2
  else false

/-- Why an evaluation has no verdict: a remainder that traps, or no level left
to descend to. -/
inductive Stop
  | trap
  | deep
  deriving DecidableEq

abbrev Verdict := Except Stop Bool

def Verdict.and (first second : Verdict) : Verdict :=
  match first with
  | .ok true => second
  | v => v

def every {α : Type} (check : α → Verdict) : List α → Verdict
  | [] => .ok true
  | x :: xs => (check x).and (every check xs)

def matching {α : Type} (check : α → Verdict) : List α → Except Stop Nat
  | [] => .ok 0
  | x :: xs => do
      let found ← check x
      let more ← matching check xs
      return (if found then 1 else 0) + more

section Keywords

variable (schema value : Json)

def bounded (key : String) (within : Json → Bool) : Bool := ((schema.get (bytes key)).map within).getD true

def constCheck : Bool := bounded schema "const" fun choice => msEqual choice value

def enumCheck : Bool := bounded schema "enum" fun list => list.elements.any fun choice => msEqual choice value

def maxSafe : Rat := 9007199254740991

def hasType (type : CString) : Bool :=
  match value with
  | .object _ => type == bytes "object"
  | .array _ => type == bytes "array"
  | .string _ => type == bytes "string"
  | .bool _ => type == bytes "boolean"
  | .null => type == bytes "null"
  | .integer _ | .real _ =>
      type == bytes "integer" &&
        decide (-maxSafe ≤ value.numberValue ∧ value.numberValue ≤ maxSafe ∧ value.numberValue.den = 1)

def typeCheck : Bool := ((schema.get (bytes "type")).bind Json.text).all fun type => hasType value type

/-- The cast of a double to a 64-bit integer: what is out of range becomes the
least integer. -/
def toInt64 (n : Rat) : Int :=
  let cut := if 0 ≤ n then n.floor else n.ceil
  if -(2 ^ 63) ≤ cut ∧ cut < 2 ^ 63 then cut else -(2 ^ 63)

def remainder (a b : Int) : Except Stop Int :=
  if b = 0 ∨ (a = -(2 ^ 63) ∧ b = -1) then .error .trap else .ok (a.tmod b)

def numberCheck : Verdict :=
  match value.number with
  | none => .ok true
  | some n =>
      if bounded schema "minimum" (fun choice => choice.numberValue ≤ n) = false then .ok false
      else if bounded schema "maximum" (fun choice => n ≤ choice.numberValue) = false then .ok false
      else
        match schema.get (bytes "multipleOf") with
        | none => .ok true
        | some choice => (remainder (toInt64 n) choice.integerValue).map fun r => r == 0

def characters (text : CString) : Nat := text.countP fun c => (c &&& 0xc0) != 0x80

def size (choice : Json) : Nat := (choice.integerValue % 2 ^ 64).toNat

def formatCheck (text format : CString) : Bool :=
  if format = bytes "uuid" then msUuid text
  else if format = bytes "date-time" then 20 ≤ text.length && text[10]? == some 84
  else true

def stringCheck : Bool :=
  match value with
  | .string text =>
      bounded schema "minLength" (fun choice => size choice ≤ characters text) &&
        bounded schema "maxLength" (fun choice => characters text ≤ size choice) &&
        (((schema.get (bytes "pattern")).bind Json.text).all fun pattern => msPattern pattern text) &&
        ((schema.get (bytes "format")).bind Json.text).all fun format => formatCheck text format
  | _ => true

def present (names : Option Json) : Bool :=
  ((names.map Json.elements).getD []).all fun name => (name.text.bind value.get).isSome

def dependentCheck : Bool :=
  ((schema.get (bytes "dependentRequired")).map Json.members).getD [] |>.all fun (key, required) =>
    (value.get key).isNone || present value (some required)

variable (sub under : Json → Json → Verdict)

def propertyCheck (member : CString × Json) : Verdict :=
  match (schema.get (bytes "properties")).bind fun properties => properties.get member.1 with
  | some subschema => sub subschema member.2
  | none =>
      match schema.get (bytes "additionalProperties") with
      | some (.bool false) => .ok false
      | _ => .ok true

def objectCheck : Verdict :=
  match value with
  | .object members =>
      Verdict.and (.ok (present value (schema.get (bytes "required")))) <|
        (every (propertyCheck schema sub) members).and (.ok (dependentCheck schema value))
  | _ => .ok true

def optional (check : Option Json) (item : Json) (without : Bool) : Verdict :=
  match check with
  | none => .ok without
  | some s => sub s item

/-- The loop over the items of an array: those seen, those to come, and
whether one of them was contained. -/
def itemsLoop (unique : Bool) : List Json → List Json → Bool → Verdict
  | _, [], found => .ok ((schema.get (bytes "contains")).isNone || found)
  | seen, item :: rest, found =>
      (optional sub (schema.get (bytes "items")) item true).and do
        let hit ← optional sub (schema.get (bytes "contains")) item false
        if unique && seen.any (msEqual item) then return false
        itemsLoop unique (seen ++ [item]) rest (found || hit)

def isTrue (j : Option Json) : Bool :=
  match j with
  | some (.bool b) => b
  | _ => false

def arrayCheck : Verdict :=
  match value with
  | .array items =>
      if bounded schema "minItems" (fun choice => size choice ≤ items.length) = false then .ok false
      else if bounded schema "maxItems" (fun choice => items.length ≤ size choice) = false then .ok false
      else itemsLoop schema sub (isTrue (schema.get (bytes "uniqueItems"))) [] items false
  | _ => .ok true

def combination (check : Json → Json → Verdict) (key : String) (enough : Nat → Nat → Bool) : Verdict :=
  match schema.get (bytes key) with
  | none => .ok true
  | some list => (matching (fun s => check s value) list.elements).map fun n => enough n list.elements.length

def conditionCheck : Verdict :=
  match schema.get (bytes "if") with
  | none => .ok true
  | some condition => do
      let holds ← under condition value
      optional sub (schema.get (bytes (if holds then "then" else "else"))) value true

def notCheck : Verdict :=
  match schema.get (bytes "not") with
  | none => .ok true
  | some excluded => (under excluded value).map fun b => !b

/-- A reference into the definitions of the root. -/
def referenceCheck (root : Json) : Verdict :=
  match (schema.get (bytes "$ref")).bind Json.text with
  | none => .ok true
  | some reference =>
      if reference.take 8 ≠ bytes "#/$defs/" then .ok false
      else
        match (root.get (bytes "$defs")).bind fun defs => defs.get (reference.drop 8) with
        | none => .ok false
        | some target => sub target value

/-- One node of the schema against one value. The evaluations below it whose
failure counts for the value, under oneOf, if and not, are made by the second
evaluator. -/
def msValidateNode (root : Json) : Verdict :=
  match schema with
  | .bool b => .ok b
  | _ =>
      (referenceCheck schema value sub root).and <|
        Verdict.and (.ok (constCheck schema value && enumCheck schema value && typeCheck schema value)) <|
        (numberCheck schema value).and <|
        Verdict.and (.ok (stringCheck schema value)) <|
        (objectCheck schema value sub).and <|
        (arrayCheck schema value sub).and <|
        (combination schema value sub "allOf" fun n size => n == size).and <|
        (combination schema value sub "anyOf" fun n _ => n != 0).and <|
        (combination schema value under "oneOf" fun n _ => n == 1).and <|
        (conditionCheck schema value sub under).and <|
        notCheck schema value under

end Keywords

/-- The evaluator, with the levels that its depth leaves it: below the last
one everything is invalid. -/
def msValidateRoot (root : Json) : Nat → Json → Json → Verdict
  | 0, _, _ => .ok false
  | n + 1, schema, value => msValidateNode schema value (msValidateRoot root n) (msValidateRoot root n) root

def levels : Nat := 49

def unlimited (root : Json) : Nat → Json → Json → Verdict
  | 0, _, _ => .error .deep
  | n + 1, schema, value => msValidateNode schema value (unlimited root n) (unlimited root n) root

/-- The evaluator, stopped where it would cut an evaluation whose failure
counts for the value. -/
def watched (root : Json) : Nat → Json → Json → Verdict
  | 0, _, _ => .ok false
  | n + 1, schema, value => msValidateNode schema value (watched root n) (unlimited root n) root

def CutsBelowNegation (root schema value : Json) : Prop := watched root levels schema value = .error .deep

section Follows

variable {α β : Type}

def Follows (x y : Except Stop α) : Prop := x ≠ .error .deep → y = x

theorem Follows.refl (x : Except Stop α) : Follows x x := fun _ => rfl

theorem Follows.trans {x y z : Except Stop α} (h : Follows x y) (h' : Follows y z) : Follows x z := by
  intro hx
  have hy := h hx
  rw [h' (by rwa [hy]), hy]

theorem follows_deep (y : Except Stop α) : Follows (.error .deep) y := fun h => absurd rfl h

theorem Follows.bind {x y : Except Stop α} {f g : α → Except Stop β} (h : Follows x y) (hf : ∀ a, Follows (f a) (g a)) :
    Follows (x >>= f) (y >>= g) := by
  cases x with
  | error stop =>
      cases stop with
      | deep => exact follows_deep _
      | trap =>
          obtain rfl := h (by simp)
          exact .refl _
  | ok a =>
      obtain rfl := h (by simp)
      exact hf a

theorem Follows.map {x y : Except Stop α} (h : Follows x y) (f : α → β) : Follows (x.map f) (y.map f) :=
  h.bind (f := fun a => .ok (f a)) (g := fun a => .ok (f a)) fun _ => .refl _

theorem Verdict.and_eq (a b : Verdict) : a.and b = (a >>= fun ok => if ok then b else .ok false) := by
  cases a with
  | error stop => rfl
  | ok passed => cases passed <;> rfl

theorem Follows.and {a b a' b' : Verdict} (h : Follows a a') (h' : Follows b b') : Follows (a.and b) (a'.and b') := by
  rw [Verdict.and_eq, Verdict.and_eq]
  apply h.bind
  intro ok
  cases ok with
  | false => exact .refl _
  | true => exact h'

variable {check check' : α → Verdict}

theorem every_follows (h : ∀ x, Follows (check x) (check' x)) (xs : List α) :
    Follows (every check xs) (every check' xs) := by
  induction xs with
  | nil => exact .refl _
  | cons x xs ih => exact (h x).and ih

theorem matching_follows (h : ∀ x, Follows (check x) (check' x)) (xs : List α) :
    Follows (matching check xs) (matching check' xs) := by
  induction xs with
  | nil => exact .refl _
  | cons x xs ih =>
      apply (h x).bind
      intro found
      exact ih.bind fun more => .refl _

variable {sub sub' under under' : Json → Json → Verdict} (schema value root : Json)

theorem optional_follows (h : ∀ s v, Follows (sub s v) (sub' s v)) (check : Option Json) (item : Json) (without : Bool) :
    Follows (optional sub check item without) (optional sub' check item without) := by
  cases check with
  | none => exact .refl _
  | some s => exact h s item

theorem itemsLoop_follows (h : ∀ s v, Follows (sub s v) (sub' s v)) (unique : Bool) (rest : List Json) :
    ∀ seen found, Follows (itemsLoop schema sub unique seen rest found) (itemsLoop schema sub' unique seen rest found) := by
  induction rest with
  | nil =>
      intro seen found
      exact .refl _
  | cons item rest ih =>
      intro seen found
      apply (optional_follows h _ item true).and
      apply (optional_follows h _ item false).bind
      intro hit
      split
      · exact .refl _
      · exact ih _ _

theorem propertyCheck_follows (h : ∀ s v, Follows (sub s v) (sub' s v)) (member : CString × Json) :
    Follows (propertyCheck schema sub member) (propertyCheck schema sub' member) := by
  rw [propertyCheck, propertyCheck]
  split
  · exact h _ _
  · exact .refl _

theorem objectCheck_follows (h : ∀ s v, Follows (sub s v) (sub' s v)) :
    Follows (objectCheck schema value sub) (objectCheck schema value sub') := by
  cases value with
  | object members =>
      apply Follows.and (.refl _)
      exact (every_follows (propertyCheck_follows schema h) _).and (.refl _)
  | _ => exact .refl _

theorem arrayCheck_follows (h : ∀ s v, Follows (sub s v) (sub' s v)) :
    Follows (arrayCheck schema value sub) (arrayCheck schema value sub') := by
  cases value with
  | array items =>
      dsimp only [arrayCheck]
      split
      · exact .refl _
      · split
        · exact .refl _
        · exact itemsLoop_follows schema h _ _ _ _
  | _ => exact .refl _

theorem combination_follows (h : ∀ s v, Follows (sub s v) (sub' s v)) (key : String) (enough : Nat → Nat → Bool) :
    Follows (combination schema value sub key enough) (combination schema value sub' key enough) := by
  rw [combination, combination]
  split
  · exact .refl _
  · exact (matching_follows (fun s => h s value) _).map _

theorem conditionCheck_follows (h : ∀ s v, Follows (sub s v) (sub' s v)) (h' : ∀ s v, Follows (under s v) (under' s v)) :
    Follows (conditionCheck schema value sub under) (conditionCheck schema value sub' under') := by
  rw [conditionCheck, conditionCheck]
  split
  · exact .refl _
  · apply (h' _ value).bind
    intro holds
    exact optional_follows h _ value true

theorem notCheck_follows (h : ∀ s v, Follows (under s v) (under' s v)) :
    Follows (notCheck schema value under) (notCheck schema value under') := by
  rw [notCheck, notCheck]
  split
  · exact .refl _
  · exact (h _ value).map _

theorem referenceCheck_follows (h : ∀ s v, Follows (sub s v) (sub' s v)) :
    Follows (referenceCheck schema value sub root) (referenceCheck schema value sub' root) := by
  rw [referenceCheck, referenceCheck]
  split
  · exact .refl _
  · split
    · exact .refl _
    · split
      · exact .refl _
      · exact h _ value

theorem msValidateNode_follows (h : ∀ s v, Follows (sub s v) (sub' s v)) (h' : ∀ s v, Follows (under s v) (under' s v)) :
    Follows (msValidateNode schema value sub under root) (msValidateNode schema value sub' under' root) := by
  rw [msValidateNode.eq_def, msValidateNode.eq_def]
  split
  · exact .refl _
  · apply (referenceCheck_follows schema value root h).and
    apply Follows.and (.refl _)
    apply Follows.and (.refl _)
    apply Follows.and (.refl _)
    apply (objectCheck_follows schema value h).and
    apply (arrayCheck_follows schema value h).and
    apply (combination_follows schema value h _ _).and
    apply (combination_follows schema value h _ _).and
    apply (combination_follows schema value h' _ _).and
    apply (conditionCheck_follows schema value h h').and
    exact notCheck_follows schema value h'

end Follows

section Limits

theorem unlimited_step (root : Json) (n : Nat) : ∀ schema value,
    Follows (unlimited root n schema value) (unlimited root (n + 1) schema value) := by
  induction n with
  | zero =>
      intro schema value
      exact follows_deep _
  | succ n ih =>
      intro schema value
      exact msValidateNode_follows schema value root ih ih

theorem unlimited_follows (root : Json) {n m : Nat} (h : n ≤ m) (schema value : Json) :
    Follows (unlimited root n schema value) (unlimited root m schema value) := by
  induction h with
  | refl => exact .refl _
  | step _ ih => exact ih.trans (unlimited_step root _ schema value)

theorem unlimited_limited (root : Json) (n : Nat) : ∀ schema value,
    Follows (unlimited root n schema value) (msValidateRoot root n schema value) := by
  induction n with
  | zero =>
      intro schema value
      exact follows_deep _
  | succ n ih =>
      intro schema value
      exact msValidateNode_follows schema value root ih ih

theorem watched_limited (root : Json) (n : Nat) : ∀ schema value,
    Follows (watched root n schema value) (msValidateRoot root n schema value) := by
  induction n with
  | zero =>
      intro schema value
      exact .refl _
  | succ n ih =>
      intro schema value
      exact msValidateNode_follows schema value root ih (unlimited_limited root n)

end Limits

section Sound

variable {α : Type}

def Sound (x y : Verdict) : Prop := x = .ok true → ∀ b, y = .ok b → b = true

theorem Sound.refl (x : Verdict) : Sound x x := by
  intro hx b hb
  rw [hx] at hb
  cases hb
  rfl

theorem Follows.sound {x y : Verdict} (h : Follows x y) : Sound x y := by
  intro hx b hb
  rw [h (by simp [hx]), hx] at hb
  cases hb
  rfl

theorem and_true {a b : Verdict} : a.and b = .ok true ↔ a = .ok true ∧ b = .ok true := by
  cases a with
  | error stop => simp [Verdict.and]
  | ok passed => cases passed <;> simp [Verdict.and]

theorem Sound.and {a b a' b' : Verdict} (h : Sound a a') (h' : Sound b b') : Sound (a.and b) (a'.and b') := by
  intro hx c hc
  obtain ⟨ha, hb⟩ := and_true.mp hx
  cases a' with
  | error stop => cases hc
  | ok passed =>
      obtain rfl := h ha passed rfl
      exact h' hb c hc

variable {check check' : α → Verdict}

theorem every_sound (h : ∀ x, Sound (check x) (check' x)) (xs : List α) : Sound (every check xs) (every check' xs) := by
  induction xs with
  | nil => exact .refl _
  | cons x xs ih => exact (h x).and ih

theorem matching_cons {x : α} {xs : List α} {n : Nat} (h : matching check (x :: xs) = .ok n) :
    ∃ found more, check x = .ok found ∧ matching check xs = .ok more ∧ n = (if found then 1 else 0) + more := by
  rw [matching] at h
  cases hx : check x with
  | error stop => simp [hx, bind, Except.bind] at h
  | ok found =>
      cases hxs : matching check xs with
      | error stop => simp [hx, hxs, bind, Except.bind] at h
      | ok more =>
          simp only [hx, hxs, bind, Except.bind, pure, Except.pure, Except.ok.injEq] at h
          exact ⟨found, more, rfl, rfl, h.symm⟩

theorem matching_le {xs : List α} : ∀ {n : Nat}, matching check xs = .ok n → n ≤ xs.length := by
  induction xs with
  | nil =>
      intro n h
      cases h
      exact Nat.le_refl _
  | cons x xs ih =>
      intro n h
      obtain ⟨found, more, -, hmore, rfl⟩ := matching_cons h
      have := ih hmore
      rw [List.length_cons]
      split <;> omega

theorem matching_sound (h : ∀ x, Sound (check x) (check' x)) {xs : List α} : ∀ {n m : Nat},
    matching check xs = .ok n → matching check' xs = .ok m → n ≤ m := by
  induction xs with
  | nil =>
      intro n m hn hm
      cases hn
      exact Nat.zero_le _
  | cons x xs ih =>
      intro n m hn hm
      obtain ⟨found, more, hx, hmore, rfl⟩ := matching_cons hn
      obtain ⟨found', more', hx', hmore', rfl⟩ := matching_cons hm
      have hle := ih hmore hmore'
      cases found with
      | false => simp only [Bool.false_eq_true, if_false]; omega
      | true =>
          obtain rfl := h x hx found' hx'
          simpa using hle

variable {sub sub' under under' : Json → Json → Verdict} (schema value root : Json)

theorem optional_sound (h : ∀ s v, Sound (sub s v) (sub' s v)) (check : Option Json) (item : Json) (without : Bool) :
    Sound (optional sub check item without) (optional sub' check item without) := by
  cases check with
  | none => exact .refl _
  | some s => exact h s item

theorem itemsLoop_sound (h : ∀ s v, Sound (sub s v) (sub' s v)) (unique : Bool) (rest : List Json) :
    ∀ seen found found', (found = true → found' = true) →
      Sound (itemsLoop schema sub unique seen rest found) (itemsLoop schema sub' unique seen rest found') := by
  induction rest with
  | nil =>
      intro seen found found' hfound hx b hb
      simp only [itemsLoop, Except.ok.injEq, Bool.or_eq_true] at hx hb
      subst hb
      rw [Bool.or_eq_true]
      exact hx.imp_right hfound
  | cons item rest ih =>
      intro seen found found' hfound
      apply (optional_sound h _ item true).and
      intro hx b hb
      have hcontains := optional_sound h (schema.get (bytes "contains")) item false
      cases hhit : optional sub (schema.get (bytes "contains")) item false with
      | error stop => simp [hhit, bind, Except.bind] at hx
      | ok hit =>
          cases hhit' : optional sub' (schema.get (bytes "contains")) item false with
          | error stop => simp [hhit', bind, Except.bind] at hb
          | ok hit' =>
              rw [hhit, hhit'] at hcontains
              simp only [hhit, hhit', bind, Except.bind] at hx hb
              split at hx
              · cases hx
              next hunique =>
                rw [if_neg hunique] at hb
                apply ih _ _ _ _ hx b hb
                intro heither
                rw [Bool.or_eq_true] at heither ⊢
                rcases heither with hold | hnew
                · exact .inl (hfound hold)
                · exact .inr (hcontains (by rw [hnew]) hit' rfl)

theorem propertyCheck_sound (h : ∀ s v, Sound (sub s v) (sub' s v)) (member : CString × Json) :
    Sound (propertyCheck schema sub member) (propertyCheck schema sub' member) := by
  rw [propertyCheck, propertyCheck]
  split
  · exact h _ _
  · exact .refl _

theorem objectCheck_sound (h : ∀ s v, Sound (sub s v) (sub' s v)) :
    Sound (objectCheck schema value sub) (objectCheck schema value sub') := by
  cases value with
  | object members =>
      apply Sound.and (.refl _)
      exact (every_sound (propertyCheck_sound schema h) _).and (.refl _)
  | _ => exact .refl _

theorem arrayCheck_sound (h : ∀ s v, Sound (sub s v) (sub' s v)) :
    Sound (arrayCheck schema value sub) (arrayCheck schema value sub') := by
  cases value with
  | array items =>
      dsimp only [arrayCheck]
      split
      · exact .refl _
      · split
        · exact .refl _
        · exact itemsLoop_sound schema h _ _ _ _ _ id
  | _ => exact .refl _

theorem combination_sound (h : ∀ s v, Sound (sub s v) (sub' s v)) (key : String) {enough : Nat → Nat → Bool}
    (hmore : ∀ n m size, n ≤ m → m ≤ size → enough n size = true → enough m size = true) :
    Sound (combination schema value sub key enough) (combination schema value sub' key enough) := by
  rw [combination, combination]
  split
  · exact .refl _
  next list _ =>
    intro hx b hb
    cases hn : matching (fun s => sub s value) list.elements with
    | error stop => simp [hn, Except.map] at hx
    | ok n =>
        cases hm : matching (fun s => sub' s value) list.elements with
        | error stop => simp [hm, Except.map] at hb
        | ok m =>
            simp only [hn, hm, Except.map, Except.ok.injEq] at hx hb
            rw [← hb]
            exact hmore n m _ (matching_sound (fun s => h s value) hn hm) (matching_le hm) hx

theorem conditionCheck_sound (h : ∀ s v, Sound (sub s v) (sub' s v)) (h' : ∀ s v, Follows (under s v) (under' s v)) :
    Sound (conditionCheck schema value sub under) (conditionCheck schema value sub' under') := by
  rw [conditionCheck, conditionCheck]
  split
  · exact .refl _
  next condition _ =>
    intro hx b hb
    cases hholds : under condition value with
    | error stop => simp [hholds, bind, Except.bind] at hx
    | ok holds =>
        rw [h' condition value (by simp [hholds]), hholds] at hb
        rw [hholds] at hx
        exact optional_sound h _ value true hx b hb

theorem referenceCheck_sound (h : ∀ s v, Sound (sub s v) (sub' s v)) :
    Sound (referenceCheck schema value sub root) (referenceCheck schema value sub' root) := by
  rw [referenceCheck, referenceCheck]
  split
  · exact .refl _
  · split
    · exact .refl _
    · split
      · exact .refl _
      · exact h _ value

theorem msValidateNode_sound (h : ∀ s v, Sound (sub s v) (sub' s v)) (h' : ∀ s v, Follows (under s v) (under' s v)) :
    Sound (msValidateNode schema value sub under root) (msValidateNode schema value sub' under' root) := by
  rw [msValidateNode.eq_def, msValidateNode.eq_def]
  split
  · exact .refl _
  · apply (referenceCheck_sound schema value root h).and
    apply Sound.and (.refl _)
    apply Sound.and (.refl _)
    apply Sound.and (.refl _)
    apply (objectCheck_sound schema value h).and
    apply (arrayCheck_sound schema value h).and
    refine (combination_sound schema value h _ ?_).and ?_
    · intro n m size hle hsize hn
      rw [beq_iff_eq] at hn ⊢
      omega
    refine (combination_sound schema value h _ ?_).and ?_
    · intro n m size hle _ hn
      rw [bne_iff_ne] at hn ⊢
      omega
    apply (combination_follows schema value h' _ _).sound.and
    apply (conditionCheck_sound schema value h h').and
    exact (notCheck_follows schema value h').sound

theorem watched_sound (n : Nat) : ∀ m, n ≤ m → ∀ schema value,
    Sound (watched root n schema value) (unlimited root m schema value) := by
  induction n with
  | zero =>
      intro m _ schema value hx
      cases hx
  | succ n ih =>
      intro m hm schema value
      obtain ⟨m, rfl⟩ := Nat.exists_eq_add_of_lt hm
      exact msValidateNode_sound schema value root (ih _ (by omega)) (unlimited_follows root (by omega))

end Sound

/-- What is accepted within the limit is not rejected without it, unless the
limit cuts below a negation. -/
theorem acceptance_fails_closed (root schema value : Json) (hcut : ¬ CutsBelowNegation root schema value)
    (haccepted : msValidateRoot root levels schema value = .ok true) (n : Nat) :
    unlimited root n schema value ≠ .ok false := by
  intro hends
  have hwatched : watched root levels schema value = .ok true := by
    rw [← haccepted, watched_limited root levels schema value hcut]
  have hmore := unlimited_follows root (Nat.le_max_left n levels) schema value (by simp [hends])
  have hsound := watched_sound root levels _ (Nat.le_max_right n levels) schema value
  exact Bool.false_ne_true (hsound hwatched false (hmore.trans hends))

def treeDefs : Json :=
  .object [(bytes "$defs", .object [(bytes "tree", .object [
    (bytes "type", .string (bytes "object")),
    (bytes "properties", .object [(bytes "child", .object [(bytes "$ref", .string (bytes "#/$defs/tree"))])])])])]

def noTree : Json := .object [(bytes "not", .object [(bytes "$ref", .string (bytes "#/$defs/tree"))])]

def tree : Nat → Json
  | 0 => .object []
  | k + 1 => .object [(bytes "child", tree k)]

theorem acceptance_fails_closed_null :
    msValidateRoot treeDefs levels noTree .null = .ok true ∧
      ∀ n, unlimited treeDefs n noTree .null ≠ .ok false :=
  ⟨by decide +kernel,
    acceptance_fails_closed treeDefs noTree .null (by rw [CutsBelowNegation]; decide +kernel) (by decide +kernel)⟩

/-- A tree too high for the limit passes for none. -/
theorem high_tree_accepted :
    msValidateRoot treeDefs levels noTree (tree 24) = .ok true ∧
      unlimited treeDefs 60 noTree (tree 24) = .ok false := by
  constructor <;> decide +kernel

end EtranProcessing.Ingress.Schema
