import EtranProcessing.Library.Json

namespace EtranProcessing.Proxy.PolicyJson

open Library.Json

/-- A token: its kind, what a string has between its quotes or the digits of a number, and the token after its subtree. -/
structure Token where
  type : Char
  text : List Char
  next : Nat
  deriving DecidableEq

abbrev Tokens := List Token

def maxTokens : Nat := 512
def maxDepth : Nat := 16

abbrev whitespace (s : List Char) : List Char := skip s

def literal (c : Char) : Option (List Char) :=
  if c = 't' then some "true".toList
  else if c = 'f' then some "false".toList
  else if c = 'n' then some "null".toList
  else none

def leaf (count : Nat) : List Char → Option (Tokens × List Char)
  | [] => none
  | c :: s =>
      match literal c with
      | some w => if w <+: c :: s then some ([⟨c, w, count + 1⟩], (c :: s).drop w.length) else none
      | none => (number (c :: s)).map fun p => ([⟨'0', p.1, count + 1⟩], p.2)

mutual

/-- The tokens of one value; the fuel stands for the calls and rounds that are left. -/
def value : Nat → Nat → Nat → List Char → Option (Tokens × List Char)
  | 0, _, _, _ => none
  | fuel + 1, depth, count, s =>
      if whitespace s = [] ∨ maxDepth < depth ∨ maxTokens ≤ count then none
      else
        match whitespace s with
        | '{' :: s =>
            match whitespace s with
            | '}' :: s => some ([⟨'{', [], count + 1⟩], s)
            | s => (pairs fuel depth (count + 1) s).map fun p => (⟨'{', [], count + 1 + p.1.length⟩ :: p.1, p.2)
        | '[' :: s =>
            match whitespace s with
            | ']' :: s => some ([⟨'[', [], count + 1⟩], s)
            | s => (entries fuel depth (count + 1) s).map fun p => (⟨'[', [], count + 1 + p.1.length⟩ :: p.1, p.2)
        | '"' :: s => (quoted s).map fun p => ([⟨'"', p.1, count + 1⟩], p.2)
        | s => leaf count s

/-- The rounds of an array. -/
def entries : Nat → Nat → Nat → List Char → Option (Tokens × List Char)
  | 0, _, _, _ => none
  | fuel + 1, depth, count, s =>
      match value fuel (depth + 1) count s with
      | none => none
      | some (item, s) =>
          match whitespace s with
          | ']' :: s => some (item, s)
          | ',' :: s => (entries fuel depth (count + item.length) s).map fun p => (item ++ p.1, p.2)
          | _ => none

/-- The rounds of an object. -/
def pairs : Nat → Nat → Nat → List Char → Option (Tokens × List Char)
  | 0, _, _, _ => none
  | fuel + 1, depth, count, s =>
      match whitespace s with
      | '"' :: s =>
          match value fuel (depth + 1) count ('"' :: s) with
          | none => none
          | some (key, s) =>
              match whitespace s with
              | ':' :: s =>
                  match value fuel (depth + 1) (count + key.length) s with
                  | none => none
                  | some (item, s) =>
                      match whitespace s with
                      | '}' :: s => some (key ++ item, s)
                      | ',' :: s =>
                          (pairs fuel depth (count + key.length + item.length) s).map fun p => (key ++ item ++ p.1, p.2)
                      | _ => none
              | _ => none
      | _ => none

end

/-- The characters between the quotes; only ASCII may be escaped. -/
def unescape (size : Nat) : Nat → List Char → Option (List Char)
  | _, [] => some []
  | used, c :: s =>
      if c = '\\' then
        match s with
        | [] => none
        | e :: s =>
            if e = 'u' then
              match s with
              | h₁ :: h₂ :: h₃ :: h₄ :: s =>
                  match hex h₁, hex h₂, hex h₃, hex h₄ with
                  | some a, some b, some c, some d =>
                      let code := ((a * 16 + b) * 16 + c) * 16 + d
                      if code = 0 ∨ 127 < code then none
                      else if size ≤ used + 1 then none
                      else (unescape size (used + 1) s).map (Char.ofNat code :: ·)
                  | _, _, _, _ => none
              | _ => none
            else
              match short e with
              | none => none
              | some c => if size ≤ used + 1 then none else (unescape size (used + 1) s).map (c :: ·)
      else if c = '\x00' ∨ size ≤ used + 1 then none
      else (unescape size (used + 1) s).map (c :: ·)

/-- The string of a token, when it fits in `size` with its terminator. -/
def string (j : Tokens) (n : Option Nat) (size : Nat) : Option (List Char) := do
  let n ← n
  let t ← j[n]?
  if t.type ≠ '"' ∨ size = 0 then none else unescape size 0 t.text

/-- The tokens from `a` on that one reaches by leaping over subtrees, `ahead` tokens past the start of each. -/
def chain (j : Tokens) (ahead : Nat) (limit : Nat) : Nat → Nat → List Nat
  | 0, _ => []
  | fuel + 1, a =>
      if a < limit then
        match j[a + ahead]? with
        | some t => a :: chain j ahead limit fuel t.next
        | none => [a]
      else []

def keys (j : Tokens) (n : Nat) (next : Nat) : List Nat := chain j 1 next j.length (n + 1)

def elements (j : Tokens) (n : Nat) (next : Nat) : List Nat := chain j 0 next j.length (n + 1)

/-- Every key can be read, and none is there a second time. -/
def unrepeated (j : Tokens) : List Nat → Bool
  | [] => true
  | a :: rest =>
      match string j (some a) 256 with
      | none => false
      | some key =>
          (rest.all fun b =>
            match string j (some b) 256 with
            | none => false
            | some other => other != key) && unrepeated j rest

def parse (s : List Char) : Option Tokens :=
  if s = [] ∨ 65535 < s.length ∨ '\x00' ∈ s then none
  else
    match value (2 * s.length + 1) 0 0 s with
    | none => none
    | some (j, rest) =>
        if whitespace rest ≠ [] ∨ j.head?.map Token.type ≠ some '{' then none
        else if (j.zipIdx.all fun (t, n) => t.type != '{' || unrepeated j (keys j n t.next)) then some j
        else none

def field (j : Tokens) (n : Option Nat) (key : String) : Option Nat := do
  let n ← n
  let t ← j[n]?
  if t.type ≠ '{' then none
  else ((keys j n t.next).find? fun a => string j (some a) 256 == some key.toList).map (· + 1)

def bool (j : Tokens) (n : Option Nat) : Option Bool := do
  let n ← n
  let t ← j[n]?
  if t.type = 't' then some true else if t.type = 'f' then some false else none

def decimal (text : List Char) : Option Nat :=
  if text.length < 1 ∨ 20 < text.length ∨ (text.all digit) = false then none
  else if Nat.ofDigitChars 10 text 0 < 2 ^ 64 then some (Nat.ofDigitChars 10 text 0)
  else none

def uint (j : Tokens) (n : Option Nat) : Option Nat := do
  let n ← n
  let t ← j[n]?
  if t.type ≠ '0' then none else decimal t.text

end EtranProcessing.Proxy.PolicyJson
