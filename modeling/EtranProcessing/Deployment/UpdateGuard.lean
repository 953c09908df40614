import Mathlib

namespace EtranProcessing.Deployment.UpdateGuard

inductive Window where
  | communication
  | otherTools
  deriving DecidableEq

inductive Work where
  | communication
  | otherTools
  deriving DecidableEq

def Window.ofCode : Nat → Option Window
  | 1 => some .communication
  | 2 => some .otherTools
  | _ => none

def Work.ofCode : Nat → Option Work
  | 0 => some .communication
  | 1 => some .otherTools
  | _ => none

/-- The guard; without an owner no window is open. -/
structure Guard where
  owner : List UInt8
  deadline : UInt64
  active : Work → UInt32
  window : Option Window
  expired : Bool

structure World where
  guard : Guard
  tickets : List (Option Work)

def Guard.zero : Guard := ⟨[], 0, fun _ => 0, none, false⟩

def World.start (tickets : Nat) : World := ⟨.zero, List.replicate tickets none⟩

def dashAt (i : Nat) : Bool := i = 8 || i = 13 || i = 18 || i = 23

def hexDigit (c : UInt8) : Bool := (48 ≤ c && c ≤ 57) || (97 ≤ c && c ≤ 102) || (65 ≤ c && c ≤ 70)

def ownerValid (owner : List UInt8) : Bool :=
  owner.length = 36 && (owner.zipIdx.all fun c => if dashAt c.2 then c.1 = 45 else hexDigit c.1) &&
    owner.zipIdx.any fun c => !dashAt c.2 && c.1 ≠ 48

def lower (c : UInt8) : UInt8 := if 65 ≤ c ∧ c ≤ 90 then c + 32 else c

/-- `_stricmp` finds no difference. -/
def sameText (a b : List UInt8) : Bool := a.map lower == b.map lower

def sameOwner (g : Guard) (owner : Option (List UInt8)) : Bool :=
  match owner with
  | none => false
  | some owner => ownerValid owner && g.owner ≠ [] && sameText g.owner owner

def observe (g : Guard) (now : UInt64) : Guard := if g.deadline ≤ now then { g with expired := true } else g

def admitted (g : Guard) (work : Work) : Bool :=
  g.owner = [] || (g.window = some .otherTools && work = .communication && !g.expired)

/-- A ticket is free when it names no guard; a ticket that is not there is a null pointer. -/
def updateGuardEnter (s : World) (code : Nat) (now : UInt64) (ticket : Nat) : Bool × World :=
  match s.tickets[ticket]?, Work.ofCode code with
  | some none, some work =>
      let g := if s.guard.owner ≠ [] then observe s.guard now else s.guard
      if admitted g work ∧ g.active work ≠ 0xFFFFFFFF then
        (true, ⟨{ g with active := Function.update g.active work (g.active work + 1) }, s.tickets.set ticket (some work)⟩)
      else (false, { s with guard := g })
  | _, _ => (false, s)

def updateGuardLeave (s : World) (ticket : Nat) : Bool × World :=
  match s.tickets[ticket]? with
  | some (some work) =>
      if s.guard.active work ≠ 0 then
        (true, ⟨{ s.guard with active := Function.update s.guard.active work (s.guard.active work - 1) },
          s.tickets.set ticket none⟩)
      else (false, s)
  | _ => (false, s)

def updateGuardBegin (s : World) (owner : Option (List UInt8)) (code : Nat) (now deadline : UInt64) : Bool × World :=
  match owner, Window.ofCode code with
  | some owner, some window =>
      if ownerValid owner = false ∨ deadline ≤ now then (false, s)
      else if s.guard.owner ≠ [] then
        if sameOwner s.guard (some owner) ∧ s.guard.window = some window ∧ s.guard.deadline = deadline then
          let g := observe s.guard now
          (!g.expired, { s with guard := g })
        else (false, s)
      else (true, { s with guard := { s.guard with owner := owner, window := some window, deadline := deadline, expired := false } })
  | _, _ => (false, s)

def updateGuardReady (s : World) (owner : Option (List UInt8)) (now : UInt64) : Bool × World :=
  if sameOwner s.guard owner then
    let g := observe s.guard now
    (!g.expired && g.active .otherTools = 0 && (g.window = some .otherTools || g.active .communication = 0),
      { s with guard := g })
  else (false, s)

def updateGuardFinish (s : World) (owner : Option (List UInt8)) : Bool × World :=
  if sameOwner s.guard owner ∧ s.guard.active .communication = 0 ∧ s.guard.active .otherTools = 0 then
    (true, { s with guard := { s.guard with owner := [], window := none, deadline := 0, expired := false } })
  else (false, s)

inductive Call where
  | enter (code : Nat) (now : UInt64) (ticket : Nat)
  | leave (ticket : Nat)
  | begin (owner : Option (List UInt8)) (code : Nat) (now deadline : UInt64)
  | ready (owner : Option (List UInt8)) (now : UInt64)
  | finish (owner : Option (List UInt8))

def perform (s : World) : Call → Bool × World
  | .enter code now ticket => updateGuardEnter s code now ticket
  | .leave ticket => updateGuardLeave s ticket
  | .begin owner code now deadline => updateGuardBegin s owner code now deadline
  | .ready owner now => updateGuardReady s owner now
  | .finish owner => updateGuardFinish s owner

def answer (s : World) (c : Call) : Bool := (perform s c).1

def step (s : World) (c : Call) : World := (perform s c).2

end EtranProcessing.Deployment.UpdateGuard
