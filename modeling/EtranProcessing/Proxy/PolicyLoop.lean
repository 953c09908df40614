import EtranProcessing.Proxy.PolicyStore

namespace EtranProcessing.Proxy.PolicyLoop

open PolicyRecords PolicyStore

def pollMs : UInt64 := 600 * 1000

def saveMs : UInt64 := 60000

def graceMs : UInt64 := graceSeconds * 1000

/-- What the system says while the lock is held: the clock, which is read twice, the ticks, and which certificates are
within their time. -/
structure Moment (Cert : Type) where
  utc : UInt64
  utcAgain : UInt64
  tick : UInt64
  valid : Cert → Bool

/-- What the worker keeps from one look at the state. -/
structure Captured where
  saved : PolicyRecord
  save : Bool
  poll : Bool
  identity : UInt64
  deriving DecidableEq

/-- Where the worker is in its loop, between two times it holds the lock or writes. -/
inductive Stage where
  | stopped
  | top
  | captured (c : Captured)
  | saved (c : Captured) (ok : Bool)
  | asking (c : Captured)
  | accepted (updated : PolicyRecord)
  | stored (updated : PolicyRecord) (ok : Bool)
  | waiting (polled : Bool)
  deriving DecidableEq

structure Loop (Cert : Type) where
  record : PolicyRecord
  mediaAllowed : Bool
  httpsAllowed : Bool
  stopping : Bool
  dirty : Bool
  storageFailed : Bool
  facts : Facts
  certificate : Option Cert
  identityGeneration : UInt64
  anchorTick : UInt64
  remainingMs : UInt64
  nextPoll : UInt64
  nextSave : UInt64
  stage : Stage
  copies : Copies

def noRecord : PolicyRecord := ⟨⟨[], by decide⟩, 0, 0, 0, false, false, Facts.none⟩

/-- A process that has just been started over the copies that are there. -/
def Loop.start {Cert : Type} (storageFailed : Bool) (copies : Copies) : Loop Cert where
  record := noRecord
  mediaAllowed := !storageFailed
  httpsAllowed := !storageFailed
  stopping := false
  dirty := false
  storageFailed := storageFailed
  facts := Facts.none
  certificate := none
  identityGeneration := 0
  anchorTick := 0
  remainingMs := 0
  nextPoll := 0
  nextSave := 0
  stage := if storageFailed then .stopped else .top
  copies := copies

def loaded (r : PolicyRecord) : Bool := r.sn.val ≠ []

section Process

variable {Cert : Type} [DecidableEq Cert]

/-- `identity_denial_locked` finds nothing. -/
def identityValid (s : Loop Cert) (m : Moment Cert) : Bool :=
  match s.certificate with
  | none => false
  | some cert => m.valid cert

def setMedia (s : Loop Cert) (m : Moment Cert) (allowed : Bool) : Loop Cert :=
  { s with mediaAllowed := allowed && identityValid s m }

def expire (s : Loop Cert) (m : Moment Cert) : Loop Cert :=
  if s.storageFailed then { setMedia s m false with httpsAllowed := false }
  else if loaded s.record then
    let spent : Loop Cert := if s.record.offlineAllowedUntil ≤ m.utc then { s with remainingMs := 0 } else s
    setMedia spent m (policyRecordAllowed spent.record m.utcAgain && decide (m.tick - spent.anchorTick < spent.remainingMs))
  else setMedia s m true

/-- What `policy_media_allowed` answers. -/
def policyMediaAllowed (s : Loop Cert) (m : Moment Cert) : Bool := (expire s m).mediaAllowed && !s.stopping

def look (s : Loop Cert) (m : Moment Cert) : Loop Cert :=
  let s := expire s m
  { s with stage := .captured {
      saved := s.record
      save := s.dirty && loaded s.record && decide (s.nextSave ≤ m.tick)
      poll := s.certificate.isSome && decide (s.nextPoll ≤ m.tick)
      identity := s.identityGeneration } }

/-- `dirty` after a write, unless the record has changed since. -/
def settled (s : Loop Cert) (written : PolicyRecord) (ok : Bool) : Bool :=
  if s.record.generation = written.generation ∧ s.record.sn = written.sn then !ok else s.dirty

def applies (s : Loop Cert) (c : Captured) : Bool := c.poll && decide (c.identity = s.identityGeneration) && !s.stopping

def answered (c : Captured) (text : Option (List Char)) : Option (Bool × Bool × Facts) :=
  text.bind (policyResponseParse · c.saved.sn)

def accept (s : Loop Cert) (m : Moment Cert) (allowed https : Bool) (facts : Facts) : Loop Cert :=
  let record := PolicyStore.accepted s.record allowed facts m.utc
  setMedia { s with
    httpsAllowed := https
    record := record
    anchorTick := m.tick
    remainingMs := graceMs
    facts := facts
    dirty := true
    nextSave := 0
    stage := .accepted record } m allowed

def answer (s : Loop Cert) (c : Captured) (m : Moment Cert) (text : Option (List Char)) : Loop Cert :=
  if applies s c then
    match answered c text with
    | some (allowed, https, facts) => accept s m allowed https facts
    | none => { s with httpsAllowed := true, stage := .waiting true }
  else { s with stage := .waiting c.poll }

/-- The readings of the clock and the ticks while a record is loaded. -/
structure Loading where
  access : Access
  restored : UInt64
  now : UInt64
  tick : UInt64

def reload (s : Loop Cert) (sn : Sn) (l : Loading) : Loop Cert :=
  let record := restore l.access s.copies sn l.restored
  { s with
    record := record
    dirty := true
    facts := record.facts
    anchorTick := l.tick
    remainingMs := if l.now < record.offlineAllowedUntil then (record.offlineAllowedUntil - l.now) * 1000 else 0 }

def load (s : Loop Cert) (sn : Sn) (l : Loading) (m : Moment Cert) : Loop Cert := expire (reload s sn l) m

def rotate (s : Loop Cert) (cert : Option Cert) : Loop Cert :=
  if s.certificate = cert then s
  else { s with certificate := cert, identityGeneration := s.identityGeneration + 1 }

def changes (s : Loop Cert) (details : Option (Cert × Sn)) : Option Sn :=
  match details with
  | some (_, sn) => if s.record.sn = sn then none else some sn
  | none => none

def policyIdentity (s : Loop Cert) (details : Option (Cert × Sn)) (l : Loading) (m later : Moment Cert) : Loop Cert :=
  if s.storageFailed then s
  else
    let s := match changes s details with
      | some sn => load s sn l m
      | none => s
    expire (rotate s (details.map Prod.fst)) later

inductive Event (Cert : Type) where
  | ask (m : Moment Cert)
  | look (m : Moment Cert)
  | save (f : Faults) (tick : UInt64)
  | settle
  | answer (m : Moment Cert) (text : Option (List Char))
  | store (f : Faults) (tick : UInt64)
  | pause (tick : UInt64) (woken : Bool)
  | identity (details : Option (Cert × Sn)) (l : Loading) (m later : Moment Cert)
  | stop
  | lastSave (f : Faults)
  | restart (storageFailed : Bool)

/-- The calls of the other threads, the steps of the worker, and a new process. A step that is not the worker's next
one does nothing. -/
def step (s : Loop Cert) : Event Cert → Loop Cert
  | .ask m => expire s m
  | .look m =>
      match s.stage with
      | .top => look s m
      | _ => s
  | .save f tick =>
      match s.stage with
      | .captured c =>
          if c.save then
            { s with
              copies := (persist c.saved f s.copies).1
              nextSave := tick + saveMs
              stage := .saved c (persist c.saved f s.copies).2 }
          else { s with stage := .asking c }
      | _ => s
  | .settle =>
      match s.stage with
      | .saved c ok => { s with dirty := settled s c.saved ok, stage := .asking c }
      | .stored updated ok => { s with dirty := settled s updated ok, stage := .waiting true }
      | _ => s
  | .answer m text =>
      match s.stage with
      | .asking c => answer s c m text
      | _ => s
  | .store f tick =>
      match s.stage with
      | .accepted updated =>
          { s with
            copies := (persist updated f s.copies).1
            nextSave := tick + saveMs
            stage := .stored updated (persist updated f s.copies).2 }
      | _ => s
  | .pause tick woken =>
      match s.stage with
      | .waiting polled =>
          { s with
            nextPoll := if woken then 0 else if polled then tick + pollMs else s.nextPoll
            nextSave := if woken then 0 else s.nextSave
            stage := .top }
      | _ => s
  | .identity details l m later => policyIdentity s details l m later
  | .stop => { s with stopping := true }
  | .lastSave f =>
      if loaded s.record && s.dirty then { s with copies := (persist s.record f s.copies).1 } else s
  | .restart storageFailed => .start storageFailed s.copies

def run (s : Loop Cert) (events : List (Event Cert)) : Loop Cert := events.foldl step s

end Process

end EtranProcessing.Proxy.PolicyLoop
