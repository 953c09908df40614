import EtranProcessing.Library.Fallible
import EtranProcessing.Library.Runs
import EtranProcessing.Library.Tables

namespace EtranProcessing.Metering.RemoteSessions

open Library.Fallible Library.Runs Library.Tables

inductive SessionState where
  | reserved
  | startRequested
  | active
  | stopRequested
  | closed
  | failed
  deriving DecidableEq, Repr

def SessionState.live : SessionState → Bool
  | .reserved | .startRequested | .active | .stopRequested => true
  | .closed | .failed => false

inductive SessionType where
  | console
  | video
  deriving DecidableEq, Repr

/-- A row of l4desk_remote_sessions. Times are what timestamp() gives of them. The
cursor is not negative by a constraint of the table. -/
structure Session where
  id : Nat
  tenantId : Nat
  terminalId : Nat
  providerSessionId : Option String
  sessionType : SessionType
  state : SessionState
  activeAt : Option Rat
  closedAt : Option Rat
  reason : Option String
  lastEventId : Option String
  lastCursor : Nat
  sourceEventsHash : Option String
  deriving DecidableEq, Repr

inductive AuditEvent where
  | anchor (sessionId : Nat) (eventId : String) (time : Rat) (cursorEpoch : Nat)
  | usagePeriod (sessionId : Nat) (eventId : String) (time : Rat) (startEpoch endEpoch : Nat)
      (providerSessionId : Option String)
  | ended (sessionId : Nat) (eventId : String) (time : Rat) (confirmedEnd : Bool) (reason : String)
      (tailSeconds cursorEpoch : Nat) (providerSessionId : Option String)
  deriving DecidableEq, Repr

/-- What record_session_usage is called with. -/
structure Usage where
  tenantId : Nat
  terminalId : Nat
  sessionType : SessionType
  startEpoch : Nat
  endEpoch : Nat
  eventId : String
  deriving DecidableEq, Repr

inductive Failure where
  | multipleResultsFound
  | valueError (text : String)
  | integrityError
  deriving DecidableEq, Repr

/-- The tables that the metering reads and writes. The id of a session is its primary key. -/
structure Database where
  sessions : List Session
  ids_nodup : (sessions.map (·.id)).Nodup
  terminals : Nat → Nat → Bool
  usage : List Usage
  audit : List AuditEvent

/-- The chain of hashes over the events of a session: sha256 of the hash so far, the id of
the new row and the id of the event. -/
structure Hashing where
  next : Option String → Nat → String → String

def checkpointSeconds : Nat := 60

def initialMeteringCursor (activeAt : Rat) : Int := ⌈activeAt⌉

def wholeSeconds (time : Rat) : Int := time.num.tdiv time.den

def Database.session (db : Database) (sessionId : Nat) : Option Session :=
  db.sessions.find? fun s => s.id == sessionId

def getActiveSession (db : Database) (terminalId : Nat) : Except Failure (Option Session) :=
  match db.sessions.filter fun s => s.terminalId == terminalId && s.state.live with
  | [] => .ok none
  | [session] => .ok (some session)
  | _ => .error .multipleResultsFound

def replaceSession (sessions : List Session) (session : Session) : List Session :=
  sessions.map fun s => if s.id = session.id then session else s

theorem replaceSession_ids (sessions : List Session) (session : Session) :
    (replaceSession sessions session).map (·.id) = sessions.map (·.id) := by
  rw [replaceSession, List.map_map]
  apply List.map_congr_left
  intro s _
  by_cases h : s.id = session.id
  · simp [h]
  · simp [h]

def Database.putSession (db : Database) (session : Session) : Database :=
  { db with
    sessions := replaceSession db.sessions session
    ids_nodup := by
      rw [replaceSession_ids]
      exact db.ids_nodup }

def recordSessionEvent (hashing : Hashing) (db : Database) (session : Session) (eventId : String)
    (event : AuditEvent) : Database × Session :=
  ({ db with audit := db.audit ++ [event] },
    { session with
      lastEventId := eventId
      sourceEventsHash := hashing.next session.sourceEventsHash db.audit.length eventId })

def recordSessionUsage (db : Database) (usage : Usage) : Except Failure Database := do
  require (db.terminals usage.tenantId usage.terminalId = true) (.valueError "Unknown tenant terminal")
  return { db with usage := db.usage ++ [usage] }

def recordPeriod (hashing : Hashing) (db : Database) (session : Session) (endEpoch : Int) (time : Rat) :
    Except Failure (Database × Session × Nat) := do
  let startEpoch := session.lastCursor
  if endEpoch ≤ startEpoch then return (db, session, 0)
  let endEpoch := endEpoch.toNat
  let eventId := s!"remote-session-{session.id}-through-{endEpoch}"
  let db ← recordSessionUsage db {
    tenantId := session.tenantId
    terminalId := session.terminalId
    sessionType := session.sessionType
    startEpoch := startEpoch
    endEpoch := endEpoch
    eventId := eventId }
  let session := { session with lastCursor := endEpoch }
  let (db, session) := recordSessionEvent hashing db session eventId
    (.usagePeriod session.id eventId time startEpoch endEpoch session.providerSessionId)
  return (db, session, endEpoch - startEpoch)

def Unanchored (session : Session) (activeAt : Rat) : Prop :=
  session.lastCursor = 0 ∨ (session.lastCursor : Int) < initialMeteringCursor activeAt

instance (session : Session) (activeAt : Rat) : Decidable (Unanchored session activeAt) :=
  inferInstanceAs (Decidable (_ ∨ _))

/-- Start at a new, unrecorded point. A negative cursor breaks the constraint of the table. -/
def anchorSession (hashing : Hashing) (db : Database) (session : Session) (activeAt time : Rat) :
    Except Failure Database := do
  let cursor := max (initialMeteringCursor activeAt) (initialMeteringCursor time)
  require (0 ≤ cursor) .integrityError
  let session := { session with lastCursor := cursor.toNat }
  let eventId := s!"remote-session-{session.id}-anchor-{session.lastCursor}"
  let (db, session) := recordSessionEvent hashing db session eventId
    (.anchor session.id eventId time session.lastCursor)
  return db.putSession session

def checkpointRemoteSession (hashing : Hashing) (db : Database) (terminalId sessionId : Nat)
    (providerSessionId : String) (time : Rat) : Except Failure (Database × Nat) := do
  match ← getActiveSession db terminalId with
  | none => return (db, 0)
  | some session =>
      match session.activeAt with
      | none => return (db, 0)
      | some activeAt =>
          if session.id ≠ sessionId ∨ session.providerSessionId ≠ some providerSessionId ∨ session.state ≠ .active then
            return (db, 0)
          if Unanchored session activeAt then return (← anchorSession hashing db session activeAt time, 0)
          let endEpoch := wholeSeconds time
          if endEpoch - session.lastCursor < checkpointSeconds then return (db, 0)
          let (db, session, seconds) ← recordPeriod hashing db session endEpoch time
          return (db.putSession session, seconds)

/-- The confirmed tail of a session whose metering was anchored. -/
def recordTail (hashing : Hashing) (db : Database) (session : Session) (time : Rat) (confirmedEnd : Bool) :
    Except Failure (Database × Session × Nat) :=
  match session.activeAt with
  | some activeAt =>
      if confirmedEnd = true ∧ initialMeteringCursor activeAt ≤ (session.lastCursor : Int) then
        recordPeriod hashing db session (wholeSeconds time) time
      else .ok (db, session, 0)
  | none => .ok (db, session, 0)

/-- Close a session, or give it up where its end is not known. By a constraint of the
table closed_at is not before active_at. -/
def endSession (hashing : Hashing) (db : Database) (session : Session) (reason : String) (time : Rat)
    (confirmedEnd : Bool) (seconds : Nat) : Except Failure (Database × Session) := do
  require (∀ activeAt ∈ session.activeAt, activeAt ≤ time) .integrityError
  let session := { session with
    state := if confirmedEnd then .closed else .failed
    closedAt := time
    reason := reason }
  let eventId := s!"remote-session-{session.id}-end-{wholeSeconds time}"
  let (db, session) := recordSessionEvent hashing db session eventId
    (.ended session.id eventId time confirmedEnd reason seconds session.lastCursor session.providerSessionId)
  return (db.putSession session, session)

def closeRemoteSession (hashing : Hashing) (db : Database) (terminalId : Nat) (sessionType : SessionType)
    (reason : String) (time : Rat) (confirmedEnd : Bool) (expectedProviderSessionId : Option String) :
    Except Failure (Database × Option Session) := do
  match ← getActiveSession db terminalId with
  | none => return (db, none)
  | some session =>
      if session.sessionType ≠ sessionType ∨
          (expectedProviderSessionId ≠ none ∧ session.providerSessionId ≠ expectedProviderSessionId) then
        return (db, none)
      let (db, session, seconds) ← recordTail hashing db session time confirmedEnd
      let (db, session) ← endSession hashing db session reason time confirmedEnd seconds
      return (db, some session)

/-- A call, or a source switch that gives an active session a new provider id. -/
inductive Event where
  | checkpoint (terminalId sessionId : Nat) (providerSessionId : String) (time : Rat)
  | close (terminalId : Nat) (sessionType : SessionType) (reason : String) (time : Rat) (confirmedEnd : Bool)
      (expectedProviderSessionId : Option String)
  | switchSource (terminalId : Nat) (providerSessionId : String)

def switchSource (db : Database) (terminalId : Nat) (providerSessionId : String) : Except Failure Database := do
  match ← getActiveSession db terminalId with
  | none => return db
  | some session => return db.putSession { session with providerSessionId := providerSessionId }

/-- A call commits all that it wrote, or it raises and nothing stays. -/
def step (hashing : Hashing) (db : Database) : Event → Database
  | .checkpoint terminalId sessionId providerSessionId time =>
      match checkpointRemoteSession hashing db terminalId sessionId providerSessionId time with
      | .ok (db', _) => db'
      | .error _ => db
  | .close terminalId sessionType reason time confirmedEnd expectedProviderSessionId =>
      match closeRemoteSession hashing db terminalId sessionType reason time confirmedEnd
        expectedProviderSessionId with
      | .ok (db', _) => db'
      | .error _ => db
  | .switchSource terminalId providerSessionId =>
      match switchSource db terminalId providerSessionId with
      | .ok db' => db'
      | .error _ => db

end EtranProcessing.Metering.RemoteSessions
