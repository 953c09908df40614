namespace EtranProcessing.Feed.ConsumerStorage

/-- The payload of an event. Of what is neither an object nor a list nothing is read. -/
inductive Json where
  | object (fields : List (String × Json))
  | array (items : List Json)
  | scalar

/-- An event of the feed, with the fields that the consumer reads. Times are microseconds. -/
structure Item where
  cursor : Int
  eventId : String
  occurredAt : Int
  sn : String
  payload : Json

structure Checkpoint where
  lastCursor : Int
  lastEventId : Option String
  lastEventOccurredAt : Option Int
  deriving DecidableEq, Repr

inductive ErrorCode where
  | contractValidationFailed
  | outOfOrderCursor
  deriving DecidableEq, Repr

structure Quarantined where
  eventId : String
  cursor : Int
  errorCode : ErrorCode
  errorDetail : String
  rawEvent : Item

/-- The checkpoint of the consumer, its inbox and its quarantine. The database has them as
tables, the process has them in memory. -/
structure Store where
  checkpoint : Option Checkpoint
  inbox : List Item
  quarantine : List Quarantined

def Store.empty : Store := ⟨none, [], []⟩

def Store.knows (store : Store) (eventId : String) : Bool := store.inbox.any (·.eventId == eventId)

def defaultCheckpoint : Checkpoint := ⟨0, none, none⟩

def Store.getCheckpoint (store : Store) : Store × Checkpoint :=
  match store.checkpoint with
  | some checkpoint => (store, checkpoint)
  | none => ({ store with checkpoint := some defaultCheckpoint }, defaultCheckpoint)

def Store.updateCheckpoint (checkpoint : Checkpoint) (store : Store) : Store × Unit :=
  ({ store with checkpoint := some checkpoint }, ())

def Store.hasEvent (eventId : String) (store : Store) : Store × Bool := (store, store.knows eventId)

def Store.saveInboxEvent (item : Item) (store : Store) : Store × Bool :=
  if store.knows item.eventId then (store, false) else ({ store with inbox := store.inbox ++ [item] }, true)

def Store.saveQuarantine (entry : Quarantined) (store : Store) : Store × Unit :=
  ({ store with quarantine := store.quarantine ++ [entry] }, ())

/-- A call of the database is done, or it fails and nothing was written, or it fails after
its transaction was committed. -/
inductive Outcome where
  | done
  | lost
  | late
  deriving DecidableEq, Repr

structure Storage where
  db : Store
  memory : Store

/-- A call that fails is answered by the fallback. -/
def Storage.call {α : Type} (storage : Storage) (outcome : Outcome) (operation : Store → Store × α) : Storage × α :=
  let database := operation storage.db
  let fallback := operation storage.memory
  match outcome with
  | .done => (⟨database.1, storage.memory⟩, database.2)
  | .lost => (⟨storage.db, fallback.1⟩, fallback.2)
  | .late => (⟨database.1, fallback.1⟩, fallback.2)

section Calls

variable {α : Type} (storage : Storage) (outcome : Outcome) (operation : Store → Store × α)

theorem Storage.call_db :
    (storage.call outcome operation).1.db = if outcome = .lost then storage.db else (operation storage.db).1 := by
  cases outcome <;> rfl

theorem Storage.call_answer :
    (storage.call outcome operation).2 =
      if outcome = .done then (operation storage.db).2 else (operation storage.memory).2 := by
  cases outcome <;> rfl

end Calls

section Stores

variable (store : Store)

@[simp] theorem Store.getCheckpoint_inbox : store.getCheckpoint.1.inbox = store.inbox := by
  unfold Store.getCheckpoint
  split <;> rfl

@[simp] theorem Store.getCheckpoint_quarantine : store.getCheckpoint.1.quarantine = store.quarantine := by
  unfold Store.getCheckpoint
  split <;> rfl

theorem Store.knows_saveInboxEvent (item : Item) : (store.saveInboxEvent item).1.knows item.eventId = true := by
  unfold Store.saveInboxEvent
  split
  next h => exact h
  next => simp [Store.knows]

end Stores

end EtranProcessing.Feed.ConsumerStorage
