import EtranProcessing.Feed.ConsumerStorage

namespace EtranProcessing.Feed.EventConsumer

open ConsumerStorage

def forbiddenCommercialKeys : List String :=
  ["amount", "rubles", "kopecks", "price", "tariff", "balance", "billing_id", "payment_id", "invoice_id"]

structure Lowering where
  lower : String → String

mutual

def commercialKey (lowering : Lowering) : Json → Option String
  | .object fields => commercialField lowering fields
  | .array items => commercialItem lowering items
  | .scalar => none

def commercialField (lowering : Lowering) : List (String × Json) → Option String
  | [] => none
  | (key, value) :: fields =>
      if lowering.lower key ∈ forbiddenCommercialKeys then some key
      else (commercialKey lowering value).or (commercialField lowering fields)

def commercialItem (lowering : Lowering) : List Json → Option String
  | [] => none
  | value :: items => (commercialKey lowering value).or (commercialItem lowering items)

end

def validateContractPayload (lowering : Lowering) (item : Item) : Option String :=
  if item.eventId = "" ∨ item.sn = "" ∨ item.cursor ≤ 0 then
    some "Missing mandatory contract fields (event_id, sn, or non-positive cursor)"
  else
    (commercialKey lowering item.payload).map fun key => s!"Forbidden commercial field detected in payload: {key}"

def valid (lowering : Lowering) (item : Item) : Bool := (validateContractPayload lowering item).isNone

/-- What becomes of the calls that the storage makes for one event. -/
structure ItemFaults where
  saveQuarantine : Outcome
  hasEvent : Outcome
  saveInboxEvent : Outcome
  updateCheckpoint : Outcome
  deriving DecidableEq, Repr

/-- The variables of the loop of process_batch. -/
structure Batch where
  storage : Storage
  currentCursor : Int
  prevItemCursor : Int
  lastEventId : Option String
  lastOccurredAt : Option Int
  processedCount : Nat
  duplicateCount : Nat
  quarantineCount : Nat

def Batch.quarantine (b : Batch) (faults : ItemFaults) (item : Item) (errorCode : ErrorCode) (errorDetail : String) :
    Batch :=
  { b with
    storage := (b.storage.call faults.saveQuarantine
      (Store.saveQuarantine ⟨item.eventId, item.cursor, errorCode, errorDetail, item⟩)).1
    quarantineCount := b.quarantineCount + 1 }

/-- The cursor moves to the event, and the checkpoint with it. -/
def Batch.advance (b : Batch) (faults : ItemFaults) (item : Item) : Batch :=
  { b with
    storage := (b.storage.call faults.updateCheckpoint
      (Store.updateCheckpoint ⟨item.cursor, item.eventId, item.occurredAt⟩)).1
    currentCursor := item.cursor
    prevItemCursor := item.cursor
    lastEventId := item.eventId
    lastOccurredAt := item.occurredAt }

/-- An event at or before the cursor is a duplicate or out of order. -/
def processOldItem (faults : ItemFaults) (b : Batch) (item : Item) : Batch :=
  let (storage, known) := b.storage.call faults.hasEvent (Store.hasEvent item.eventId)
  let b := { b with storage := storage }
  if known then { b with duplicateCount := b.duplicateCount + 1 }
  else b.quarantine faults item .outOfOrderCursor
    (s!"Out-of-order cursor anomaly: item cursor {item.cursor} <= " ++
      s!"checkpoint cursor {b.currentCursor} for unknown event {item.eventId}")

def processNewItem (faults : ItemFaults) (b : Batch) (item : Item) : Batch :=
  let (storage, known) := b.storage.call faults.hasEvent (Store.hasEvent item.eventId)
  let b := { b with storage := storage }
  if known then { b with duplicateCount := b.duplicateCount + 1 }.advance faults item
  else
    let (storage, saved) := b.storage.call faults.saveInboxEvent (Store.saveInboxEvent item)
    let b := { b with storage := storage }
    if saved then { b with processedCount := b.processedCount + 1 }.advance faults item else b

/-- One round of the loop of process_batch. -/
def processItem (lowering : Lowering) (faults : ItemFaults) (b : Batch) (item : Item) : Batch :=
  match validateContractPayload lowering item with
  | some reason => b.quarantine faults item .contractValidationFailed reason
  | none =>
      if item.cursor ≤ b.currentCursor then processOldItem faults b item
      else if item.cursor ≤ b.prevItemCursor then
        b.quarantine faults item .outOfOrderCursor
          (s!"Batch non-monotonic anomaly: cursor {item.cursor} <= " ++
            s!"previous item cursor {b.prevItemCursor}")
      else processNewItem faults b item

def processItems (lowering : Lowering) : List Item → (Nat → ItemFaults) → Batch → Batch
  | [], _, b => b
  | item :: items, faults, b =>
      processItems lowering items (fun n => faults (n + 1)) (processItem lowering (faults 0) b item)

def startBatch (storage : Storage) (outcome : Outcome) : Batch :=
  let (storage, checkpoint) := storage.call outcome Store.getCheckpoint
  { storage := storage
    currentCursor := checkpoint.lastCursor
    prevItemCursor := checkpoint.lastCursor
    lastEventId := checkpoint.lastEventId
    lastOccurredAt := checkpoint.lastEventOccurredAt
    processedCount := 0
    duplicateCount := 0
    quarantineCount := 0 }

def processBatch (lowering : Lowering) (storage : Storage) (items : List Item) (outcome : Outcome)
    (faults : Nat → ItemFaults) : Batch :=
  processItems lowering items faults (startBatch storage outcome)

structure EventFeedPage where
  items : List Item
  nextCursor : Int
  hasMore : Bool
  totalCount : Int

/-- The feed as its contract has it: the events strictly after a cursor, by their cursors,
and at most as many as the limit. -/
def getEventFeed (feed : List Item) (after : Int) (limit : Nat) : EventFeedPage :=
  let later := feed.filter fun item => after < item.cursor
  let items := later.take limit
  { items := items
    nextCursor := (items.map (·.cursor)).getLastD after
    hasMore := limit < later.length
    totalCount := feed.length }

structure PollFaults where
  read : Outcome
  batchRead : Outcome
  items : Nat → ItemFaults
  lastRead : Outcome

def allDone : ItemFaults := ⟨.done, .done, .done, .done⟩

def noFaults : PollFaults := ⟨.done, .done, fun _ => allDone, .done⟩

structure PollResult where
  eventsReceived : Nat
  processedCount : Nat
  duplicateCount : Nat
  quarantineCount : Nat
  hasMore : Bool
  checkpointCursor : Int
  remoteLatestCursor : Int
  cursorLag : Int
  lastEventOccurredAt : Option Int
  deriving DecidableEq, Repr

structure Consumer where
  storage : Storage
  remoteLatestCursor : Int

def pollRead (storage : Storage) (outcome : Outcome) : Storage × Int :=
  let (storage, checkpoint) := storage.call outcome Store.getCheckpoint
  (storage, checkpoint.lastCursor)

/-- The rest of poll_once, once the feed has answered. -/
def pollPage (lowering : Lowering) (consumer : Consumer) (page : EventFeedPage) (faults : PollFaults) :
    Consumer × PollResult :=
  let remoteMax := (page.items.map (·.cursor)).foldl max page.nextCursor
  let remoteMax := if 0 < page.totalCount then max remoteMax page.totalCount else remoteMax
  let remoteLatestCursor := max consumer.remoteLatestCursor remoteMax
  let batch := processBatch lowering consumer.storage page.items faults.batchRead faults.items
  let (storage, updated) := batch.storage.call faults.lastRead Store.getCheckpoint
  (⟨storage, remoteLatestCursor⟩,
    { eventsReceived := page.items.length
      processedCount := batch.processedCount
      duplicateCount := batch.duplicateCount
      quarantineCount := batch.quarantineCount
      hasMore := page.hasMore
      checkpointCursor := updated.lastCursor
      remoteLatestCursor := remoteLatestCursor
      cursorLag := max 0 (remoteLatestCursor - batch.currentCursor)
      lastEventOccurredAt := updated.lastEventOccurredAt })

def pollOnce (lowering : Lowering) (consumer : Consumer) (feed : List Item) (limit : Nat) (faults : PollFaults) :
    Consumer × PollResult :=
  let (storage, startCursor) := pollRead consumer.storage faults.read
  pollPage lowering { consumer with storage := storage } (getEventFeed feed startCursor limit) faults

/-- Polls until the feed has no more, and as many as maxPages. -/
def pollUntilCaughtUp (lowering : Lowering) (feed : List Item) (limit : Nat) :
    (maxPages : Nat) → (Nat → PollFaults) → Consumer → Consumer × List PollResult
  | 0, _, consumer => (consumer, [])
  | maxPages + 1, faults, consumer =>
      let (consumer, res) := pollOnce lowering consumer feed limit (faults 0)
      if !res.hasMore || res.eventsReceived == 0 then (consumer, [res])
      else
        let (consumer, results) := pollUntilCaughtUp lowering feed limit maxPages (fun n => faults (n + 1)) consumer
        (consumer, res :: results)

end EtranProcessing.Feed.EventConsumer
