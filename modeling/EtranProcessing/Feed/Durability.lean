import EtranProcessing.Feed.EventConsumer
import EtranProcessing.Library.Runs

namespace EtranProcessing.Feed.Durability

open Library.Runs ConsumerStorage EventConsumer

def cursorOf (store : Store) : Int :=
  match store.checkpoint with
  | some checkpoint => checkpoint.lastCursor
  | none => 0

def holds (store : Store) (item : Item) : Bool :=
  store.knows item.eventId ||
    store.quarantine.any fun entry => entry.eventId == item.eventId && entry.cursor == item.cursor

def HoldsUpTo (lowering : Lowering) (feed : List Item) (db : Store) (bound : Int) : Prop :=
  ∀ item ∈ feed, valid lowering item = true → item.cursor ≤ bound → holds db item = true

instance (lowering : Lowering) (feed : List Item) (db : Store) (bound : Int) :
    Decidable (HoldsUpTo lowering feed db bound) :=
  inferInstanceAs (Decidable (∀ item ∈ feed, valid lowering item = true → item.cursor ≤ bound → holds db item = true))

/-- A valid event that the database does not hold is taken for a known one by the fallback, or
is written to the fallback only. -/
def strays (lowering : Lowering) (faults : ItemFaults) (b : Batch) (item : Item) : Bool :=
  valid lowering item && !holds b.storage.db item &&
    ((faults.hasEvent != .done && b.storage.memory.knows item.eventId) ||
      if item.cursor ≤ b.currentCursor ∨ item.cursor ≤ b.prevItemCursor then faults.saveQuarantine == .lost
      else faults.saveInboxEvent == .lost)

def stores (lowering : Lowering) (faults : ItemFaults) (b : Batch) (item : Item) : Bool :=
  valid lowering item && b.currentCursor < item.cursor && faults.updateCheckpoint != .lost

def steadyItems (lowering : Lowering) : List Item → (Nat → ItemFaults) → Batch → Bool → Bool
  | [], _, _, _ => true
  | item :: items, faults, b, clean =>
      let clean := clean && !strays lowering (faults 0) b item
      (!stores lowering (faults 0) b item || clean) &&
        steadyItems lowering items (fun n => faults (n + 1)) (processItem lowering (faults 0) b item) clean

structure World where
  feed : List Item
  consumer : Consumer
  delivered : List Item

/-- Events come to the end of the feed, the consumer polls it, and its process may start anew. -/
inductive Event where
  | publish (item : Item)
  | poll (limit : Nat) (faults : PollFaults)
  | pollFails (read : Outcome)
  | restart

def step (lowering : Lowering) (w : World) : Event → World
  | .publish item => if ∀ other ∈ w.feed, other.cursor < item.cursor then { w with feed := w.feed ++ [item] } else w
  | .poll limit faults =>
      let start := (pollRead w.consumer.storage faults.read).2
      { w with
        consumer := (pollOnce lowering w.consumer w.feed limit faults).1
        delivered := w.delivered ++ (getEventFeed w.feed start limit).items }
  | .pollFails read =>
      { w with consumer := { w.consumer with storage := (pollRead w.consumer.storage read).1 } }
  | .restart => { w with consumer := ⟨⟨w.consumer.storage.db, Store.empty⟩, 0⟩ }

/-- The cursors that a poll and its batch start from: no event that the database does not hold is
before the first, and they are not both before the cursor of the database. -/
def StartsWell (lowering : Lowering) (feed : List Item) (db : Store) (start current : Int) : Prop :=
  HoldsUpTo lowering feed db start ∧ (cursorOf db ≤ start ∨ cursorOf db ≤ current)

instance (lowering : Lowering) (feed : List Item) (db : Store) (start current : Int) :
    Decidable (StartsWell lowering feed db start current) :=
  inferInstanceAs (Decidable (_ ∧ _))

/-- In a poll, the database stores a checkpoint only while the poll started well and nothing strayed. -/
def Steady (lowering : Lowering) (w : World) : Event → Prop
  | .poll limit faults =>
      let (storage, start) := pollRead w.consumer.storage faults.read
      let batch := startBatch storage faults.batchRead
      steadyItems lowering (getEventFeed w.feed start limit).items faults.items batch
        (StartsWell lowering w.feed storage.db start batch.currentCursor) = true
  | _ => True

instance (lowering : Lowering) (w : World) (event : Event) : Decidable (Steady lowering w event) :=
  match event with
  | .publish _ => inferInstanceAs (Decidable True)
  | .poll _ _ => inferInstanceAs (Decidable (_ = true))
  | .pollFails _ => inferInstanceAs (Decidable True)
  | .restart => inferInstanceAs (Decidable True)

section Stores

variable {store : Store}

theorem cursorOf_getCheckpoint : cursorOf store.getCheckpoint.1 = cursorOf store := by
  obtain ⟨checkpoint, inbox, quarantine⟩ := store
  cases checkpoint <;> rfl

theorem getCheckpoint_lastCursor : store.getCheckpoint.2.lastCursor = cursorOf store := by
  obtain ⟨checkpoint, inbox, quarantine⟩ := store
  cases checkpoint <;> rfl

theorem holds_of_knows {item : Item} (h : store.knows item.eventId = true) : holds store item = true := by
  simp [holds, h]

theorem holds_saveQuarantine {item : Item} (errorCode : ErrorCode) (errorDetail : String) :
    holds (store.saveQuarantine ⟨item.eventId, item.cursor, errorCode, errorDetail, item⟩).1 item = true := by
  simp [holds, Store.saveQuarantine]

end Stores

section Items

variable {lowering : Lowering} {faults : ItemFaults} {b : Batch} {item : Item}

structure Keeps (db db' : Store) : Prop where
  holds : ∀ item, holds db item = true → holds db' item = true
  checkpoint : db'.checkpoint = db.checkpoint

theorem Keeps.refl (db : Store) : Keeps db db := ⟨fun _ h => h, rfl⟩

theorem Keeps.trans {db db' db'' : Store} (h : Keeps db db') (h' : Keeps db' db'') : Keeps db db'' :=
  ⟨fun item hitem => h'.holds item (h.holds item hitem), h'.checkpoint.trans h.checkpoint⟩

theorem Keeps.call {α : Type} {operation : Store → Store × α} (storage : Storage) (outcome : Outcome)
    (h : Keeps storage.db (operation storage.db).1) : Keeps storage.db (storage.call outcome operation).1.db := by
  rw [Storage.call_db]
  split
  · exact .refl _
  · exact h

theorem keeps_saveQuarantine (entry : Quarantined) (store : Store) : Keeps store (store.saveQuarantine entry).1 := by
  refine ⟨?_, rfl⟩
  intro item h
  simp only [holds, Store.saveQuarantine, Store.knows, Bool.or_eq_true, List.any_append] at h ⊢
  rcases h with h | h
  · exact .inl h
  · exact .inr (.inl h)

theorem keeps_saveInboxEvent (item : Item) (store : Store) : Keeps store (store.saveInboxEvent item).1 := by
  unfold Store.saveInboxEvent
  split
  · exact .refl _
  · refine ⟨?_, rfl⟩
    intro other h
    simp only [holds, Store.knows, Bool.or_eq_true, List.any_append] at h ⊢
    rcases h with h | h
    · exact .inl (.inl h)
    · exact .inr h

theorem keeps_quarantine (b : Batch) (faults : ItemFaults) (item : Item) (errorCode : ErrorCode)
    (errorDetail : String) : Keeps b.storage.db (b.quarantine faults item errorCode errorDetail).storage.db :=
  .call _ _ (keeps_saveQuarantine _ _)

theorem hasEvent_db (storage : Storage) (outcome : Outcome) (eventId : String) :
    (storage.call outcome (Store.hasEvent eventId)).1.db = storage.db := by
  rw [Storage.call_db]
  split <;> rfl

/-- What a round of the loop makes of the cursor and of the checkpoint in the database. -/
inductive Moves (lowering : Lowering) (faults : ItemFaults) (b : Batch) (item : Item) (b' : Batch) : Prop where
  | stays (hkeeps : Keeps b.storage.db b'.storage.db) (hcursor : b'.currentCursor = b.currentCursor)
  | advances (db : Store) (hvalid : valid lowering item = true) (hkeeps : Keeps b.storage.db db)
      (hlt : b.currentCursor < item.cursor) (hcursor : b'.currentCursor = item.cursor)
      (hdb : b'.storage.db = if faults.updateCheckpoint = .lost then db
        else (db.updateCheckpoint ⟨item.cursor, item.eventId, item.occurredAt⟩).1)

theorem advance_moves {b₁ : Batch} (hvalid : valid lowering item = true)
    (hkeeps : Keeps b.storage.db b₁.storage.db) (hlt : b.currentCursor < item.cursor) :
    Moves lowering faults b item (b₁.advance faults item) :=
  .advances b₁.storage.db hvalid hkeeps hlt rfl (Storage.call_db _ _ _)

theorem processOldItem_moves : Moves lowering faults b item (processOldItem faults b item) := by
  have hdb := hasEvent_db b.storage faults.hasEvent item.eventId
  simp only [processOldItem]
  generalize b.storage.call faults.hasEvent (Store.hasEvent item.eventId) = answer at hdb ⊢
  obtain ⟨storage, known⟩ := answer
  have hkeeps : Keeps b.storage.db storage.db := hdb ▸ .refl _
  split
  · exact .stays hkeeps rfl
  · exact .stays (hkeeps.trans (keeps_quarantine { b with storage := storage } _ _ _ _)) rfl

theorem processNewItem_moves (hvalid : valid lowering item = true) (hlt : b.currentCursor < item.cursor) :
    Moves lowering faults b item (processNewItem faults b item) := by
  have hdb := hasEvent_db b.storage faults.hasEvent item.eventId
  simp only [processNewItem]
  generalize b.storage.call faults.hasEvent (Store.hasEvent item.eventId) = answer at hdb ⊢
  obtain ⟨storage, known⟩ := answer
  have hkeeps : Keeps b.storage.db storage.db := hdb ▸ .refl _
  split
  · exact advance_moves hvalid hkeeps hlt
  · have hsave : Keeps storage.db (storage.call faults.saveInboxEvent (Store.saveInboxEvent item)).1.db :=
      .call _ _ (keeps_saveInboxEvent _ _)
    generalize storage.call faults.saveInboxEvent (Store.saveInboxEvent item) = answer at hsave ⊢
    obtain ⟨storage', saved⟩ := answer
    split
    · exact advance_moves hvalid (hkeeps.trans hsave) hlt
    · exact .stays (hkeeps.trans hsave) rfl

theorem processItem_moves (lowering : Lowering) (faults : ItemFaults) (b : Batch) (item : Item) :
    Moves lowering faults b item (processItem lowering faults b item) := by
  unfold processItem
  split
  · exact .stays (keeps_quarantine _ _ _ _ _) rfl
  next hreason =>
    have hvalid : valid lowering item = true := by simp [valid, hreason]
    split
    · exact processOldItem_moves
    next hlt =>
      split
      · exact .stays (keeps_quarantine _ _ _ _ _) rfl
      · exact processNewItem_moves hvalid (by omega)

theorem holds_quarantine (errorCode : ErrorCode) (errorDetail : String) (h : faults.saveQuarantine ≠ .lost) :
    holds (b.quarantine faults item errorCode errorDetail).storage.db item = true := by
  simp only [Batch.quarantine, Storage.call_db, if_neg h]
  exact holds_saveQuarantine errorCode errorDetail

theorem not_strays (hvalid : valid lowering item = true) (h : strays lowering faults b item = false) :
    holds b.storage.db item = true ∨ ((faults.hasEvent = .done ∨ b.storage.memory.knows item.eventId = false) ∧
      if item.cursor ≤ b.currentCursor ∨ item.cursor ≤ b.prevItemCursor then faults.saveQuarantine ≠ .lost
      else faults.saveInboxEvent ≠ .lost) := by
  simp only [strays, hvalid, Bool.true_and] at h
  cases hheld : holds b.storage.db item with
  | true => exact .inl rfl
  | false =>
      simp only [hheld, Bool.not_false, Bool.true_and, Bool.or_eq_false_iff, Bool.and_eq_false_iff,
        bne_eq_false_iff_eq] at h
      refine .inr ⟨h.1, ?_⟩
      split at h
      next hold => simpa [hold] using h.2
      next hnew => simpa [hnew] using h.2

theorem holds_of_known (hvalid : valid lowering item = true) (h : strays lowering faults b item = false)
    (hknown : (b.storage.call faults.hasEvent (Store.hasEvent item.eventId)).2 = true) :
    holds b.storage.db item = true := by
  rcases not_strays hvalid h with hheld | ⟨hanswer, _⟩
  · exact hheld
  · rw [Storage.call_answer] at hknown
    split at hknown
    · exact holds_of_knows hknown
    next hne =>
      rcases hanswer with hdone | hunknown
      · exact absurd hdone hne
      · simp [Store.hasEvent, hunknown] at hknown

theorem holds_advance (b : Batch) (faults : ItemFaults) (item other : Item) :
    holds (b.advance faults item).storage.db other = holds b.storage.db other := by
  simp only [Batch.advance, Storage.call_db]
  split <;> rfl

theorem Moves.holds {b' : Batch} (h : Moves lowering faults b item b') (other : Item)
    (hother : Durability.holds b.storage.db other = true) : Durability.holds b'.storage.db other = true := by
  cases h with
  | stays hkeeps hcursor => exact hkeeps.holds other hother
  | advances db hvalid hkeeps hlt hcursor hdb =>
      rw [hdb]
      split
      · exact hkeeps.holds other hother
      · exact hkeeps.holds other hother

theorem holds_processNewItem (hsave : faults.saveInboxEvent ≠ .lost)
    (hknown : (b.storage.call faults.hasEvent (Store.hasEvent item.eventId)).2 = false) :
    holds (processNewItem faults b item).storage.db item = true := by
  simp only [processNewItem]
  generalize b.storage.call faults.hasEvent (Store.hasEvent item.eventId) = answer at hknown ⊢
  obtain ⟨storage, known⟩ := answer
  simp only at hknown
  have hsaved : holds (storage.call faults.saveInboxEvent (Store.saveInboxEvent item)).1.db item = true := by
    rw [Storage.call_db, if_neg hsave]
    exact holds_of_knows (Store.knows_saveInboxEvent _ item)
  generalize storage.call faults.saveInboxEvent (Store.saveInboxEvent item) = answer at hsaved ⊢
  obtain ⟨storage', saved⟩ := answer
  simp only [hknown, Bool.false_eq_true, if_false]
  split
  · rw [holds_advance]
    exact hsaved
  · exact hsaved

theorem holds_processItem (hvalid : valid lowering item = true) (h : strays lowering faults b item = false) :
    holds (processItem lowering faults b item).storage.db item = true := by
  rcases not_strays hvalid h with hheld | ⟨_, hwritten⟩
  · exact (processItem_moves lowering faults b item).holds item hheld
  · cases hknown : (b.storage.call faults.hasEvent (Store.hasEvent item.eventId)).2 with
    | true => exact (processItem_moves lowering faults b item).holds item (holds_of_known hvalid h hknown)
    | false =>
        unfold processItem
        split
        next hreason => simp [valid, hreason] at hvalid
        next =>
          split
          next hold =>
            rw [if_pos (.inl hold)] at hwritten
            simp only [processOldItem]
            generalize b.storage.call faults.hasEvent (Store.hasEvent item.eventId) = answer at hknown ⊢
            obtain ⟨storage, known⟩ := answer
            simp only at hknown
            simp only [hknown, Bool.false_eq_true, if_false]
            exact holds_quarantine _ _ hwritten
          next hcurrent =>
            split
            next hprev =>
              rw [if_pos (.inr hprev)] at hwritten
              exact holds_quarantine _ _ hwritten
            next hprev =>
              rw [if_neg (not_or.mpr ⟨hcurrent, hprev⟩)] at hwritten
              exact holds_processNewItem hwritten hknown

end Items

section Loop

variable {lowering : Lowering} {feed : List Item}

/-- The database only gains, and its cursor goes to an event of the feed. -/
structure Grows (feed : List Item) (db db' : Store) : Prop where
  holds : ∀ item, holds db item = true → holds db' item = true
  cursor : cursorOf db ≤ cursorOf db'
  row : db.checkpoint.isSome = true → db'.checkpoint.isSome = true
  reached : cursorOf db' = cursorOf db ∨ ∃ item ∈ feed, cursorOf db' = item.cursor

theorem Grows.refl (feed : List Item) (db : Store) : Grows feed db db :=
  ⟨fun _ h => h, Int.le_refl _, fun h => h, .inl rfl⟩

theorem Grows.trans {db db' db'' : Store} (h : Grows feed db db') (h' : Grows feed db' db'') : Grows feed db db'' where
  holds item hitem := h'.holds item (h.holds item hitem)
  cursor := Int.le_trans h.cursor h'.cursor
  row hrow := h'.row (h.row hrow)
  reached := by
    rcases h'.reached with hsame | hitem
    · rw [hsame]
      exact h.reached
    · exact .inr hitem

variable {faults : ItemFaults} {db db' : Store} {item : Item}

theorem Keeps.cursorOf (h : Keeps db db') : cursorOf db' = cursorOf db := by
  unfold Durability.cursorOf
  rw [h.checkpoint]

theorem Keeps.grows (h : Keeps db db') (feed : List Item) : Grows feed db db' where
  holds := h.holds
  cursor := Int.le_of_eq h.cursorOf.symm
  row hrow := by rw [h.checkpoint, hrow]
  reached := .inl h.cursorOf

theorem Moves.keeps {b b' : Batch} (h : Moves lowering faults b item b')
    (hstores : stores lowering faults b item = false) : Keeps b.storage.db b'.storage.db := by
  cases h with
  | stays hkeeps hcursor => exact hkeeps
  | advances db hvalid hkeeps hlt hcursor hdb =>
      have hlost : faults.updateCheckpoint = .lost := by simpa [stores, hvalid, hlt] using hstores
      rw [hdb, if_pos hlost]
      exact hkeeps

theorem Keeps.holdsUpTo (h : Keeps db db')
    (hdb : HoldsUpTo lowering feed db (Durability.cursorOf db)) :
    HoldsUpTo lowering feed db' (Durability.cursorOf db') := by
  intro item hitem hvalid hle
  rw [h.cursorOf] at hle
  exact h.holds item (hdb item hitem hvalid hle)

theorem processItems_keeps (items : List Item) (faults : Nat → ItemFaults) (b : Batch)
    (h : steadyItems lowering items faults b false = true) :
    Keeps b.storage.db (processItems lowering items faults b).storage.db := by
  induction items generalizing faults b with
  | nil => exact .refl _
  | cons item items ih =>
      simp only [steadyItems, Bool.false_and, Bool.or_false, Bool.and_eq_true, Bool.not_eq_true'] at h
      obtain ⟨hstores, hrest⟩ := h
      exact ((processItem_moves lowering (faults 0) b item).keeps hstores).trans (ih _ _ hrest)

theorem Moves.grows {b b' : Batch} (h : Moves lowering faults b item b')
    (hitem : item ∈ feed) (hcursor : cursorOf b.storage.db < item.cursor ∨ cursorOf b.storage.db ≤ b.currentCursor) :
    Grows feed b.storage.db b'.storage.db ∧
      (cursorOf b'.storage.db = cursorOf b.storage.db ∨ cursorOf b'.storage.db = item.cursor) ∧
      (cursorOf b.storage.db ≤ b.currentCursor → cursorOf b'.storage.db ≤ b'.currentCursor) := by
  cases h with
  | stays hkeeps hsame =>
      refine ⟨hkeeps.grows feed, .inl hkeeps.cursorOf, ?_⟩
      intro hle
      rw [hkeeps.cursorOf, hsame]
      exact hle
  | advances db hvalid hkeeps hlt hsame hdb =>
      rw [hdb]
      split
      · refine ⟨hkeeps.grows feed, .inl hkeeps.cursorOf, ?_⟩
        rw [hkeeps.cursorOf, hsame]
        omega
      · have hitemCursor : cursorOf (db.updateCheckpoint ⟨item.cursor, item.eventId, item.occurredAt⟩).1 = item.cursor :=
          rfl
        refine ⟨⟨hkeeps.holds, by omega, fun _ => rfl, .inr ⟨item, hitem, hitemCursor⟩⟩, .inr hitemCursor, ?_⟩
        rw [hsame, hitemCursor]
        omega

theorem holdsUpTo_processItem {b : Batch} {items : List Item} {bound : Int}
    (hheld : HoldsUpTo lowering feed b.storage.db bound) (hlt : bound < item.cursor)
    (hlater : ∀ other ∈ items, item.cursor < other.cursor)
    (hnext : ∀ e ∈ feed, bound < e.cursor → e.cursor ≤ item.cursor → e ∈ item :: items)
    (hstrays : strays lowering faults b item = false) :
    HoldsUpTo lowering feed (processItem lowering faults b item).storage.db item.cursor := by
  intro other hother hvalid hle
  by_cases hold : other.cursor ≤ bound
  · exact (processItem_moves lowering faults b item).holds other (hheld other hother hvalid hold)
  · rcases List.mem_cons.mp (hnext other hother (by omega) hle) with rfl | hmem
    · exact holds_processItem hvalid hstrays
    · have hafter := hlater other hmem
      omega

theorem processItems_grows (items : List Item) (faults : Nat → ItemFaults) (b : Batch) (bound : Int)
    (hitems : ∀ item ∈ items, item ∈ feed ∧ bound < item.cursor)
    (hsorted : items.Pairwise fun i j => i.cursor < j.cursor)
    (hnext : ∀ e ∈ feed, bound < e.cursor → ∀ r ∈ items, e.cursor ≤ r.cursor → e ∈ items)
    (hheld : HoldsUpTo lowering feed b.storage.db bound)
    (hdb : HoldsUpTo lowering feed b.storage.db (cursorOf b.storage.db))
    (hcursor : cursorOf b.storage.db ≤ bound ∨ cursorOf b.storage.db ≤ b.currentCursor)
    (h : steadyItems lowering items faults b true = true) :
    Grows feed b.storage.db (processItems lowering items faults b).storage.db ∧
      HoldsUpTo lowering feed (processItems lowering items faults b).storage.db
        (cursorOf (processItems lowering items faults b).storage.db) := by
  induction items generalizing faults b bound with
  | nil => exact ⟨.refl feed _, hdb⟩
  | cons item items ih =>
      simp only [processItems]
      have hmoves := processItem_moves lowering (faults 0) b item
      obtain ⟨hfeed, hlt⟩ := hitems item List.mem_cons_self
      simp only [steadyItems, Bool.true_and, Bool.and_eq_true, Bool.or_eq_true, Bool.not_eq_true'] at h
      obtain ⟨hstores, hrest⟩ := h
      cases hstrays : strays lowering (faults 0) b item with
      | true =>
          rw [hstrays] at hstores hrest
          have hkeeps := (hmoves.keeps (by simpa using hstores)).trans (processItems_keeps items _ _ hrest)
          exact ⟨hkeeps.grows feed, hkeeps.holdsUpTo hdb⟩
      | false =>
          rw [hstrays] at hrest
          rw [List.pairwise_cons] at hsorted
          obtain ⟨hgrows, hto, hcurrent⟩ := hmoves.grows hfeed (by omega)
          have hheld' := holdsUpTo_processItem hheld hlt hsorted.1
            (fun e he hafter hle => hnext e he hafter item List.mem_cons_self hle) hstrays
          have hrun := ih (fun n => faults (n + 1)) (processItem lowering (faults 0) b item) item.cursor ?_ hsorted.2 ?_
            hheld' ?_ ?_ hrest
          · exact ⟨hgrows.trans hrun.1, hrun.2⟩
          · intro other hother
            exact ⟨(hitems other (List.mem_cons_of_mem _ hother)).1, hsorted.1 other hother⟩
          · intro other hother hafter r hr hle
            rcases List.mem_cons.mp (hnext other hother (by omega) r (List.mem_cons_of_mem _ hr) hle) with rfl | hlater
            · omega
            · exact hlater
          · rcases hto with hsame | hitem
            · intro other hother hvalid hle
              exact hgrows.holds other (hdb other hother hvalid (hsame ▸ hle))
            · rw [hitem]
              exact hheld'
          · omega

end Loop

section Polls

variable {lowering : Lowering} {feed : List Item}

theorem getCheckpoint_grows (storage : Storage) (outcome : Outcome) (feed : List Item) :
    Grows feed storage.db (storage.call outcome Store.getCheckpoint).1.db ∧
      cursorOf (storage.call outcome Store.getCheckpoint).1.db = cursorOf storage.db := by
  rw [Storage.call_db]
  split
  · exact ⟨.refl feed _, rfl⟩
  · refine ⟨⟨?_, Int.le_of_eq cursorOf_getCheckpoint.symm, ?_, .inl cursorOf_getCheckpoint⟩, cursorOf_getCheckpoint⟩
    · intro item h
      simpa [holds, Store.knows] using h
    · intro h
      unfold Store.getCheckpoint
      split
      · exact h
      · rfl

theorem Grows.holdsUpTo {db db' : Store} (h : Grows feed db db') {bound : Int}
    (hdb : HoldsUpTo lowering feed db bound) : HoldsUpTo lowering feed db' bound := by
  intro item hitem hvalid hle
  exact h.holds item (hdb item hitem hvalid hle)

variable {limit : Nat} {after : Int}

theorem mem_page (hsorted : feed.Pairwise fun i j => i.cursor < j.cursor) {e r : Item}
    (he : e ∈ feed) (hafter : after < e.cursor) (hr : r ∈ (getEventFeed feed after limit).items)
    (hle : e.cursor ≤ r.cursor) : e ∈ (getEventFeed feed after limit).items := by
  simp only [getEventFeed] at hr ⊢
  have hlater : e ∈ feed.filter fun item => after < item.cursor := by simp [he, hafter]
  rw [← List.take_append_drop limit (feed.filter fun item => after < item.cursor)] at hlater
  rcases List.mem_append.mp hlater with htake | hdrop
  · exact htake
  · have hfilter := hsorted.filter fun item => after < item.cursor
    rw [← List.take_append_drop limit (feed.filter fun item => after < item.cursor), List.pairwise_append] at hfilter
    have hlt := hfilter.2.2 r hr e hdrop
    omega

theorem page_sorted (hsorted : feed.Pairwise fun i j => i.cursor < j.cursor) :
    (getEventFeed feed after limit).items.Pairwise fun i j => i.cursor < j.cursor :=
  (hsorted.filter _).take

theorem page_feed {item : Item} (h : item ∈ (getEventFeed feed after limit).items) :
    item ∈ feed ∧ after < item.cursor := by
  have hmem := List.mem_of_mem_take h
  simpa using hmem

theorem processBatch_grows {storage : Storage} {start : Int} {outcome : Outcome}
    {faults : Nat → ItemFaults} (hsorted : feed.Pairwise fun i j => i.cursor < j.cursor)
    (hdb : HoldsUpTo lowering feed storage.db (cursorOf storage.db))
    (h : steadyItems lowering (getEventFeed feed start limit).items faults (startBatch storage outcome)
      (StartsWell lowering feed storage.db start (startBatch storage outcome).currentCursor) = true) :
    Grows feed storage.db
        (processBatch lowering storage (getEventFeed feed start limit).items outcome faults).storage.db ∧
      HoldsUpTo lowering feed
        (processBatch lowering storage (getEventFeed feed start limit).items outcome faults).storage.db
        (cursorOf (processBatch lowering storage (getEventFeed feed start limit).items outcome faults).storage.db) := by
  obtain ⟨hread, hcursor⟩ := getCheckpoint_grows storage outcome feed
  change Grows feed storage.db (startBatch storage outcome).storage.db at hread
  change cursorOf (startBatch storage outcome).storage.db = cursorOf storage.db at hcursor
  unfold processBatch
  generalize startBatch storage outcome = b at h hread hcursor ⊢
  have hheld : HoldsUpTo lowering feed b.storage.db (cursorOf b.storage.db) := hcursor ▸ hread.holdsUpTo hdb
  by_cases hstart : StartsWell lowering feed storage.db start b.currentCursor
  · rw [decide_eq_true hstart] at h
    have hitems := processItems_grows (getEventFeed feed start limit).items faults b start (fun _ => page_feed)
      (page_sorted hsorted) (fun e he hafter r hr hle => mem_page hsorted he hafter hr hle)
      (hread.holdsUpTo hstart.1) hheld (hcursor ▸ hstart.2) h
    exact ⟨hread.trans hitems.1, hitems.2⟩
  · rw [decide_eq_false hstart] at h
    have hkeeps := processItems_keeps (getEventFeed feed start limit).items faults b h
    exact ⟨hread.trans (hkeeps.grows feed), hkeeps.holdsUpTo hheld⟩

theorem pollOnce_grows {w : World} {faults : PollFaults}
    (hsorted : w.feed.Pairwise fun i j => i.cursor < j.cursor)
    (hdb : HoldsUpTo lowering w.feed w.consumer.storage.db (cursorOf w.consumer.storage.db))
    (h : Steady lowering w (.poll limit faults)) :
    Grows w.feed w.consumer.storage.db (pollOnce lowering w.consumer w.feed limit faults).1.storage.db ∧
      HoldsUpTo lowering w.feed (pollOnce lowering w.consumer w.feed limit faults).1.storage.db
        (cursorOf (pollOnce lowering w.consumer w.feed limit faults).1.storage.db) := by
  obtain ⟨feed, consumer, delivered⟩ := w
  obtain ⟨hread, hcursor⟩ := getCheckpoint_grows consumer.storage faults.read feed
  change Grows feed consumer.storage.db (pollRead consumer.storage faults.read).1.db at hread
  change cursorOf (pollRead consumer.storage faults.read).1.db = _ at hcursor
  simp only [Steady] at h
  simp only [pollOnce, pollPage] at hdb ⊢
  generalize pollRead consumer.storage faults.read = answer at h hread hcursor ⊢
  obtain ⟨storage, start⟩ := answer
  simp only at h hread hcursor ⊢
  have hheld : HoldsUpTo lowering feed storage.db (cursorOf storage.db) := hcursor ▸ hread.holdsUpTo hdb
  obtain ⟨hbatch, hafter⟩ := processBatch_grows hsorted hheld h
  generalize processBatch lowering storage (getEventFeed feed start limit).items faults.batchRead faults.items = batch
    at hbatch hafter ⊢
  obtain ⟨hlast, hsame⟩ := getCheckpoint_grows batch.storage faults.lastRead feed
  exact ⟨hread.trans (hbatch.trans hlast), hsame ▸ hlast.holdsUpTo hafter⟩

end Polls

section Runs

variable {lowering : Lowering}

structure Durable (lowering : Lowering) (w : World) : Prop where
  sorted : w.feed.Pairwise fun i j => i.cursor < j.cursor
  delivered : ∀ item ∈ w.delivered, item ∈ w.feed
  held : HoldsUpTo lowering w.feed w.consumer.storage.db (cursorOf w.consumer.storage.db)
  reached : cursorOf w.consumer.storage.db = 0 ∨ ∃ item ∈ w.feed, cursorOf w.consumer.storage.db = item.cursor

structure Fresh (w : World) : Prop where
  sorted : w.feed.Pairwise fun i j => i.cursor < j.cursor
  delivered : w.delivered = []
  db : w.consumer.storage.db = Store.empty

theorem cursor_pos {item : Item} (h : valid lowering item = true) : 0 < item.cursor := by
  rcases Int.lt_or_le 0 item.cursor with hpos | hle
  · exact hpos
  · simp [valid, validateContractPayload, hle] at h

theorem fresh_durable {w : World} (h : Fresh w) : Durable lowering w where
  sorted := h.sorted
  delivered := by simp [h.delivered]
  held := by
    intro item hitem hvalid hle
    have hpos := cursor_pos hvalid
    rw [h.db] at hle
    have hzero : cursorOf Store.empty = 0 := rfl
    omega
  reached := by
    rw [h.db]
    exact .inl rfl

theorem Grows.reached_feed {feed : List Item} {db db' : Store} (h : Grows feed db db')
    (hdb : cursorOf db = 0 ∨ ∃ item ∈ feed, cursorOf db = item.cursor) :
    cursorOf db' = 0 ∨ ∃ item ∈ feed, cursorOf db' = item.cursor := by
  rcases h.reached with hsame | hitem
  · rw [hsame]
    exact hdb
  · exact .inr hitem

theorem publish_durable {w : World} {item : Item} (hw : Durable lowering w)
    (hlast : ∀ other ∈ w.feed, other.cursor < item.cursor) : Durable lowering { w with feed := w.feed ++ [item] } where
  sorted := by
    refine List.pairwise_append.mpr ⟨hw.sorted, List.pairwise_singleton _ _, ?_⟩
    intro other hother last hmem
    rw [List.mem_singleton.mp hmem]
    exact hlast other hother
  delivered := by
    intro other hother
    exact List.mem_append_left _ (hw.delivered other hother)
  held := by
    intro other hother hvalid hle
    rcases List.mem_append.mp hother with hold | hnew
    · exact hw.held other hold hvalid hle
    · rw [List.mem_singleton.mp hnew] at hvalid hle
      simp only at hle
      have hpos := cursor_pos hvalid
      rcases hw.reached with hzero | ⟨reached, hreached, hcursor⟩
      · omega
      · have hlt := hlast reached hreached
        omega
  reached := by
    rcases hw.reached with hzero | ⟨reached, hreached, hcursor⟩
    · exact .inl hzero
    · exact .inr ⟨reached, List.mem_append_left _ hreached, hcursor⟩

theorem step_durable {w : World} {event : Event} (hw : Durable lowering w) (h : Steady lowering w event) :
    Durable lowering (step lowering w event) ∧
      Grows (step lowering w event).feed w.consumer.storage.db (step lowering w event).consumer.storage.db := by
  cases event with
  | publish item =>
      simp only [step]
      split
      next hlast => exact ⟨publish_durable hw hlast, .refl _ _⟩
      next => exact ⟨hw, .refl _ _⟩
  | poll =>
      obtain ⟨hgrows, hheld⟩ := pollOnce_grows hw.sorted hw.held h
      refine ⟨⟨hw.sorted, ?_, hheld, hgrows.reached_feed hw.reached⟩, hgrows⟩
      intro item hitem
      rcases List.mem_append.mp hitem with hold | hnew
      · exact hw.delivered item hold
      · exact (page_feed hnew).1
  | pollFails read =>
      obtain ⟨hgrows, hcursor⟩ := getCheckpoint_grows w.consumer.storage read w.feed
      refine ⟨⟨hw.sorted, hw.delivered, ?_, hgrows.reached_feed hw.reached⟩, hgrows⟩
      exact hcursor ▸ hgrows.holdsUpTo hw.held
  | restart => exact ⟨⟨hw.sorted, hw.delivered, hw.held, hw.reached⟩, .refl _ _⟩

theorem run_durable (events : List Event) (w : World) (hw : Durable lowering w)
    (h : Along (step lowering) (Steady lowering) w events) :
    Durable lowering (run (step lowering) w events) ∧
      cursorOf w.consumer.storage.db ≤ cursorOf (run (step lowering) w events).consumer.storage.db ∧
      (w.consumer.storage.db.checkpoint.isSome = true →
        (run (step lowering) w events).consumer.storage.db.checkpoint.isSome = true) := by
  induction events generalizing w with
  | nil => exact ⟨hw, Int.le_refl _, fun hrow => hrow⟩
  | cons event events ih =>
      obtain ⟨hsteady, hrest⟩ := h
      obtain ⟨hdurable, hgrows⟩ := step_durable hw hsteady
      obtain ⟨hend, hcursor, hrow⟩ := ih (step lowering w event) hdurable hrest
      exact ⟨hend, Int.le_trans hgrows.cursor hcursor, fun h => hrow (hgrows.row h)⟩

/-- In a run whose polls are steady the cursor in the database never decreases, and the database holds
every valid event that was delivered and that its checkpoint has passed. -/
theorem steady_runs_durable (lowering : Lowering) (start : World) (hstart : Fresh start) (before after : List Event)
    (hsteady : Along (step lowering) (Steady lowering) start (before ++ after)) :
    (∀ checkpoint, (run (step lowering) start before).consumer.storage.db.checkpoint = some checkpoint →
      ∃ later, (run (step lowering) start (before ++ after)).consumer.storage.db.checkpoint = some later ∧
        checkpoint.lastCursor ≤ later.lastCursor) ∧
    (∀ checkpoint, (run (step lowering) start (before ++ after)).consumer.storage.db.checkpoint = some checkpoint →
      ∀ item ∈ (run (step lowering) start (before ++ after)).delivered, valid lowering item = true →
        item.cursor ≤ checkpoint.lastCursor →
        holds (run (step lowering) start (before ++ after)).consumer.storage.db item = true) := by
  obtain ⟨hbefore, hafter⟩ := hsteady.split
  have hmiddle := (run_durable before start (fresh_durable hstart) hbefore).1
  obtain ⟨hend, hcursor, hrow⟩ := run_durable after _ hmiddle hafter
  rw [run_append]
  refine ⟨?_, ?_⟩
  · intro checkpoint hcheckpoint
    obtain ⟨later, hlater⟩ := Option.isSome_iff_exists.mp (hrow (by rw [hcheckpoint]; rfl))
    refine ⟨later, hlater, ?_⟩
    simpa [cursorOf, hcheckpoint, hlater] using hcursor
  · intro checkpoint hcheckpoint item hitem hvalid hle
    apply hend.held item (hend.delivered item hitem) hvalid
    simpa [cursorOf, hcheckpoint] using hle

def pythonLower : Lowering := ⟨String.toLower⟩

def sessionOpened : Item := ⟨1, "event-1", 1000000, "sn-1", .scalar⟩

def sessionClosed : Item := ⟨2, "event-2", 2000000, "sn-1", .scalar⟩

def newWorld : World := ⟨[sessionOpened, sessionClosed], ⟨⟨Store.empty, Store.empty⟩, 0⟩, []⟩

theorem newWorld_fresh : Fresh newWorld where
  sorted := by simp [newWorld, sessionOpened, sessionClosed]
  delivered := rfl
  db := rfl

def lostCheckpoint : PollFaults :=
  ⟨.done, .done, fun n => if n = 1 then ⟨.done, .done, .done, .lost⟩ else allDone, .done⟩

def recovery : List Event := [.restart, .poll 10 noFaults]

theorem steady_runs_durable_recovery :
    (run (step pythonLower) newWorld [.poll 10 lostCheckpoint]).consumer.storage.db.checkpoint =
        some ⟨1, "event-1", some 1000000⟩ ∧
      ∃ later, (run (step pythonLower) newWorld ([.poll 10 lostCheckpoint] ++ recovery)).consumer.storage.db.checkpoint =
        some later ∧ 1 ≤ later.lastCursor := by
  have hfirst : (run (step pythonLower) newWorld [.poll 10 lostCheckpoint]).consumer.storage.db.checkpoint =
      some ⟨1, "event-1", some 1000000⟩ := by decide +kernel
  refine ⟨hfirst, ?_⟩
  exact (steady_runs_durable pythonLower newWorld newWorld_fresh [.poll 10 lostCheckpoint] recovery
    ⟨by decide +kernel, trivial, by decide +kernel, trivial⟩).1 _ hfirst

def lostInsert : PollFaults := ⟨.done, .done, fun _ => ⟨.done, .done, .lost, .done⟩, .done⟩

def lostReads : PollFaults := ⟨.lost, .lost, fun _ => allDone, .done⟩

theorem faults_undo_durability :
    Fresh newWorld ∧
    ((run (step pythonLower) newWorld [.poll 1 lostInsert]).consumer.storage.db.checkpoint =
        some ⟨1, "event-1", some 1000000⟩ ∧
      valid pythonLower sessionOpened = true ∧
      (run (step pythonLower) newWorld [.poll 1 lostInsert]).delivered.map (·.eventId) = ["event-1"] ∧
      holds (run (step pythonLower) newWorld [.poll 1 lostInsert]).consumer.storage.db sessionOpened = false) ∧
    ((run (step pythonLower) newWorld [.poll 10 noFaults, .restart]).consumer.storage.db.checkpoint =
        some ⟨2, "event-2", some 2000000⟩ ∧
      (run (step pythonLower) newWorld [.poll 10 noFaults, .restart, .poll 1 lostReads]).consumer.storage.db.checkpoint =
        some ⟨1, "event-1", some 1000000⟩) := by
  refine ⟨newWorld_fresh, ⟨?_, ?_, ?_, ?_⟩, ?_, ?_⟩ <;> decide +kernel

end Runs

end EtranProcessing.Feed.Durability
