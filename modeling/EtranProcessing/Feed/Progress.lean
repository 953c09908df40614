import EtranProcessing.Feed.Durability
import EtranProcessing.Library.Paging

namespace EtranProcessing.Feed.Progress

open ConsumerStorage EventConsumer Durability Library.Paging

section Batches

variable {lowering : Lowering} {b : Batch} {item : Item}

def entryOf (lowering : Lowering) (item : Item) : Option Quarantined :=
  (validateContractPayload lowering item).map fun reason =>
    ⟨item.eventId, item.cursor, .contractValidationFailed, reason, item⟩

theorem filterMap_entryOf_filter (lowering : Lowering) (items : List Item) :
    (items.filter fun item => !valid lowering item).filterMap (entryOf lowering) =
      items.filterMap (entryOf lowering) := by
  rw [List.filterMap_filter]
  congr 1
  funext item
  cases hreason : validateContractPayload lowering item with
  | some reason => simp [valid, hreason]
  | none => simp [entryOf, valid, hreason]

structure Level (b : Batch) : Prop where
  current : b.currentCursor = cursorOf b.storage.db
  prev : b.prevItemCursor = cursorOf b.storage.db

theorem processNewItem_done (b : Batch) (item : Item) :
    Level (processNewItem allDone b item) ∧ cursorOf (processNewItem allDone b item).storage.db = item.cursor ∧
      (processNewItem allDone b item).storage.db.quarantine = b.storage.db.quarantine := by
  cases hknown : b.storage.db.knows item.eventId with
  | true =>
      simp only [processNewItem, allDone, Storage.call, Store.hasEvent, hknown, if_true]
      exact ⟨⟨rfl, rfl⟩, rfl, rfl⟩
  | false =>
      simp only [processNewItem, allDone, Storage.call, Store.hasEvent, Store.saveInboxEvent, hknown,
        Bool.false_eq_true, if_false, if_true]
      exact ⟨⟨rfl, rfl⟩, rfl, rfl⟩

theorem processItem_done (lowering : Lowering) (hlevel : Level b) (hlt : cursorOf b.storage.db < item.cursor) :
    Level (processItem lowering allDone b item) ∧
      cursorOf (processItem lowering allDone b item).storage.db =
        (if valid lowering item = true then item.cursor else cursorOf b.storage.db) ∧
      (processItem lowering allDone b item).storage.db.quarantine =
        b.storage.db.quarantine ++ (entryOf lowering item).toList := by
  unfold processItem
  cases hreason : validateContractPayload lowering item with
  | some reason =>
      have hinvalid : valid lowering item = false := by simp [valid, hreason]
      have hentry : entryOf lowering item =
          some ⟨item.eventId, item.cursor, .contractValidationFailed, reason, item⟩ := by simp [entryOf, hreason]
      rw [hinvalid, hentry]
      exact ⟨⟨hlevel.current, hlevel.prev⟩, rfl, rfl⟩
  | none =>
      have hvalid : valid lowering item = true := by simp [valid, hreason]
      have hentry : entryOf lowering item = none := by simp [entryOf, hreason]
      have hcurrent : ¬item.cursor ≤ b.currentCursor := by
        rw [hlevel.current]
        omega
      have hprev : ¬item.cursor ≤ b.prevItemCursor := by
        rw [hlevel.prev]
        omega
      simp only [hcurrent, hprev, if_false, hvalid, if_true, hentry, Option.toList_none, List.append_nil]
      exact processNewItem_done b item

theorem processItems_done (lowering : Lowering) (items : List Item) (b : Batch) (hlevel : Level b)
    (hsorted : items.Pairwise fun i j => i.cursor < j.cursor)
    (hlt : ∀ item ∈ items, cursorOf b.storage.db < item.cursor) :
    cursorOf (processItems lowering items (fun _ => allDone) b).storage.db =
        ((items.filter (valid lowering)).map (·.cursor)).getLastD (cursorOf b.storage.db) ∧
      (processItems lowering items (fun _ => allDone) b).storage.db.quarantine =
        b.storage.db.quarantine ++ items.filterMap (entryOf lowering) := by
  induction items generalizing b with
  | nil => simp [processItems]
  | cons item items ih =>
      rw [List.pairwise_cons] at hsorted
      have hitem := hlt item List.mem_cons_self
      obtain ⟨hlevel', hcursor, hquarantine⟩ := processItem_done lowering hlevel hitem
      have hlater : ∀ other ∈ items, cursorOf (processItem lowering allDone b item).storage.db < other.cursor := by
        intro other hother
        rw [hcursor]
        split
        · exact hsorted.1 other hother
        · exact hlt other (List.mem_cons_of_mem _ hother)
      obtain ⟨hend, hentries⟩ := ih _ hlevel' hsorted.2 hlater
      simp only [processItems]
      refine ⟨?_, ?_⟩
      · rw [hend, hcursor]
        cases hvalid : valid lowering item with
        | true => rw [List.filter_cons_of_pos hvalid, List.map_cons, List.getLastD_cons, if_pos rfl]
        | false => rw [List.filter_cons_of_neg (by simp [hvalid]), if_neg (by simp)]
      · rw [hentries, hquarantine, List.append_assoc, List.filterMap_cons]
        cases entryOf lowering item <;> rfl

theorem startBatch_level (storage : Storage) :
    Level (startBatch storage .done) ∧ cursorOf (startBatch storage .done).storage.db = cursorOf storage.db ∧
      (startBatch storage .done).storage.db.quarantine = storage.db.quarantine := by
  obtain ⟨⟨checkpoint, inbox, quarantine⟩, memory⟩ := storage
  cases checkpoint <;> exact ⟨⟨rfl, rfl⟩, rfl, rfl⟩

theorem processBatch_done (lowering : Lowering) (storage : Storage) (page : List Item)
    (hsorted : page.Pairwise fun i j => i.cursor < j.cursor)
    (hlt : ∀ item ∈ page, cursorOf storage.db < item.cursor) :
    cursorOf (processBatch lowering storage page .done fun _ => allDone).storage.db =
        ((page.filter (valid lowering)).map (·.cursor)).getLastD (cursorOf storage.db) ∧
      (processBatch lowering storage page .done fun _ => allDone).storage.db.quarantine =
        storage.db.quarantine ++ page.filterMap (entryOf lowering) := by
  obtain ⟨hlevel, hcursor, hquarantine⟩ := startBatch_level storage
  have h := processItems_done lowering page _ hlevel hsorted (hcursor ▸ hlt)
  rwa [hcursor, hquarantine] at h

theorem lastCursor_cases (items : List Item) (cursor : Int) :
    (items.map (·.cursor)).getLastD cursor = cursor ∨
      ∃ item ∈ items, (items.map (·.cursor)).getLastD cursor = item.cursor := by
  have hmem := List.getLastD_mem_cons (l := items.map (·.cursor)) (a := cursor)
  rcases List.mem_cons.mp hmem with hsame | hevent
  · exact .inl hsame
  · obtain ⟨item, hitem, hcursor⟩ := List.mem_map.mp hevent
    exact .inr ⟨item, hitem, hcursor.symm⟩

theorem le_lastCursor {items : List Item} (hsorted : items.Pairwise fun i j => i.cursor < j.cursor) (cursor : Int)
    {item : Item} (hitem : item ∈ items) : item.cursor ≤ (items.map (·.cursor)).getLastD cursor := by
  obtain ⟨init, last, hitems⟩ := (List.eq_nil_or_concat items).resolve_left (List.ne_nil_of_mem hitem)
  rw [List.concat_eq_append] at hitems
  subst hitems
  rw [List.pairwise_append] at hsorted
  simp only [List.map_append, List.map_cons, List.map_nil, List.getLastD_concat]
  rcases List.mem_append.mp hitem with hinit | hlast
  · exact Int.le_of_lt (hsorted.2.2 item hinit last (by simp))
  · exact Int.le_of_eq (congrArg Item.cursor (List.mem_singleton.mp hlast))

theorem processBatch_reaches_last (storage : Storage) (page : List Item) (hne : page ≠ [])
    (hsorted : page.Pairwise fun i j => i.cursor < j.cursor)
    (hlt : ∀ item ∈ page, cursorOf storage.db < item.cursor) :
    cursorOf (processBatch lowering storage page .done fun _ => allDone).storage.db = (page.getLast hne).cursor ↔
      valid lowering (page.getLast hne) = true := by
  rw [(processBatch_done lowering storage page hsorted hlt).1]
  obtain ⟨init, last, hpage⟩ := (List.eq_nil_or_concat page).resolve_left hne
  rw [List.concat_eq_append] at hpage
  subst hpage
  rw [List.getLast_append_singleton, List.filter_append, List.map_append]
  cases hvalid : valid lowering last with
  | true => simp [hvalid]
  | false =>
      rw [List.pairwise_append] at hsorted
      rw [List.filter_cons_of_neg (by simp [hvalid]), List.filter_nil, List.map_nil, List.append_nil]
      -- the cursor is the one of the checkpoint or of an event before the last
      have hbefore : ((init.filter (valid lowering)).map (·.cursor)).getLastD (cursorOf storage.db) < last.cursor := by
        rcases lastCursor_cases (init.filter (valid lowering)) (cursorOf storage.db) with hsame | ⟨other, hother, hcursor⟩
        · rw [hsame]
          exact hlt last (by simp)
        · rw [hcursor]
          exact hsorted.2.2 other (List.mem_of_mem_filter hother) last (by simp)
      constructor
      · intro h
        omega
      · intro h
        cases h

end Batches

section Polls

variable {lowering : Lowering} {feed : List Item} {limit : Nat}

def ahead (feed : List Item) (store : Store) : List Item := feed.filter fun item => cursorOf store < item.cursor

theorem ahead_sorted (store : Store) (hsorted : feed.Pairwise fun i j => i.cursor < j.cursor) :
    (ahead feed store).Pairwise fun i j => i.cursor < j.cursor := hsorted.filter _

theorem ahead_lt {store : Store} {item : Item} (h : item ∈ ahead feed store) : cursorOf store < item.cursor := by
  simpa using List.of_mem_filter h

theorem ahead_of_moved {moved rest : List Item} {store store' : Store} (h : ahead feed store = moved ++ rest)
    (hsorted : feed.Pairwise fun i j => i.cursor < j.cursor)
    (hcursor : cursorOf store' = (moved.map (·.cursor)).getLastD (cursorOf store)) : ahead feed store' = rest := by
  have hahead := ahead_sorted store hsorted
  rw [h, List.pairwise_append] at hahead
  have hmoved : ∀ item ∈ moved, item.cursor ≤ cursorOf store' := by
    intro item hitem
    rw [hcursor]
    exact le_lastCursor hahead.1 _ hitem
  have hcases := lastCursor_cases moved (cursorOf store)
  rw [← hcursor] at hcases
  have hle : cursorOf store ≤ cursorOf store' := by
    rcases hcases with hsame | ⟨item, hitem, hlast⟩
    · exact Int.le_of_eq hsame.symm
    · rw [hlast]
      exact Int.le_of_lt (ahead_lt (h ▸ List.mem_append_left _ hitem))
  have hrest : ∀ item ∈ rest, cursorOf store' < item.cursor := by
    intro item hitem
    rcases hcases with hsame | ⟨other, hother, hlast⟩
    · rw [hsame]
      exact ahead_lt (h ▸ List.mem_append_right _ hitem)
    · rw [hlast]
      exact hahead.2.2 other hother item hitem
  have hboth : ahead feed store' = (ahead feed store).filter fun item => cursorOf store' < item.cursor := by
    rw [ahead, ahead, List.filter_filter]
    apply List.filter_congr
    intro item _
    simp only [Bool.and_eq_decide, decide_eq_true_eq, decide_eq_decide]
    omega
  rw [hboth, h, List.filter_append, List.filter_eq_nil_iff.mpr, List.filter_eq_self.mpr, List.nil_append]
  · intro item hitem
    simpa using hrest item hitem
  · intro item hitem
    simpa using hmoved item hitem

theorem pollOnce_done (lowering : Lowering) (limit : Nat) (consumer : Consumer)
    (hsorted : feed.Pairwise fun i j => i.cursor < j.cursor) :
    ahead feed (pollOnce lowering consumer feed limit noFaults).1.storage.db =
        next (valid lowering) limit (ahead feed consumer.storage.db) ∧
      (pollOnce lowering consumer feed limit noFaults).1.storage.db.quarantine =
        consumer.storage.db.quarantine ++
          ((ahead feed consumer.storage.db).take limit).filterMap (entryOf lowering) := by
  have hstart : (pollRead consumer.storage .done).2 = cursorOf consumer.storage.db := getCheckpoint_lastCursor
  have hcursor : cursorOf (pollRead consumer.storage .done).1.db = cursorOf consumer.storage.db :=
    cursorOf_getCheckpoint
  have hquarantine : (pollRead consumer.storage .done).1.db.quarantine = consumer.storage.db.quarantine :=
    Store.getCheckpoint_quarantine _
  have hpage : (getEventFeed feed (pollRead consumer.storage .done).2 limit).items =
      (ahead feed consumer.storage.db).take limit := by rw [hstart]; rfl
  simp only [pollOnce, pollPage, noFaults, hpage]
  have hrest := ahead_sorted consumer.storage.db hsorted
  have hbatch := processBatch_done lowering (pollRead consumer.storage .done).1
    ((ahead feed consumer.storage.db).take limit) hrest.take (by
      intro item hitem
      rw [hcursor]
      exact ahead_lt (List.mem_of_mem_take hitem))
  generalize processBatch lowering (pollRead consumer.storage .done).1 ((ahead feed consumer.storage.db).take limit)
    .done (fun _ => allDone) = batch at hbatch ⊢
  rw [hcursor, hquarantine] at hbatch
  refine ⟨?_, ?_⟩
  · apply ahead_of_moved (moved_append_next (ahead feed consumer.storage.db)).symm hsorted
    refine cursorOf_getCheckpoint.trans (hbatch.1.trans ?_)
    rw [List.getLastD_eq_getLast?, List.getLastD_eq_getLast?, List.getLast?_map, List.getLast?_map, getLast?_filter]
  · exact (Store.getCheckpoint_quarantine _).trans hbatch.2

theorem pollOnce_result (lowering : Lowering) (feed : List Item) (limit : Nat) (consumer : Consumer) :
    (pollOnce lowering consumer feed limit noFaults).2.eventsReceived =
        ((ahead feed consumer.storage.db).take limit).length ∧
      (pollOnce lowering consumer feed limit noFaults).2.hasMore =
        decide (limit < (ahead feed consumer.storage.db).length) := by
  have hstart : (pollRead consumer.storage .done).2 = cursorOf consumer.storage.db := getCheckpoint_lastCursor
  simp only [pollOnce, pollPage, noFaults, hstart]
  exact ⟨rfl, rfl⟩

def polls (lowering : Lowering) (feed : List Item) (limit : Nat) (n : Nat) (consumer : Consumer) : Consumer :=
  (fun consumer => (pollOnce lowering consumer feed limit noFaults).1)^[n] consumer

theorem polls_read (lowering : Lowering) (limit : Nat) (hsorted : feed.Pairwise fun i j => i.cursor < j.cursor)
    (n : Nat) (consumer : Consumer) :
    ahead feed (polls lowering feed limit n consumer).storage.db =
        (next (valid lowering) limit)^[n] (ahead feed consumer.storage.db) ∧
      (polls lowering feed limit n consumer).storage.db.quarantine =
        consumer.storage.db.quarantine ++
          (rejected (valid lowering) limit n (ahead feed consumer.storage.db)).filterMap (entryOf lowering) := by
  induction n generalizing consumer with
  | zero => exact ⟨rfl, by simp [rejected, polls]⟩
  | succ n ih =>
      obtain ⟨hahead, hquarantine⟩ := pollOnce_done lowering limit consumer hsorted
      obtain ⟨hend, hentries⟩ := ih (pollOnce lowering consumer feed limit noFaults).1
      refine ⟨?_, ?_⟩
      · rw [Function.iterate_succ_apply, ← hahead]
        exact hend
      · refine hentries.trans ?_
        rw [hquarantine, hahead, rejected, List.filterMap_append, List.append_assoc, filterMap_entryOf_filter]

end Polls

section Ends

variable {lowering : Lowering} {feed : List Item} {limit : Nat}

def timesQuarantined (store : Store) (item : Item) : Nat :=
  store.quarantine.countP fun entry => (entry.eventId, entry.cursor) == (item.eventId, item.cursor)

/-- The checkpoint is past every event of the feed, and each bad event that was ahead of it went to the
quarantine once. -/
structure EndsOnce (lowering : Lowering) (feed : List Item) (before after : Store) : Prop where
  reached : ∀ item ∈ feed, item.cursor ≤ cursorOf after
  once : ∀ item ∈ feed, cursorOf before < item.cursor → valid lowering item = false →
    timesQuarantined after item = timesQuarantined before item + 1

theorem ahead_eq_nil_iff (store : Store) : ahead feed store = [] ↔ ∀ item ∈ feed, item.cursor ≤ cursorOf store := by
  simp [ahead]

theorem countP_filterMap_entryOf (items : List Item) (item : Item) :
    (items.filterMap (entryOf lowering)).countP
        (fun entry => (entry.eventId, entry.cursor) == (item.eventId, item.cursor)) =
      (items.filter fun other => !valid lowering other).countP
        (fun other => (other.eventId, other.cursor) == (item.eventId, item.cursor)) := by
  rw [List.countP_filterMap, List.countP_filter]
  congr 1
  funext other
  cases hreason : validateContractPayload lowering other with
  | some reason | none => simp [entryOf, valid, hreason]

theorem rejected_filter (n : Nat) (rest : List Item) :
    (rejected (valid lowering) limit n rest).filter (fun item => !valid lowering item) =
      rejected (valid lowering) limit n rest := by
  induction n generalizing rest with
  | zero => rfl
  | succ n ih =>
      rw [rejected, List.filter_append, ih, List.filter_filter]
      simp only [Bool.and_self]

theorem timesQuarantined_polls (hsorted : feed.Pairwise fun i j => i.cursor < j.cursor) (n : Nat)
    (consumer : Consumer) (item : Item) :
    timesQuarantined (polls lowering feed limit n consumer).storage.db item =
      timesQuarantined consumer.storage.db item +
        (rejected (valid lowering) limit n (ahead feed consumer.storage.db)).countP
          (fun other => (other.eventId, other.cursor) == (item.eventId, item.cursor)) := by
  rw [timesQuarantined, (polls_read lowering limit hsorted n consumer).2, List.countP_append,
    countP_filterMap_entryOf, rejected_filter]
  rfl

theorem endsOnce_iff_rejected (hsorted : feed.Pairwise fun i j => i.cursor < j.cursor) (n : Nat) (consumer : Consumer) :
    EndsOnce lowering feed consumer.storage.db (polls lowering feed limit n consumer).storage.db ↔
      (next (valid lowering) limit)^[n] (ahead feed consumer.storage.db) = [] ∧
        ∀ item ∈ ahead feed consumer.storage.db, valid lowering item = false →
          (rejected (valid lowering) limit n (ahead feed consumer.storage.db)).countP
            (fun other => (other.eventId, other.cursor) == (item.eventId, item.cursor)) = 1 := by
  rw [← (polls_read lowering limit hsorted n consumer).1, ahead_eq_nil_iff]
  constructor
  · intro h
    refine ⟨h.reached, ?_⟩
    intro item hitem hbad
    have honce := h.once item (List.mem_of_mem_filter hitem) (ahead_lt hitem) hbad
    rw [timesQuarantined_polls hsorted] at honce
    omega
  · rintro ⟨hreached, honce⟩
    refine ⟨hreached, ?_⟩
    intro item hitem hlt hbad
    rw [timesQuarantined_polls hsorted, honce item (by simp [ahead, hitem, hlt]) hbad]

theorem ahead_distinct (store : Store) (hsorted : feed.Pairwise fun i j => i.cursor < j.cursor) :
    (ahead feed store).Pairwise fun i j => (i.eventId, i.cursor) ≠ (j.eventId, j.cursor) := by
  apply (ahead_sorted store hsorted).imp
  intro i j hlt heq
  have hcursor : i.cursor = j.cursor := congrArg Prod.snd heq
  omega

theorem pagesEnd_of_endsOnce (hsorted : feed.Pairwise fun i j => i.cursor < j.cursor) (hlimit : 0 < limit) {n : Nat}
    {consumer : Consumer}
    (h : EndsOnce lowering feed consumer.storage.db (polls lowering feed limit n consumer).storage.db) :
    PagesEnd (valid lowering) limit (ahead feed consumer.storage.db) := by
  obtain ⟨hend, honce⟩ := (endsOnce_iff_rejected hsorted n consumer).mp h
  exact pagesEnd_of_once hlimit n _ (ahead_distinct _ hsorted) hend honce

theorem endsOnce_of_pagesEnd (hsorted : feed.Pairwise fun i j => i.cursor < j.cursor) (hlimit : 0 < limit) {n : Nat}
    {consumer : Consumer} (h : PagesEnd (valid lowering) limit (ahead feed consumer.storage.db))
    (hend : (next (valid lowering) limit)^[n] (ahead feed consumer.storage.db) = []) :
    EndsOnce lowering feed consumer.storage.db (polls lowering feed limit n consumer).storage.db := by
  apply (endsOnce_iff_rejected hsorted n consumer).mpr
  refine ⟨hend, ?_⟩
  intro item hitem hbad
  exact rejected_once hlimit n _ (ahead_distinct _ hsorted) h hend hitem hbad

theorem polls_endsOnce_iff (hsorted : feed.Pairwise fun i j => i.cursor < j.cursor) (hlimit : 0 < limit)
    (consumer : Consumer) :
    (∃ n, ∀ m, n ≤ m → EndsOnce lowering feed consumer.storage.db (polls lowering feed limit m consumer).storage.db) ↔
      PagesEnd (valid lowering) limit (ahead feed consumer.storage.db) := by
  constructor
  · rintro ⟨n, hn⟩
    exact pagesEnd_of_endsOnce hsorted hlimit (hn n (Nat.le_refl n))
  · intro h
    obtain ⟨n, hn⟩ := exists_end hlimit _ h
    refine ⟨n, ?_⟩
    intro m hle
    exact endsOnce_of_pagesEnd hsorted hlimit h (end_mono hn hle)

theorem pollUntilCaughtUp_polls (lowering : Lowering) (feed : List Item) (limit maxPages : Nat) (consumer : Consumer) :
    ∃ n, (pollUntilCaughtUp lowering feed limit maxPages (fun _ => noFaults) consumer).1 =
      polls lowering feed limit n consumer := by
  induction maxPages generalizing consumer with
  | zero => exact ⟨0, rfl⟩
  | succ maxPages ih =>
      obtain ⟨n, hn⟩ := ih (pollOnce lowering consumer feed limit noFaults).1
      simp only [pollUntilCaughtUp]
      split
      · exact ⟨1, rfl⟩
      · exact ⟨n + 1, hn⟩

theorem pollUntilCaughtUp_ends (hsorted : feed.Pairwise fun i j => i.cursor < j.cursor) (hlimit : 0 < limit)
    (maxPages : Nat) (consumer : Consumer)
    (h : PagesEnd (valid lowering) limit (ahead feed consumer.storage.db))
    (hend : (next (valid lowering) limit)^[maxPages] (ahead feed consumer.storage.db) = []) :
    ahead feed (pollUntilCaughtUp lowering feed limit maxPages (fun _ => noFaults) consumer).1.storage.db = [] := by
  induction maxPages generalizing consumer with
  | zero => exact hend
  | succ maxPages ih =>
      obtain ⟨hahead, _⟩ := pollOnce_done lowering limit consumer hsorted
      obtain ⟨hreceived, hmore⟩ := pollOnce_result lowering feed limit consumer
      rw [Function.iterate_succ_apply, ← hahead] at hend
      simp only [pollUntilCaughtUp]
      split
      next hstop =>
        rw [hreceived, hmore] at hstop
        have hshort : (ahead feed consumer.storage.db).length ≤ limit := by
          simp only [Bool.or_eq_true, Bool.not_eq_true', decide_eq_false_iff_not, beq_iff_eq, List.length_take] at hstop
          omega
        exact hahead.trans (next_of_short hlimit hshort h)
      next =>
        apply ih _ _ hend
        rw [hahead]
        exact pagesEnd_next hlimit h

theorem pollUntilCaughtUp_endsOnce_iff (hsorted : feed.Pairwise fun i j => i.cursor < j.cursor) (hlimit : 0 < limit)
    (consumer : Consumer) :
    (∃ maxPages, EndsOnce lowering feed consumer.storage.db
        (pollUntilCaughtUp lowering feed limit maxPages (fun _ => noFaults) consumer).1.storage.db) ↔
      PagesEnd (valid lowering) limit (ahead feed consumer.storage.db) := by
  constructor
  · rintro ⟨maxPages, hends⟩
    obtain ⟨n, hn⟩ := pollUntilCaughtUp_polls lowering feed limit maxPages consumer
    rw [hn] at hends
    exact pagesEnd_of_endsOnce hsorted hlimit hends
  · intro h
    obtain ⟨maxPages, hpages⟩ := exists_end hlimit _ h
    obtain ⟨n, hn⟩ := pollUntilCaughtUp_polls lowering feed limit maxPages consumer
    have hend := pollUntilCaughtUp_ends hsorted hlimit maxPages consumer h hpages
    rw [hn, (polls_read lowering limit hsorted n consumer).1] at hend
    refine ⟨maxPages, ?_⟩
    rw [hn]
    exact endsOnce_of_pagesEnd hsorted hlimit h hend

/-- With a storage that does not fail: a batch leaves the checkpoint at the last event of its page if and only
if that event is valid, and polls read a feed to its end and put each bad event into the quarantine once if and
only if every page ends with a valid event. -/
theorem feed_progresses_iff (lowering : Lowering) :
    (∀ (storage : Storage) (page : List Item) (hne : page ≠ []), page.Pairwise (fun i j => i.cursor < j.cursor) →
      (∀ item ∈ page, cursorOf storage.db < item.cursor) →
      (cursorOf (processBatch lowering storage page .done fun _ => allDone).storage.db = (page.getLast hne).cursor ↔
        valid lowering (page.getLast hne) = true)) ∧
    (∀ (consumer : Consumer) (feed : List Item) (limit : Nat), feed.Pairwise (fun i j => i.cursor < j.cursor) →
      0 < limit →
      ((∃ n, ∀ m, n ≤ m →
          EndsOnce lowering feed consumer.storage.db (polls lowering feed limit m consumer).storage.db) ↔
        PagesEnd (valid lowering) limit (ahead feed consumer.storage.db)) ∧
      ((∃ maxPages, EndsOnce lowering feed consumer.storage.db
          (pollUntilCaughtUp lowering feed limit maxPages (fun _ => noFaults) consumer).1.storage.db) ↔
        PagesEnd (valid lowering) limit (ahead feed consumer.storage.db))) := by
  refine ⟨?_, ?_⟩
  · intro storage page hne hsorted hlt
    exact processBatch_reaches_last storage page hne hsorted hlt
  · intro consumer feed limit hsorted hlimit
    exact ⟨polls_endsOnce_iff hsorted hlimit consumer, pollUntilCaughtUp_endsOnce_iff hsorted hlimit consumer⟩

def priced : Item := ⟨1, "event-1", 1000000, "sn-1", .object [("amount", .scalar)]⟩

def newConsumer : Consumer := ⟨⟨Store.empty, Store.empty⟩, 0⟩

theorem pagesEnd_priced_closed : PagesEnd (valid pythonLower) 10 (ahead [priced, sessionClosed] Store.empty) := by
  intro i item hitem hi
  match i with
  | 0 => exact absurd hi (by decide +kernel)
  | 1 =>
      cases hitem
      decide +kernel
  | i + 2 => cases hitem

theorem feed_progresses_iff_closed :
    cursorOf (processBatch pythonLower newConsumer.storage [priced, sessionClosed] .done fun _ => allDone).storage.db =
        2 ∧
      ∃ n, ∀ m, n ≤ m → EndsOnce pythonLower [priced, sessionClosed] Store.empty
        (polls pythonLower [priced, sessionClosed] 10 m newConsumer).storage.db := by
  obtain ⟨hpage, hfeed⟩ := feed_progresses_iff pythonLower
  refine ⟨?_, ?_⟩
  · exact (hpage newConsumer.storage [priced, sessionClosed] (by simp) (by decide) (by decide)).mpr (by decide +kernel)
  · exact (hfeed newConsumer [priced, sessionClosed] 10 (by decide) (by decide)).1.mpr pagesEnd_priced_closed

theorem priced_event_stalls :
    cursorOf (processBatch pythonLower newConsumer.storage [priced] .done fun _ => allDone).storage.db = 0 ∧
      priced.cursor = 1 ∧
      timesQuarantined (polls pythonLower [priced] 10 2 newConsumer).storage.db priced = 2 ∧
      ¬∃ n, ∀ m, n ≤ m → EndsOnce pythonLower [priced] Store.empty
        (polls pythonLower [priced] 10 m newConsumer).storage.db := by
  refine ⟨by decide +kernel, rfl, by decide +kernel, ?_⟩
  intro hends
  have hpages := (polls_endsOnce_iff (by simp) (by decide) newConsumer).mp hends
  have hvalid : valid pythonLower priced = true := hpages 0 priced rfl (.inr rfl)
  exact absurd hvalid (by decide +kernel)

end Ends

end EtranProcessing.Feed.Progress
