import EtranProcessing.Archive.Pipeline
import EtranProcessing.Archive.Restore

namespace EtranProcessing.Archive.RoundTrip

open TelemetryStore Batches Pipeline Restore Library.Runs

variable {host : Host} {c : Call} {month : String} {type : RecordType} {s₀ s s' : Store}

def SameUpToTies (a b : List Record) : Prop := a.Perm b ∧ a.map Record.occurredAtUtc = b.map Record.occurredAtUtc

/-- A restore of the batch gives back what the store had of the month, leaves the other months, and a second restore changes
nothing. -/
def RoundTrips (host : Host) (c : Call) (before : Store) (after : State) : Prop :=
  ∃ batch, after.volume.lookup (c.destination host) = some batch ∧
    ∃ once, restoreBatch host batch after.store = (once, true) ∧
      (∀ type, SameUpToTies ((once.table type).fetch c.month) ((before.table type).fetch c.month)) ∧
      (∀ type month, month ≠ c.month → (once.table type).fetch month = (before.table type).fetch month) ∧
      ∃ twice, restoreBatch host batch once = (twice, true) ∧
        ∀ type month, (twice.table type).fetch month = (once.table type).fetch month

def Restorable (s : Store) (month : String) : Prop :=
  ∀ type, ∀ r ∈ (s.table type).ofMonth month, (∀ field ∈ r.payload, field ∈ type.fields) ∧ Storable type r.payload

def others (t : Table type) (month : String) : List Row := t.rows.filter fun r => r.sourceMonth ≠ month

def archivedRecords (s : Store) (month : String) : List Record := s.samples.fetch month ++ s.quality.fetch month

section Fetched

theorem mem_fetch {t : Table type} {r : Record} :
    r ∈ t.fetch month ↔ ∃ row ∈ t.ofMonth month, Row.record type row = r := by
  rw [(fetch_perm t month).mem_iff, monthRecords, List.mem_map]

theorem fetch_type (t : Table type) (month : String) : ∀ r ∈ t.fetch month, r.recordType = type := by
  intro r hr
  obtain ⟨row, -, rfl⟩ := mem_fetch.mp hr
  rfl

theorem fetch_valid (t : Table type) (month : String) : ∀ r ∈ t.fetch month, validateEnvelope r = true := by
  intro r hr
  obtain ⟨row, -, rfl⟩ := mem_fetch.mp hr
  rfl

theorem fetch_complete (t : Table type) (month : String) : ∀ r ∈ t.fetch month, Complete type r.payload := by
  intro r hr
  obtain ⟨row, hrow, rfl⟩ := mem_fetch.mp hr
  exact t.complete row (List.mem_filter.mp hrow).1

theorem fetch_ids (t : Table type) (month : String) :
    ((t.fetch month).map Record.recordId).Perm ((t.ofMonth month).map fun r => r.recordId) := by
  have hperm := (fetch_perm t month).map Record.recordId
  rwa [monthRecords, List.map_map] at hperm

theorem fetch_nodup (t : Table type) (month : String) : ((t.fetch month).map Record.recordId).Nodup :=
  (fetch_ids t month).nodup_iff.mpr ((List.filter_sublist.map _).nodup t.distinct)

theorem others_kept (t : Table type) (month : String) :
    (others t month).filter (fun r => r.recordId ∉ (t.fetch month).map Record.recordId) = others t month := by
  refine List.filter_eq_self.mpr fun r hr => ?_
  obtain ⟨hr, hmonth⟩ := List.mem_filter.mp hr
  rw [decide_eq_true_eq, (fetch_ids t month).mem_iff]
  intro hmem
  obtain ⟨row, hrow, hsame⟩ := List.mem_map.mp hmem
  obtain ⟨hrow, hof⟩ := List.mem_filter.mp hrow
  obtain rfl := List.inj_on_of_nodup_map t.distinct hrow hr hsame
  simp_all

end Fetched

section Restores

def Beside (s₀ s : Store) (month : String) (type : RecordType) (news : List Row) : Prop :=
  (s.table type).rows = others (s₀.table type) month ++ news ∧ ∀ r ∈ news, r.recordId ∈ ((s₀.table type).fetch month).map Record.recordId

theorem Beside.filter {news : List Row} (h : Beside s₀ s month type news) :
    (s.table type).rows.filter (fun r => r.recordId ∉ ((s₀.table type).fetch month).map Record.recordId) =
      others (s₀.table type) month := by
  have hnone : news.filter (fun r => r.recordId ∉ ((s₀.table type).fetch month).map Record.recordId) = [] := by
    refine List.filter_eq_nil_iff.mpr fun r hr => ?_
    simpa using h.2 r hr
  rw [h.1, List.filter_append, others_kept, hnone, List.append_nil]

def Again (s₀ s : Store) (month : String) (type : RecordType) : Prop :=
  ∃ news, (s.table type).rows = others (s₀.table type) month ++ news ∧
    news.map (Row.record type) = ((s₀.table type).fetch month).map restored ∧ ∀ r ∈ news, r.sourceMonth = month

theorem Again.beside (h : Again s₀ s month type) : ∃ news, Beside s₀ s month type news := by
  obtain ⟨news, hrows, hrecords, -⟩ := h
  refine ⟨news, hrows, fun r hr => ?_⟩
  have hmem : Row.record type r ∈ ((s₀.table type).fetch month).map restored := hrecords ▸ List.mem_map_of_mem hr
  obtain ⟨record, hrecord, hsame⟩ := List.mem_map.mp hmem
  exact List.mem_map.mpr ⟨record, hrecord, congrArg Record.recordId hsame⟩

theorem restore_again (hbeside : ∀ type, ∃ news, Beside s₀ s month type news)
    (hrestore : restoreAll month s (archivedRecords s₀ month) = (s', true)) (type : RecordType) :
    Again s₀ s' month type := by
  rw [archivedRecords, restoreAll_append] at hrestore
  split at hrestore
  · next hfirst =>
      obtain ⟨⟨samples, hsamples, hsampleRecords, hsampleMonths⟩, hkept⟩ :=
        restoreAll_rows (fetch_type s₀.samples month) (fetch_complete _ _) (fetch_nodup _ _) (Prod.ext rfl hfirst)
      obtain ⟨⟨quality, hquality, hqualityRecords, hqualityMonths⟩, hkept'⟩ :=
        restoreAll_rows (fetch_type s₀.quality month) (fetch_complete _ _) (fetch_nodup _ _) hrestore
      cases type with
      | samples =>
          obtain ⟨news, hnews⟩ := hbeside .samples
          refine ⟨samples, ?_, hsampleRecords, hsampleMonths⟩
          rw [hkept' .samples (by simp), hsamples, ← hnews.filter]
          rfl
      | quality =>
          obtain ⟨news, hnews⟩ := hbeside .quality
          refine ⟨quality, ?_, hqualityRecords, hqualityMonths⟩
          rw [hquality, hkept .quality (by simp), ← hnews.filter]
          rfl
  · next hfirst => exact absurd (congrArg Prod.snd hrestore) hfirst

theorem Again.fetch (h : Again s₀ s month type) :
    (s.table type).fetch month = ((s₀.table type).fetch month).map restored := by
  obtain ⟨news, hrows, hrecords, hmonths⟩ := h
  have htimes : (news.map fun r => r.occurredAtUtc) = ((s₀.table type).fetch month).map Record.occurredAtUtc := by
    have := congrArg (List.map Record.occurredAtUtc) hrecords
    rw [List.map_map, List.map_map] at this
    exact this
  have hold : ∀ r ∈ others (s₀.table type) month, r.sourceMonth ≠ month :=
    fun r hr => of_decide_eq_true (List.mem_filter.mp hr).2
  rw [fetch_news hrows hold hmonths (htimes ▸ fetch_sorted _ _), hrecords]

theorem Again.fetch_other (h : Again s₀ s month type) {other : String} (hother : other ≠ month) :
    (s.table type).fetch other = (s₀.table type).fetch other := by
  obtain ⟨news, hrows, -, hmonths⟩ := h
  have hsame : (s.table type).ofMonth other = (s₀.table type).ofMonth other := by
    rw [ofMonth_old hrows hmonths hother, others, List.filter_filter, Table.ofMonth]
    refine List.filter_congr fun r _ => ?_
    by_cases hr : r.sourceMonth = other
    · simp [hr, hother]
    · simp [hr]
  rw [Table.fetch, Table.fetch, hsame]

end Restores

section Progress

def Lists (host : Host) (c : Call) (s₀ : Store) (batch : Batch) (m : Manifest) : Prop :=
  m.sourceMonth = c.month ∧ readFiles host batch m = some [s₀.samples.fetch c.month, s₀.quality.fetch c.month]

def Promoted (host : Host) (c : Call) (s₀ : Store) (v : Volume) (m : Manifest) : Prop :=
  ∃ batch, v.lookup (c.destination host) = some batch ∧ Lists host c s₀ batch m

theorem Promoted.setManifest {v : Volume} {m : Manifest} (h : Promoted host c s₀ v m) (m' : Option Manifest) :
    Promoted host c s₀ (Volume.setManifest v (c.destination host) m') m := by
  obtain ⟨batch, hbatch, hlists⟩ := h
  exact ⟨{ batch with manifest := m' }, by rw [lookup_setManifest, hbatch, Option.map_some], hlists⟩

def Purging (s₀ : Store) (s : Store) (month : String) : RecordType → Prop
  | .samples => ∀ type, others (s.table type) month = others (s₀.table type) month
  | .quality => (∀ type, others (s.table type) month = others (s₀.table type) month) ∧ s.samples.ofMonth month = []

/-- How far an undisturbed run has come. -/
def Progress (host : Host) (c : Call) (s₀ : Store) (s : State) : Prop :=
  match s.phase with
  | .started d | .counted d _ => d = c ∧ s.store = s₀
  | .opened x => x.call = c ∧ s.store = s₀ ∧ x.bounds = getCursorBoundsForMonth s₀ c.month
  | .sampled x samples =>
      x.call = c ∧ s.store = s₀ ∧ x.bounds = getCursorBoundsForMonth s₀ c.month ∧ samples = s₀.samples.fetch c.month
  | .fetched x samples quality =>
      x.call = c ∧ s.store = s₀ ∧ x.bounds = getCursorBoundsForMonth s₀ c.month ∧ samples = s₀.samples.fetch c.month ∧
        quality = s₀.quality.fetch c.month
  | .written x batch m =>
      x.call = c ∧ s.store = s₀ ∧ x.bounds = getCursorBoundsForMonth s₀ c.month ∧
        batch = writeBatch host (c.batchId host) c.month x.bounds (s₀.samples.fetch c.month) (s₀.quality.fetch c.month) ∧
        batch.manifest = some m
  | .checked x batch m | .cleared x batch m => x.call = c ∧ s.store = s₀ ∧ Lists host c s₀ batch m
  | .promoted x m | .recorded x m => x.call = c ∧ s.store = s₀ ∧ Promoted host c s₀ s.volume m
  | .purging x m type _ => x.call = c ∧ Promoted host c s₀ s.volume m ∧ Purging s₀ s.store c.month type
  | .chunk x m type _ ids =>
      x.call = c ∧ Promoted host c s₀ s.volume m ∧ Purging s₀ s.store c.month type ∧
        Present (s.store.table type) c.month ids ∧ ids ≠ []
  | .purged x m _ =>
      x.call = c ∧ Promoted host c s₀ s.volume m ∧ Purging s₀ s.store c.month .quality ∧ s.store.quality.ofMonth c.month = []
  | .finished m =>
      (∃ batch, s.volume.lookup (c.destination host) = some batch ∧ batch.manifest = some m ∧ Lists host c s₀ batch m) ∧
        Purging s₀ s.store c.month .quality ∧ s.store.quality.ofMonth c.month = []
  | .idle | .failing _ | .failed => False

theorem bounds_passed (s : Store) (month : String) :
    ∀ b ∈ getCursorBoundsForMonth s month, ¬ b.consumersPassedCursor < b.throughCursor := by
  intro b hb
  simp only [getCursorBoundsForMonth] at hb
  split at hb
  · cases hb
  · obtain rfl := Option.some.inj hb
    exact fun hlt => Int64.lt_irrefl hlt

theorem others_delete {t : Table type} {ids : List Nat} (h : Present t month ids) :
    others (t.delete ids) month = others t month := by
  rw [others, others, Table.delete, List.filter_filter]
  refine List.filter_congr fun r hr => ?_
  by_cases hid : r.id ∈ ids
  · have hmonth := of_decide_eq_true (List.mem_filter.mp (h.ofMonth hr hid)).2
    simp [hmonth]
  · simp [hid]

theorem purging_delete {ids : List Nat} (h : Purging s₀ s month type) (hpresent : Present (s.table type) month ids) :
    Purging s₀ (s.setTable type ((s.table type).delete ids)) month type := by
  have hothers : ∀ other, others (s.table other) month = others (s₀.table other) month := by
    cases type with
    | samples => exact h
    | quality => exact h.1
  have hkept : ∀ other, others ((s.setTable type ((s.table type).delete ids)).table other) month =
      others (s₀.table other) month := by
    intro other
    by_cases hother : other = type
    · subst hother
      rw [table_setTable, others_delete hpresent, hothers]
    · rw [table_setTable_ne _ _ hother, hothers]
  cases type with
  | samples => exact hkept
  | quality => exact ⟨hkept, h.2⟩

theorem chunk_ne_nil {t : Table type} {ids : List Nat} (h : ChunkOf t month ids) (hsome : t.ofMonth month ≠ []) :
    ids ≠ [] := by
  rintro rfl
  have hlength := h.2.1
  have hpos := List.length_pos_iff.mpr hsome
  simp only [List.length_nil, chunkSize] at hlength
  omega

theorem next_progress (hpurges : c.purges = true) {s : State} (h : Progress host c s₀ s) (ids : List Nat) :
    Progress host c s₀ (next host s ids) := by
  unfold next
  cases hphase : s.phase with
  | idle | failing x | failed => simp only [Progress, hphase] at h
  | finished m | started d | checked x batch m => simpa only [Progress, hphase] using h
  | counted =>
      simp only [Progress, hphase] at h
      obtain ⟨rfl, hstore⟩ := h
      exact ⟨rfl, hstore, by rw [hstore]⟩
  | opened x =>
      simp only [Progress, hphase] at h
      obtain ⟨rfl, hstore, hbounds⟩ := h
      exact ⟨rfl, hstore, hbounds, by rw [hstore]; rfl⟩
  | sampled =>
      simp only [Progress, hphase] at h
      obtain ⟨rfl, hstore, hbounds, hsamples⟩ := h
      exact ⟨rfl, hstore, hbounds, hsamples, by rw [hstore]; rfl⟩
  | fetched =>
      simp only [Progress, hphase] at h
      obtain ⟨rfl, hstore, hbounds, rfl, rfl⟩ := h
      exact ⟨rfl, hstore, hbounds, rfl, rfl⟩
  | written x batch m =>
      simp only [Progress, hphase] at h
      obtain ⟨rfl, hstore, hbounds, rfl, hm⟩ := h
      obtain ⟨v, hv⟩ := verify_writeBatch hm (List.all_eq_true.mpr (fetch_valid s₀.samples x.call.month))
        (List.all_eq_true.mpr (fetch_valid s₀.quality x.call.month)) (hbounds ▸ bounds_passed s₀ x.call.month)
      have hmonth : m.sourceMonth = x.call.month := Option.some.inj hm ▸ rfl
      have hfiles : readFiles host _ m = some [s₀.samples.fetch x.call.month, s₀.quality.fetch x.call.month] :=
        readFiles_writeBatch hm
      simp only [hv]
      exact ⟨rfl, hstore, hmonth, hfiles⟩
  | cleared x batch m =>
      simp only [Progress, hphase] at h
      obtain ⟨rfl, hstore, hlists⟩ := h
      exact ⟨rfl, hstore, batch, Finmap.lookup_insert _, hlists⟩
  | promoted =>
      simp only [Progress, hphase] at h
      obtain ⟨rfl, hstore, hpromoted⟩ := h
      exact ⟨rfl, hstore, hpromoted.setManifest _⟩
  | recorded =>
      simp only [Progress, hphase] at h
      obtain ⟨rfl, rfl, hpromoted⟩ := h
      simp only [hpurges, if_pos]
      exact ⟨rfl, hpromoted, fun _ => rfl⟩
  | purging x m type purged =>
      simp only [Progress, hphase] at h
      obtain ⟨rfl, hpromoted, hpurging⟩ := h
      simp only
      split_ifs with hnone hchunk
      · cases type with
        | samples | quality => exact ⟨rfl, hpromoted, hpurging, hnone⟩
      · exact ⟨rfl, hpromoted, hpurging, ⟨hchunk.1, hchunk.2.2⟩, chunk_ne_nil hchunk hnone⟩
      · simp only [Progress, hphase]
        exact ⟨trivial, hpromoted, hpurging⟩
  | chunk =>
      simp only [Progress, hphase] at h
      obtain ⟨rfl, hpromoted, hpurging, hpresent, -⟩ := h
      exact ⟨rfl, hpromoted, purging_delete hpurging hpresent⟩
  | purged =>
      simp only [Progress, hphase] at h
      obtain ⟨rfl, ⟨batch, hbatch, hlists⟩, hpurging⟩ := h
      exact ⟨⟨{ batch with manifest := _ }, by rw [lookup_setManifest, hbatch, Option.map_some], rfl, hlists⟩, hpurging⟩

theorem Progress.finished {s : State} (h : Progress host c s₀ s) (hend : s.phase.free = true) :
    ∃ m, s.phase = .finished m := by
  cases hphase : s.phase with
  | finished m => exact ⟨m, rfl⟩
  | idle | failed => simp only [Progress, hphase] at h
  | _ =>
      rw [hphase] at hend
      cases hend

theorem run_progress (hpurges : c.purges = true) (chunks : List (List Nat)) {s : State} (h : Progress host c s₀ s) :
    Progress host c s₀ (run (step host) s (chunks.map Event.next)) := by
  induction chunks generalizing s with
  | nil => exact h
  | cons ids chunks ih => exact ih (next_progress hpurges h ids)

end Progress

section Ending

def monthRows (s : Store) (month : String) : Nat := (s.samples.ofMonth month).length + (s.quality.ofMonth month).length

/-- A bound for the steps that an undisturbed run still takes. -/
def remaining (s : State) : Nat :=
  match s.phase with
  | .started c => 2 * monthRows s.store c.month + 13
  | .counted c _ => 2 * monthRows s.store c.month + 12
  | .opened x => 2 * monthRows s.store x.call.month + 11
  | .sampled x _ => 2 * monthRows s.store x.call.month + 10
  | .fetched x _ _ => 2 * monthRows s.store x.call.month + 9
  | .written x _ _ => 2 * monthRows s.store x.call.month + 8
  | .checked x _ _ => 2 * monthRows s.store x.call.month + 7
  | .cleared x _ _ => 2 * monthRows s.store x.call.month + 6
  | .promoted x _ => 2 * monthRows s.store x.call.month + 5
  | .recorded x _ => 2 * monthRows s.store x.call.month + 4
  | .purging x _ .samples _ => 2 * monthRows s.store x.call.month + 3
  | .purging x _ .quality _ => 2 * monthRows s.store x.call.month + 2
  | .chunk x _ .samples _ _ => 2 * monthRows s.store x.call.month + 2
  | .chunk x _ .quality _ _ => 2 * monthRows s.store x.call.month + 1
  | .purged _ _ _ => 1
  | _ => 0

theorem chunkOf_take (t : Table type) (month : String) :
    ChunkOf t month (((t.ofMonth month).map fun r => r.id).take chunkSize) := by
  refine ⟨?_, by simp, fun id hid => List.mem_of_mem_take hid⟩
  exact (List.take_sublist _ _).nodup ((List.filter_sublist.map _).nodup (ids_nodup t))

theorem delete_length {t : Table type} {ids : List Nat} (h : Present t month ids) :
    ((t.delete ids).ofMonth month).length + ids.length = (t.ofMonth month).length := by
  have hlength := (delete_perm h).length_eq
  rwa [List.length_append, monthRecords, monthRecords, List.length_map, List.length_map, List.length_map, h.length] at hlength

theorem next_less {s : State} (hpurges : c.purges = true) (h : Progress host c s₀ s) (hbusy : s.phase.free = false) :
    ∃ ids, remaining (next host s ids) < remaining s := by
  cases hphase : s.phase with
  | idle | failing x | failed => simp only [Progress, hphase] at h
  | finished m => simp [hphase, Phase.free] at hbusy
  | started d | counted d counts | opened x | sampled x samples | fetched x samples quality | checked x batch m
  | cleared x batch m | promoted x m => exact ⟨[], by simp [next, remaining, hphase, writeBatch]⟩
  | written x batch m =>
      have hnext := next_progress hpurges h []
      simp only [next, hphase] at hnext
      cases hv : verifyBatchIntegrity host batch m with
      | ok v => exact ⟨[], by simp [next, remaining, hphase, hv]⟩
      | error e =>
          simp only [hv] at hnext
          exact hnext.elim
  | recorded =>
      simp only [Progress, hphase] at h
      obtain ⟨rfl, -⟩ := h
      exact ⟨[], by simp [next, remaining, hphase, hpurges]⟩
  | purging x m type purged =>
      refine ⟨(((s.store.table type).ofMonth x.call.month).map fun r => r.id).take chunkSize, ?_⟩
      simp only [next, hphase]
      split_ifs with hnone hchunk
      · cases type with
        | samples => simp [remaining, hphase]
        | quality => simp [remaining, hphase]
      · cases type with
        | samples => simp [remaining, hphase]
        | quality => simp [remaining, hphase]
      · exact absurd (chunkOf_take _ _) hchunk
  | chunk x m type purged ids =>
      simp only [Progress, hphase] at h
      obtain ⟨rfl, -, -, hpresent, hsome⟩ := h
      have hlength := delete_length hpresent
      have hpos := List.length_pos_iff.mpr hsome
      refine ⟨[], ?_⟩
      cases type with
      | samples | quality =>
          simp only [next, remaining, hphase, monthRows, Store.setTable, Store.table] at hlength ⊢
          omega
  | purged => exact ⟨[], by simp [next, remaining, hphase]⟩

theorem run_ends (hpurges : c.purges = true) {s : State} (h : Progress host c s₀ s) :
    ∃ chunks : List (List Nat), (run (step host) s (chunks.map Event.next)).phase.free = true := by
  induction hn : remaining s using Nat.strong_induction_on generalizing s with
  | _ n ih =>
      cases hfree : s.phase.free with
      | true => exact ⟨[], hfree⟩
      | false =>
          obtain ⟨ids, hless⟩ := next_less hpurges h hfree
          obtain ⟨chunks, hend⟩ := ih _ (hn ▸ hless) (next_progress hpurges h ids) rfl
          exact ⟨ids :: chunks, hend⟩

end Ending

section RoundTrip

theorem mem_archived {r : Record} : r ∈ archivedRecords s month ↔ ∃ type, r ∈ (s.table type).fetch month := by
  rw [archivedRecords, List.mem_append]
  constructor
  · rintro (h | h)
    · exact ⟨.samples, h⟩
    · exact ⟨.quality, h⟩
  · rintro ⟨type, h⟩
    cases type with
    | samples => exact .inl h
    | quality => exact .inr h

theorem archived_valid : ∀ r ∈ archivedRecords s month, validateEnvelope r = true := by
  intro r hr
  obtain ⟨type, hr⟩ := mem_archived.mp hr
  exact fetch_valid _ _ r hr

theorem archived_complete : ∀ r ∈ archivedRecords s month, Complete r.recordType r.payload := by
  intro r hr
  obtain ⟨type, hr⟩ := mem_archived.mp hr
  exact fetch_type _ _ r hr ▸ fetch_complete _ _ r hr

theorem restored_row (row : Row) (hcomplete : Complete type row.payload) :
    restored (Row.record type row) = Row.record type row ↔ ∀ field ∈ row.payload, field ∈ type.fields := by
  refine Iff.trans ?_ (trimmed_eq_iff hcomplete)
  exact ⟨fun h => congrArg Record.payload h, fun h => by simp [restored, Row.record, h]⟩

theorem restorable_iff : Restorable s month ↔
    (∀ r ∈ archivedRecords s month, restored r = r) ∧ ∀ r ∈ archivedRecords s month, Storable r.recordType r.payload := by
  have hrow : ∀ type, ∀ row ∈ (s.table type).ofMonth month, Complete type row.payload :=
    fun type row hr => (s.table type).complete row (List.mem_filter.mp hr).1
  constructor
  · intro h
    refine ⟨fun r hr => ?_, fun r hr => ?_⟩
    · obtain ⟨type, hr⟩ := mem_archived.mp hr
      obtain ⟨row, hmonth, rfl⟩ := mem_fetch.mp hr
      exact (restored_row row (hrow type row hmonth)).mpr (h type row hmonth).1
    · obtain ⟨type, hr⟩ := mem_archived.mp hr
      obtain ⟨row, hmonth, rfl⟩ := mem_fetch.mp hr
      exact (h type row hmonth).2
  · rintro ⟨hsame, hstorable⟩ type row hmonth
    have hmem : Row.record type row ∈ archivedRecords s month := mem_archived.mpr ⟨type, mem_fetch.mpr ⟨row, hmonth, rfl⟩⟩
    exact ⟨(restored_row row (hrow type row hmonth)).mp (hsame _ hmem), hstorable _ hmem⟩

theorem restored_restored (r : Record) : restored (restored r) = restored r := by
  have hcomplete' : Complete r.recordType (trimmed r.recordType r.payload) := by
    intro field hfield
    rw [trimmed, mem_dict (by rw [List.length_map])]
    exact hfield
  have htrimmed : trimmed r.recordType (trimmed r.recordType r.payload) = trimmed r.recordType r.payload := by
    refine (trimmed_eq_iff hcomplete').mpr fun field hfield => ?_
    rwa [trimmed, mem_dict (by rw [List.length_map])] at hfield
  simp [restored, htrimmed]

theorem sameUpToTies_restored {records : List Record} (h : SameUpToTies (records.map restored) records) : ∀ r ∈ records, restored r = r := by
  intro r hr
  obtain ⟨r', hr', rfl⟩ := List.mem_map.mp (h.1.symm.subset hr)
  exact restored_restored r'

theorem restoreBatch_eq {batch : Batch} {m : Manifest} (hlists : Lists host c s₀ batch m) (hm : batch.manifest = some m)
    (s : Store) : restoreBatch host batch s = restoreAll c.month s (archivedRecords s₀ c.month) := by
  simp only [restoreBatch, hm, hlists.2, hlists.1]
  simp [archivedRecords]

theorem purged_beside (hpurging : Purging s₀ s month .quality) (hquality : s.quality.ofMonth month = []) (type : RecordType) :
    Beside s₀ s month type [] := by
  have hnone : (s.table type).ofMonth month = [] := by
    cases type with
    | samples => exact hpurging.2
    | quality => exact hquality
  refine ⟨?_, by simp⟩
  rw [List.append_nil, ← hpurging.1 type, others]
  refine (List.filter_eq_self.mpr fun r hr => ?_).symm
  simpa using List.filter_eq_nil_iff.mp hnone r hr

theorem roundTrips_iff {s : State} {m : Manifest} (hphase : s.phase = .finished m) (h : Progress host c s₀ s) :
    RoundTrips host c s₀ s ↔ Restorable s₀ c.month := by
  simp only [Progress, hphase] at h
  obtain ⟨⟨batch, hbatch, hm, hlists⟩, hpurging, hquality⟩ := h
  have hok : ∀ store : Store, (restoreAll c.month store (archivedRecords s₀ c.month)).2 = true ↔
      ∀ r ∈ archivedRecords s₀ c.month, Storable r.recordType r.payload := restoreAll_ok archived_valid archived_complete
  have hbeside : ∀ type, ∃ news, Beside s₀ s.store c.month type news :=
    fun type => ⟨[], purged_beside hpurging hquality type⟩
  rw [restorable_iff]
  constructor
  · rintro ⟨batch', hbatch', once, honce, hmonth, -⟩
    obtain rfl := Option.some.inj (hbatch.symm.trans hbatch')
    rw [restoreBatch_eq hlists hm] at honce
    refine ⟨fun r hr => ?_, (hok s.store).mp (congrArg Prod.snd honce)⟩
    obtain ⟨type, hr⟩ := mem_archived.mp hr
    have hsame := hmonth type
    rw [(restore_again hbeside honce type).fetch] at hsame
    exact sameUpToTies_restored hsame r hr
  · rintro ⟨hrestored, hstorable⟩
    let once := (restoreAll c.month s.store (archivedRecords s₀ c.month)).1
    have honce : restoreAll c.month s.store (archivedRecords s₀ c.month) = (once, true) :=
      Prod.ext rfl ((hok s.store).mpr hstorable)
    let twice := (restoreAll c.month once (archivedRecords s₀ c.month)).1
    have htwice : restoreAll c.month once (archivedRecords s₀ c.month) = (twice, true) :=
      Prod.ext rfl ((hok once).mpr hstorable)
    have hagain := restore_again hbeside honce
    have hagain' := restore_again (fun type => (hagain type).beside) htwice
    refine ⟨batch, hbatch, once, by rw [restoreBatch_eq hlists hm, honce], fun type => ?_, fun type month hother => ?_, twice,
      by rw [restoreBatch_eq hlists hm, htwice], fun type month => ?_⟩
    · have hsame : ((s₀.table type).fetch c.month).map restored = (s₀.table type).fetch c.month :=
        (List.map_congr_left fun r hr => hrestored r (mem_archived.mpr ⟨type, hr⟩)).trans (List.map_id _)
      rw [(hagain type).fetch, hsame]
      exact ⟨List.Perm.refl _, rfl⟩
    · exact (hagain type).fetch_other hother
    · by_cases hother : month = c.month
      · rw [hother, (hagain type).fetch, (hagain' type).fetch]
      · rw [(hagain type).fetch_other hother, (hagain' type).fetch_other hother]

end RoundTrip

end EtranProcessing.Archive.RoundTrip
