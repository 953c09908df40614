import EtranProcessing.Archive.Pipeline

namespace EtranProcessing.Archive.NothingLost

open TelemetryStore Batches Pipeline Library.Runs

variable {host : Host} {s : State} {x : Context} {r : Record}

def InStore (s : Store) (r : Record) : Prop := ∃ type, r ∈ (s.table type).rows.map (Row.record type)

def Returned (host : Host) (v : Volume) (destination : String) (r : Record) : Prop :=
  ∃ batch, v.lookup destination = some batch ∧ ∃ records, restoredRecords host batch = some records ∧ r ∈ records

def Kept (host : Host) (s : State) (r : Record) : Prop :=
  InStore s.store r ∨ ∃ destination, Returned host s.volume destination r

def Spare (host : Host) (s : State) (x : Context) : Prop :=
  ∀ r, Returned host s.volume (x.call.destination host) r →
    InStore s.store r ∨ ∃ other, other ≠ x.call.destination host ∧ Returned host s.volume other r

/-- The run whose batch a step makes useless: before its promotion, by the manifest of a failure, or by a manifest that is
only half written after the purge. -/
def overwrites (s : State) : Event → Option Context
  | .next _ =>
      match s.phase with
      | .checked x _ _ | .failing x => some x
      | _ => none
  | .raises true =>
      match s.phase with
      | .checked x _ _ | .purged x _ _ | .failing x => some x
      | _ => none
  | _ => none

def Safe (host : Host) (s : State) (e : Event) : Prop := ∀ x ∈ overwrites s e, Spare host s x

def Event.alone : Event → Bool
  | .addSample _ _ _ | .addQualityEvent _ _ _ => false
  | _ => true

def OfMonth (s : Store) (month : String) (r : Record) : Prop := ∃ type, r ∈ monthRecords (s.table type) month

def Archived (host : Host) (batch : Batch) (m : Manifest) (records : List Record) : Prop :=
  restoredRecords host batch = some records ∧ batch.manifest.map Manifest.files = some m.files

def Copy (host : Host) (s : Store) (month : String) (batch : Batch) (m : Manifest) : Prop :=
  ∃ records, Archived host batch m records ∧ ∀ r, r ∈ records ↔ OfMonth s month r

def Covers (host : Host) (s : Store) (month : String) (batch : Batch) (m : Manifest) : Prop :=
  ∃ records, Archived host batch m records ∧ ∀ r, OfMonth s month r → r ∈ records

def Ready (host : Host) (s : State) : Prop :=
  match s.phase with
  | .sampled x samples => ∀ r, r ∈ samples ↔ r ∈ monthRecords s.store.samples x.call.month
  | .fetched x samples quality =>
      (∀ r, r ∈ samples ↔ r ∈ monthRecords s.store.samples x.call.month) ∧
        ∀ r, r ∈ quality ↔ r ∈ monthRecords s.store.quality x.call.month
  | .written x batch m | .checked x batch m => Copy host s.store x.call.month batch m
  | .cleared x batch m => s.volume.lookup (x.call.destination host) = none ∧ Copy host s.store x.call.month batch m
  | .promoted x m | .recorded x m =>
      ∃ batch, s.volume.lookup (x.call.destination host) = some batch ∧ Copy host s.store x.call.month batch m
  | .purging x m _ _ | .purged x m _ =>
      ∃ batch, s.volume.lookup (x.call.destination host) = some batch ∧ Covers host s.store x.call.month batch m
  | .chunk x m type _ ids =>
      Present (s.store.table type) x.call.month ids ∧
        ∃ batch, s.volume.lookup (x.call.destination host) = some batch ∧ Covers host s.store x.call.month batch m
  | _ => True

section Restores

variable {batch : Batch} {m : Manifest} {records : List Record}

theorem restoredRecords_manifest (h : batch.manifest.map Manifest.files = some m.files) :
    restoredRecords host { batch with manifest := some m } = restoredRecords host batch := by
  obtain ⟨m', hm', hfiles⟩ := Option.map_eq_some_iff.mp h
  simp only [restoredRecords, readFiles, hm', hfiles, Option.bind_eq_bind, Option.bind_some]

theorem Archived.setManifest (h : Archived host batch m records) : Archived host { batch with manifest := some m } m records :=
  ⟨(restoredRecords_manifest h.2).trans h.1, rfl⟩

theorem archived_writeBatch (host : Host) (batchId month : String) (bounds : Option CursorBounds) {samples quality : List Record}
    (hsamples : samples.all validateEnvelope = true) (hquality : quality.all validateEnvelope = true) {m : Manifest}
    (hm : (writeBatch host batchId month bounds samples quality).manifest = some m) :
    Archived host (writeBatch host batchId month bounds samples quality) m (samples ++ quality) := by
  have hall : [samples, quality].flatten.all validateEnvelope = true := by
    rw [List.flatten_cons, List.flatten_cons, List.flatten_nil, List.append_nil, List.all_append, hsamples, hquality]
    rfl
  refine ⟨?_, congrArg (Option.map Manifest.files) hm⟩
  simp only [restoredRecords, hm, Option.bind_eq_bind, Option.bind_some, readFiles_writeBatch hm, if_pos hall]
  simp

end Restores

section Volumes

variable {v : Volume} {destination other : String} {batch : Batch} {m : Manifest}

theorem returned_setManifest (hbatch : v.lookup destination = some batch)
    (hfiles : batch.manifest.map Manifest.files = some m.files) (h : Returned host v other r) :
    Returned host (Volume.setManifest v destination (some m)) other r := by
  by_cases hother : other = destination
  · subst hother
    obtain ⟨batch', hbatch', records, hrecords, hr⟩ := h
    obtain rfl := Option.some.inj (hbatch.symm.trans hbatch')
    refine ⟨{ batch with manifest := some m }, by rw [lookup_setManifest, hbatch, Option.map_some], records, ?_, hr⟩
    rw [restoredRecords_manifest hfiles, hrecords]
  · rwa [Returned, lookup_setManifest_ne v (some m) hother]

theorem Kept.setManifest (h : Kept host s r) (hbatch : s.volume.lookup destination = some batch)
    (hfiles : batch.manifest.map Manifest.files = some m.files) (phase : Phase) :
    Kept host { s with volume := Volume.setManifest s.volume destination (some m), phase := phase } r := by
  rcases h with h | ⟨other, h⟩
  · exact .inl h
  · exact .inr ⟨other, returned_setManifest hbatch hfiles h⟩

theorem Kept.spare (h : Kept host s r) (hspare : Spare host s x) {s' : State} (hstore : s'.store = s.store)
    (hother : ∀ other, other ≠ x.call.destination host → s'.volume.lookup other = s.volume.lookup other) :
    Kept host s' r := by
  have hkeep : ∀ other, other ≠ x.call.destination host → Returned host s.volume other r →
      Returned host s'.volume other r := by
    intro other hne hreturned
    rwa [Returned, hother other hne]
  have hplace : InStore s.store r ∨ ∃ other, other ≠ x.call.destination host ∧ Returned host s.volume other r := by
    rcases h with h | ⟨other, h⟩
    · exact .inl h
    · by_cases hne : other = x.call.destination host
      · exact hspare r (hne ▸ h)
      · exact .inr ⟨other, hne, h⟩
  rcases hplace with hplace | ⟨other, hne, hplace⟩
  · exact .inl (hstore ▸ hplace)
  · exact .inr ⟨other, hkeep other hne hplace⟩

theorem OfMonth.inStore {store : Store} {month : String} (h : OfMonth store month r) : InStore store r := by
  obtain ⟨type, hr⟩ := h
  exact ⟨type, (List.filter_sublist.map _).subset hr⟩

theorem spare_copy (h : ∃ batch, s.volume.lookup (x.call.destination host) = some batch ∧
    Copy host s.store x.call.month batch m) : Spare host s x := by
  obtain ⟨batch, hbatch, records, harchived, hrecords⟩ := h
  rintro r ⟨batch', hbatch', records', hrecords', hr⟩
  obtain rfl := Option.some.inj (hbatch.symm.trans hbatch')
  obtain rfl := Option.some.inj (harchived.1.symm.trans hrecords')
  exact .inl ((hrecords r).mp hr).inStore

theorem not_returned_setManifest {m : Option Manifest} (hm : ∀ m' ∈ m, m'.files = []) :
    ¬ Returned host (Volume.setManifest v destination m) destination r := by
  rintro ⟨batch, hbatch, records, hrecords, hr⟩
  rw [lookup_setManifest] at hbatch
  obtain ⟨batch', -, rfl⟩ := Option.map_eq_some_iff.mp hbatch
  cases m with
  | none => simp [restoredRecords] at hrecords
  | some m' =>
      simp [restoredRecords, readFiles, hm m' rfl] at hrecords
      subst hrecords
      cases hr

theorem step_overwrites (host : Host) {e : Event} (h : x ∈ overwrites s e) :
    (step host s e).store = s.store ∧
      (∀ other, other ≠ x.call.destination host → (step host s e).volume.lookup other = s.volume.lookup other) ∧
      ∀ r, ¬ Returned host (step host s e).volume (x.call.destination host) r := by
  unfold overwrites at h
  split at h
  · split at h
    · next ids _ x' batch m hphase =>
        obtain rfl := Option.some.inj h
        simp only [step, next, hphase, true_and]
        refine ⟨fun other hne => Finmap.lookup_erase_ne hne, ?_⟩
        rintro r ⟨batch', hbatch', -⟩
        rw [Finmap.lookup_erase] at hbatch'
        cases hbatch'
    · next ids _ x' hphase =>
        obtain rfl := Option.some.inj h
        simp only [step, next, hphase, true_and]
        exact ⟨fun other hne => lookup_setManifest_ne s.volume _ hne,
          fun r => not_returned_setManifest fun m' hm' => Option.some.inj hm' ▸ rfl⟩
    · cases h
  · split at h
    · next _ x' batch m hphase =>
        obtain rfl := Option.some.inj h
        simp only [step, raises, hphase]
        cases hlookup : s.volume.lookup (x'.call.destination host) with
        | none =>
            refine ⟨rfl, fun _ _ => rfl, ?_⟩
            rintro r ⟨batch', hbatch', -⟩
            rw [hlookup] at hbatch'
            cases hbatch'
        | some old =>
            refine ⟨rfl, fun other hne => Finmap.lookup_insert_of_ne _ hne, ?_⟩
            rintro r ⟨batch', hbatch', records, hrecords, -⟩
            rw [Finmap.lookup_insert] at hbatch'
            obtain rfl := Option.some.inj hbatch'
            simp [restoredRecords] at hrecords
    · next _ x' m purged hphase =>
        obtain rfl := Option.some.inj h
        simp only [step, raises, hphase, spoilt, if_pos, true_and]
        exact ⟨fun other hne => lookup_setManifest_ne s.volume _ hne,
          fun r => not_returned_setManifest fun m' hm' => by cases hm'⟩
    · next _ x' hphase =>
        obtain rfl := Option.some.inj h
        simp only [step, raises, hphase, spoilt, if_pos, true_and]
        exact ⟨fun other hne => lookup_setManifest_ne s.volume _ hne,
          fun r => not_returned_setManifest fun m' hm' => by cases hm'⟩
    · cases h
  · cases h

end Volumes

section Steps

variable {month : String} {store : Store}

theorem ofMonth_valid (h : OfMonth store month r) : validateEnvelope r = true := by
  obtain ⟨type, hr⟩ := h
  obtain ⟨row, -, rfl⟩ := List.mem_map.mp hr
  rfl

theorem mem_ofMonth {samples quality : List Record}
    (hsamples : ∀ r, r ∈ samples ↔ r ∈ monthRecords store.samples month)
    (hquality : ∀ r, r ∈ quality ↔ r ∈ monthRecords store.quality month) (r : Record) :
    r ∈ samples ++ quality ↔ OfMonth store month r := by
  rw [List.mem_append, hsamples, hquality]
  constructor
  · rintro (hr | hr)
    · exact ⟨.samples, hr⟩
    · exact ⟨.quality, hr⟩
  · rintro ⟨type, hr⟩
    cases type with
    | samples => exact .inl hr
    | quality => exact .inr hr

theorem ofMonth_delete {type : RecordType} {ids : List Nat}
    (h : OfMonth (store.setTable type ((store.table type).delete ids)) month r) : OfMonth store month r := by
  obtain ⟨type', hr⟩ := h
  refine ⟨type', ?_⟩
  by_cases htype : type' = type
  · subst htype
    rw [table_setTable] at hr
    exact ((List.filter_sublist.filter _).map _).subset hr
  · rwa [table_setTable_ne _ _ htype] at hr

theorem inStore_delete {type : RecordType} {ids : List Nat}
    (hpresent : Present (store.table type) month ids) (h : InStore store r) :
    InStore (store.setTable type ((store.table type).delete ids)) r ∨ OfMonth store month r := by
  obtain ⟨type', hr⟩ := h
  by_cases htype : type' = type
  · subst htype
    obtain ⟨row, hrow, rfl⟩ := List.mem_map.mp hr
    by_cases hid : row.id ∈ ids
    · exact .inr ⟨type', List.mem_map_of_mem (hpresent.ofMonth hrow hid)⟩
    · refine .inl ⟨type', ?_⟩
      rw [table_setTable]
      exact List.mem_map_of_mem (List.mem_filter.mpr ⟨hrow, by simpa using hid⟩)
  · exact .inl ⟨type', by rwa [table_setTable_ne _ _ htype]⟩

theorem next_ready (h : Ready host s) (ids : List Nat) : Ready host (next host s ids) := by
  unfold next
  cases hphase : s.phase with
  | idle | finished m | failed | started c | counted c counts | failing x => trivial
  | opened x =>
      intro r
      exact (fetch_perm _ _).mem_iff
  | sampled =>
      simp only [Ready, hphase] at h
      exact ⟨h, fun r => (fetch_perm _ _).mem_iff⟩
  | fetched x samples quality =>
      simp only [Ready, hphase] at h
      obtain ⟨hsamples, hquality⟩ := h
      have hmonth := mem_ofMonth hsamples hquality
      have hvalid : ∀ r ∈ samples ++ quality, validateEnvelope r = true := fun r hr => ofMonth_valid ((hmonth r).mp hr)
      have harchived := archived_writeBatch host (x.call.batchId host) x.call.month x.bounds
        (List.all_eq_true.mpr fun r hr => hvalid r (List.mem_append_left quality hr))
        (List.all_eq_true.mpr fun r hr => hvalid r (List.mem_append_right samples hr)) rfl
      exact ⟨samples ++ quality, harchived, hmonth⟩
  | written x batch m =>
      simp only [Ready, hphase] at h
      simp only
      split
      · exact h
      · trivial
  | checked =>
      simp only [Ready, hphase] at h
      exact ⟨Finmap.lookup_erase _ _, h⟩
  | cleared x batch m =>
      simp only [Ready, hphase] at h
      exact ⟨batch, Finmap.lookup_insert _, h.2⟩
  | promoted x m =>
      simp only [Ready, hphase] at h
      obtain ⟨batch, hbatch, records, harchived, hrecords⟩ := h
      exact ⟨{ batch with manifest := some m }, by rw [lookup_setManifest, hbatch, Option.map_some], records,
        harchived.setManifest, hrecords⟩
  | recorded x m =>
      simp only [Ready, hphase] at h
      obtain ⟨batch, hbatch, records, harchived, hrecords⟩ := h
      simp only
      split
      · exact ⟨batch, hbatch, records, harchived, fun r => (hrecords r).mpr⟩
      · trivial
  | purging x m type purged =>
      simp only [Ready, hphase] at h
      simp only
      split_ifs with hnone hchunk
      · cases type with
        | samples => exact h
        | quality => exact h
      · exact ⟨⟨hchunk.1, hchunk.2.2⟩, h⟩
      · simpa only [Ready, hphase] using h
  | chunk =>
      simp only [Ready, hphase] at h
      obtain ⟨-, batch, hbatch, records, harchived, hrecords⟩ := h
      exact ⟨batch, hbatch, records, harchived, fun r hr => hrecords r (ofMonth_delete hr)⟩
  | purged x m purged => trivial

theorem next_kept (h : Ready host s) (ids : List Nat) (hsafe : Safe host s (.next ids)) (hr : Kept host s r) :
    Kept host (next host s ids) r := by
  have hover : ∀ x, x ∈ overwrites s (.next ids) → Kept host (next host s ids) r := by
    intro x hx
    obtain ⟨hstore, hother, -⟩ := step_overwrites host hx
    exact hr.spare (hsafe x hx) hstore hother
  unfold next at hover ⊢
  cases hphase : s.phase with
  | idle | finished m | failed | started c | counted c counts | opened x | sampled x samples
  | fetched =>
      exact hr
  | written =>
      simp only
      split
      · exact hr
      · exact hr
  | checked x batch m | failing x =>
      simpa only [hphase] using hover x (by simp only [overwrites, hphase, Option.mem_some_iff])
  | cleared x =>
      simp only [Ready, hphase] at h
      rcases hr with hr | ⟨other, hr⟩
      · exact .inl hr
      · have hne : other ≠ x.call.destination host := by
          rintro rfl
          obtain ⟨batch', hbatch', -⟩ := hr
          rw [h.1] at hbatch'
          cases hbatch'
        exact .inr ⟨other, by rwa [Returned, Finmap.lookup_insert_of_ne _ hne]⟩
  | promoted =>
      simp only [Ready, hphase] at h
      obtain ⟨batch, hbatch, records, harchived, -⟩ := h
      exact hr.setManifest hbatch harchived.2 _
  | recorded =>
      simp only [Ready, hphase] at h
      obtain ⟨batch, hbatch, records, harchived, -⟩ := h
      simp only
      split
      · exact hr
      · refine hr.setManifest hbatch ?_ _
        exact harchived.2
  | purging x m type purged =>
      simp only
      split_ifs
      · cases type with
        | samples => exact hr
        | quality => exact hr
      · exact hr
      · exact hr
  | chunk =>
      simp only [Ready, hphase] at h
      obtain ⟨hpresent, batch, hbatch, records, harchived, hrecords⟩ := h
      rcases hr with hr | hr
      · rcases inStore_delete hpresent hr with hkept | hmonth
        · exact .inl hkept
        · exact .inr ⟨_, batch, hbatch, records, harchived.1, hrecords r hmonth⟩
      · exact .inr hr
  | purged =>
      simp only [Ready, hphase] at h
      obtain ⟨batch, hbatch, records, harchived, -⟩ := h
      refine hr.setManifest hbatch ?_ _
      exact harchived.2

theorem raises_ready (host : Host) (s : State) (halfway : Bool) : Ready host (raises host s halfway) := by
  unfold raises
  cases hphase : s.phase with
  | checked x batch m | recorded x m =>
      simp only
      split
      · trivial
      · trivial
  | idle | finished m | failed => simp [Ready, hphase]
  | _ => trivial

theorem Kept.spoilt (h : Kept host s r) (hspare : Spare host s x) (halfway : Bool) (phase : Phase) :
    Kept host { s with volume := spoilt host s x halfway, phase := phase } r := by
  refine h.spare hspare rfl fun other hne => ?_
  cases halfway with
  | true => exact lookup_setManifest_ne s.volume none hne
  | false => rfl

theorem raises_kept (h : Ready host s) (halfway : Bool) (hsafe : Safe host s (.raises halfway)) (hr : Kept host s r) :
    Kept host (raises host s halfway) r := by
  have hover : ∀ x, x ∈ overwrites s (.raises halfway) → Kept host (raises host s halfway) r := by
    intro x hx
    obtain ⟨hstore, hother, -⟩ := step_overwrites host hx
    exact hr.spare (hsafe x hx) hstore hother
  unfold raises at hover ⊢
  cases hphase : s.phase with
  | promoted =>
      simp only [Ready, hphase] at h
      exact hr.spoilt (spare_copy h) halfway _
  | recorded =>
      simp only [Ready, hphase] at h
      simp only
      split
      · exact hr
      · exact hr.spoilt (spare_copy h) halfway _
  | checked x batch m | purged x m purged | failing x =>
      cases halfway with
      | false => exact hr
      | true => simpa only [hphase] using hover x (by simp only [overwrites, hphase, Option.mem_some_iff])
  | _ => exact hr

end Steps

section Runs

theorem step_ready (h : Ready host s) (e : Event) (halone : Event.alone e = true) : Ready host (step host s e) := by
  cases e with
  | start c =>
      simp only [step]
      split
      · trivial
      · exact h
  | addSample e v extraPayload | addQualityEvent e v extraPayload => cases halone
  | next ids => exact next_ready h ids
  | raises halfway => exact raises_ready host s halfway

theorem step_kept (h : Ready host s) {e : Event} (halone : Event.alone e = true) (hsafe : Safe host s e)
    (hr : Kept host s r) : Kept host (step host s e) r := by
  cases e with
  | start c =>
      simp only [step]
      split
      · exact hr
      · exact hr
  | addSample e v extraPayload | addQualityEvent e v extraPayload => cases halone
  | next ids => exact next_kept h ids hsafe hr
  | raises halfway => exact raises_kept h halfway hsafe hr

theorem run_kept (events : List Event) (s : State) (h : Ready host s) (halone : ∀ e ∈ events, Event.alone e = true)
    (hsafe : Along (step host) (Safe host) s events) (hr : Kept host s r) : Kept host (run (step host) s events) r := by
  induction events generalizing s with
  | nil => exact hr
  | cons e events ih =>
      have he := halone e (by simp)
      exact ih _ (step_ready h e he) (fun e he => halone e (List.mem_cons_of_mem _ he)) hsafe.2
        (step_kept h he hsafe.1 hr)

/-- If no step makes a batch useless that is the only place of a record, every record is in the store or a batch gives it
back, whatever raises. -/
theorem nothing_lost (host : Host) (s : State) (events : List Event) (hfree : s.phase.free = true)
    (halone : ∀ e ∈ events, Event.alone e = true) (hsafe : Along (step host) (Safe host) s events) (r : Record)
    (hr : InStore s.store r) : Kept host (run (step host) s events) r := by
  have hready : Ready host s := by
    unfold Ready
    split <;> first | trivial | (next hphase => rw [hphase] at hfree; cases hfree)
  exact run_kept events s hready halone hsafe (.inl hr)

/-- After a complete run, one that fails before its promotion loses nothing. -/
theorem nothing_lost_early_failure : Kept plainHost
    (run (step plainHost) oneSample ([.start january] ++ quiet 10 ++ [.next [1]] ++ quiet 4 ++
      [.start { january with uuid := "b" }] ++ quiet 6 ++ [.raises true] ++ quiet 1))
    ⟨.samples, "r", "2025-01-31", "l4media", none, none, none, none, "s", dict sampleFields zeros.list⟩ := by
  refine nothing_lost plainHost oneSample _ (by decide +kernel) (by decide +kernel) ?_ _ ⟨.samples, by decide +kernel⟩
  have hempty : Along (step plainHost) (fun s e => ∀ x ∈ overwrites s e, s.volume.lookup (x.call.destination plainHost) = none)
      oneSample ([.start january] ++ quiet 10 ++ [.next [1]] ++ quiet 4 ++
        [.start { january with uuid := "b" }] ++ quiet 6 ++ [.raises true] ++ quiet 1) := by
    decide +kernel
  refine Along.mono ?_ _ _ hempty
  rintro s e h x hx r ⟨batch, hbatch, -⟩
  rw [h x hx] at hbatch
  cases hbatch

/-- The last manifest write of a purging run raises, and the manifest of the failure takes the place of the one that lists
the files. -/
theorem lost_after_purge : ¬ ∀ (host : Host) (s : State) (events : List Event), s.phase.free = true →
    (∀ e ∈ events, Event.alone e = true) → ∀ r, InStore s.store r → Kept host (run (step host) s events) r := by
  intro h
  let events := [.start january] ++ quiet 10 ++ [.next [1]] ++ quiet 3 ++ [.raises false] ++ quiet 1
  let r : Record := ⟨.samples, "r", "2025-01-31", "l4media", none, none, none, none, "s", dict sampleFields zeros.list⟩
  let final := run (step plainHost) oneSample events
  have hstart : r ∈ (oneSample.store.table .samples).rows.map (Row.record .samples) := by decide +kernel
  have hstore : final.store.samples.rows = [] ∧ final.store.quality.rows = [] := by decide +kernel
  have hkeys : final.volume.keys = {january.destination plainHost} := by decide +kernel
  have hbatch : ((final.volume.lookup (january.destination plainHost)).all fun batch =>
      (restoredRecords plainHost batch).all fun records => r ∉ records) = true := by decide +kernel
  have hkept : Kept plainHost final r :=
    h plainHost oneSample events (by decide +kernel) (by decide +kernel) r ⟨.samples, hstart⟩
  clear_value final
  rcases hkept with ⟨type, hin⟩ | ⟨destination, batch, hlookup, records, hrecords, hin⟩
  · cases type with
    | samples => simp [Store.table, hstore.1] at hin
    | quality => simp [Store.table, hstore.2] at hin
  · have hmem : destination ∈ final.volume.keys := Finmap.mem_keys.mpr (Finmap.mem_of_lookup_eq_some hlookup)
    rw [hkeys, Finset.mem_singleton] at hmem
    subst hmem
    rw [hlookup] at hbatch
    simp [hrecords, hin] at hbatch

end Runs

end EtranProcessing.Archive.NothingLost
