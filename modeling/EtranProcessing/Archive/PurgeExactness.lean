import EtranProcessing.Archive.Pipeline

namespace EtranProcessing.Archive.PurgeExactness

open TelemetryStore Batches Pipeline Library.Runs

variable {host : Host} {c : Call} {s : State} {type : RecordType}

def exposed : Phase → RecordType → Option Context
  | .sampled x _, .samples => some x
  | .fetched x _ _, _ | .written x _ _, _ | .checked x _ _, _ | .cleared x _ _, _ | .promoted x _, _ | .recorded x _, _ => some x
  | .purging x _ .samples _, _ | .chunk x _ .samples _ _, _ => some x
  | .purging x _ .quality _, .quality | .chunk x _ .quality _ _, .quality => some x
  | _, _ => none

def Unnoticed (s : State) (after : Store) : Prop :=
  ∀ type, ∀ x ∈ exposed s.phase type, x.call.purges = true →
    (monthRecords (after.table type) x.call.month).Perm (monthRecords (s.store.table type) x.call.month)

def selected : Phase → RecordType → List Nat
  | .chunk _ _ .samples _ ids, .samples => ids
  | .chunk _ _ .quality _ ids, .quality => ids
  | _, _ => []

def Unselected (s : State) (type : RecordType) (e : Entry) : Prop :=
  ∀ r ∈ (s.store.table type).rows, r.id ∈ selected s.phase type → r.recordId ≠ e.recordId

def Harmless (s : State) : Event → Prop
  | .addSample e v extraPayload =>
      (∀ after ∈ addSample s.store e v extraPayload, Unnoticed s after) ∧ Unselected s .samples e
  | .addQualityEvent e v extraPayload =>
      (∀ after ∈ addQualityEvent s.store e v extraPayload, Unnoticed s after) ∧ Unselected s .quality e
  | _ => True

instance (s : State) (after : Store) : Decidable (Unnoticed s after) :=
  decidable_of_iff
    ((∀ x ∈ exposed s.phase .samples, x.call.purges = true →
        (monthRecords (after.table .samples) x.call.month).Perm (monthRecords (s.store.table .samples) x.call.month)) ∧
      ∀ x ∈ exposed s.phase .quality, x.call.purges = true →
        (monthRecords (after.table .quality) x.call.month).Perm (monthRecords (s.store.table .quality) x.call.month))
    ⟨fun h type => by cases type; exacts [h.1, h.2], fun h => ⟨h .samples, h .quality⟩⟩

instance (s : State) : (e : Event) → Decidable (Harmless s e)
  | .addSample e v extraPayload =>
      inferInstanceAs (Decidable ((∀ after ∈ addSample s.store e v extraPayload, Unnoticed s after) ∧
        ∀ r ∈ (s.store.table .samples).rows, r.id ∈ selected s.phase .samples → r.recordId ≠ e.recordId))
  | .addQualityEvent e v extraPayload =>
      inferInstanceAs (Decidable ((∀ after ∈ addQualityEvent s.store e v extraPayload, Unnoticed s after) ∧
        ∀ r ∈ (s.store.table .quality).rows, r.id ∈ selected s.phase .quality → r.recordId ≠ e.recordId))
  | .start _ | .next _ | .raises _ => .isTrue trivial

structure OnlyArchived (host : Host) (c : Call) (s : State) : Prop where
  archived : ∀ r ∈ s.deleted, ∃ batch, s.volume.lookup (c.destination host) = some batch ∧ ∃ f ∈ batch.files, r ∈ f.2
  counted : ∀ m n, s.phase = .finished m → m.purge = some ⟨n, .completed⟩ → n = m.recordCounts.total

def Holding (host : Host) (c : Call) (v : Volume) (samples quality : List Record) : Prop :=
  ∃ batch, v.lookup (c.destination host) = some batch ∧ batch.files = [(samplesPath, samples), (qualityPath, quality)]

def Left (s : Store) (type : RecordType) (month : String) (all gone : List Record) : Prop :=
  (monthRecords (s.table type) month ++ gone).Perm all

def Waiting (c : Call) (s : Store) (samples quality : List Record) : Prop :=
  c.purges = true → Left s .samples c.month samples [] ∧ Left s .quality c.month quality []

def Total (m : Manifest) (samples quality : List Record) : Prop := m.recordCounts.total = samples.length + quality.length

def Tally (host : Host) (c : Call) (s : State) (m : Manifest) (type : RecordType) (purged : Nat) : Prop :=
  ∃ samples quality done now, Holding host c s.volume samples quality ∧ Total m samples quality ∧
    s.deleted = done ++ now ∧ purged = s.deleted.length ∧
    match type with
    | .samples => done = [] ∧ Left s.store .samples c.month samples now ∧ Left s.store .quality c.month quality []
    | .quality => done.Perm samples ∧ Left s.store .quality c.month quality now

def Stored (host : Host) (c : Call) (s : State) : Prop :=
  ∀ r ∈ s.deleted, ∃ batch, s.volume.lookup (c.destination host) = some batch ∧ ∃ f ∈ batch.files, r ∈ f.2

def Inv (host : Host) (c : Call) (s : State) : Prop :=
  match s.phase with
  | .idle => s.deleted = []
  | .started d | .counted d _ => d = c ∧ s.deleted = []
  | .opened x => x.call = c ∧ s.deleted = []
  | .sampled x samples =>
      x.call = c ∧ s.deleted = [] ∧ (c.purges = true → Left s.store .samples c.month samples [])
  | .fetched x samples quality => x.call = c ∧ s.deleted = [] ∧ Waiting c s.store samples quality
  | .written x batch m | .checked x batch m | .cleared x batch m =>
      x.call = c ∧ s.deleted = [] ∧ ∃ samples quality, batch.files = [(samplesPath, samples), (qualityPath, quality)] ∧
        Total m samples quality ∧ Waiting c s.store samples quality
  | .promoted x m | .recorded x m =>
      x.call = c ∧ s.deleted = [] ∧ ∃ samples quality, Holding host c s.volume samples quality ∧ Total m samples quality ∧
        Waiting c s.store samples quality
  | .purging x m type purged => x.call = c ∧ c.purges = true ∧ Tally host c s m type purged
  | .chunk x m type purged ids =>
      x.call = c ∧ c.purges = true ∧ Tally host c s m type purged ∧ Present (s.store.table type) c.month ids
  | .purged x m purged => x.call = c ∧ Stored host c s ∧ purged = m.recordCounts.total
  | .failing x => x.call = c ∧ Stored host c s
  | .finished m => Stored host c s ∧ ∀ n, m.purge = some ⟨n, .completed⟩ → n = m.recordCounts.total
  | .failed => Stored host c s

section Tables

theorem left_fetch (s : Store) (type : RecordType) (month : String) :
    Left s type month ((s.table type).fetch month) [] := by
  rw [Left, List.append_nil]
  exact (fetch_perm _ month).symm

end Tables

section Files

variable {v : Volume} {samples quality : List Record}

theorem Holding.setManifest (h : Holding host c v samples quality) (m : Option Manifest) :
    Holding host c (Volume.setManifest v (c.destination host) m) samples quality := by
  obtain ⟨batch, hbatch, hfiles⟩ := h
  exact ⟨{ batch with manifest := m }, by rw [lookup_setManifest, hbatch, Option.map_some], hfiles⟩

theorem Stored.setManifest (h : Stored host c s) (m : Option Manifest) (phase : Phase) :
    Stored host c { s with volume := Volume.setManifest s.volume (c.destination host) m, phase := phase } := by
  intro r hr
  obtain ⟨batch, hbatch, hfile⟩ := h r hr
  exact ⟨{ batch with manifest := m }, by rw [lookup_setManifest, hbatch, Option.map_some], hfile⟩

theorem stored_nil (h : s.deleted = []) : Stored host c s := by
  intro r hr
  rw [h] at hr
  cases hr

theorem Holding.stored (h : Holding host c s.volume samples quality) (hdeleted : ∀ r ∈ s.deleted, r ∈ samples ++ quality) :
    Stored host c s := by
  obtain ⟨batch, hbatch, hfiles⟩ := h
  intro r hr
  refine ⟨batch, hbatch, ?_⟩
  rcases List.mem_append.mp (hdeleted r hr) with hmem | hmem
  · exact ⟨(samplesPath, samples), by simp [hfiles], hmem⟩
  · exact ⟨(qualityPath, quality), by simp [hfiles], hmem⟩

theorem Left.gone {all gone : List Record} {month : String} (h : Left s.store type month all gone) :
    ∀ r ∈ gone, r ∈ all := fun _ hr => h.subset (List.mem_append_right _ hr)

theorem Tally.stored {m : Manifest} {purged : Nat} (h : Tally host c s m type purged) : Stored host c s := by
  obtain ⟨samples, quality, done, now, hholding, -, hdeleted, -, hleft⟩ := h
  refine hholding.stored fun r hr => ?_
  rw [hdeleted] at hr
  cases type with
  | samples =>
      obtain ⟨rfl, hsamples, -⟩ := hleft
      exact List.mem_append_left _ (hsamples.gone r hr)
  | quality =>
      obtain ⟨hdone, hquality⟩ := hleft
      rcases List.mem_append.mp hr with hr | hr
      · exact List.mem_append_left _ (hdone.subset hr)
      · exact List.mem_append_right _ (hquality.gone r hr)

end Files

section Steps

theorem spoilt_stored {x : Context} (hx : x.call = c) (h : Stored host c s) (halfway : Bool) (phase : Phase) :
    Stored host c { s with volume := spoilt host s x halfway, phase := phase } := by
  subst hx
  unfold spoilt
  split
  · exact h.setManifest none phase
  · exact h

theorem left_nil {all gone : List Record} {month : String} (h : Left s.store type month all gone)
    (hnone : (s.store.table type).ofMonth month = []) : gone.Perm all := by
  rw [Left, monthRecords, hnone] at h
  exact h

theorem left_delete {all gone : List Record} {month : String} {ids : List Nat} (h : Left s.store type month all gone)
    (hpresent : Present (s.store.table type) month ids) :
    Left (s.store.setTable type ((s.store.table type).delete ids)) type month all
      (gone ++ ((s.store.table type).rows.filter fun r => r.id ∈ ids).map (Row.record type)) := by
  rw [Left, table_setTable]
  refine List.Perm.trans ?_ h
  refine (List.Perm.append_left _ List.perm_append_comm).trans ?_
  rw [← List.append_assoc]
  exact (delete_perm hpresent).append_right gone

theorem next_inv (h : Inv host c s) (ids : List Nat) : Inv host c (next host s ids) := by
  unfold next
  cases hphase : s.phase with
  | idle | finished m | failed => exact h
  | started d | counted d counts | checked x batch m =>
      simp only [Inv, hphase] at h ⊢
      exact h
  | opened x =>
      simp only [Inv, hphase] at h ⊢
      obtain ⟨rfl, hdeleted⟩ := h
      exact ⟨rfl, hdeleted, fun _ => left_fetch s.store .samples x.call.month⟩
  | sampled x samples =>
      simp only [Inv, hphase] at h ⊢
      obtain ⟨rfl, hdeleted, hsamples⟩ := h
      exact ⟨rfl, hdeleted, fun hpurges => ⟨hsamples hpurges, left_fetch s.store .quality x.call.month⟩⟩
  | fetched x samples quality =>
      simp only [Inv, hphase] at h
      obtain ⟨rfl, hdeleted, hwaiting⟩ := h
      exact ⟨rfl, hdeleted, samples, quality, rfl, rfl, hwaiting⟩
  | written =>
      simp only [Inv, hphase] at h
      obtain ⟨rfl, hdeleted, hrest⟩ := h
      simp only
      split
      · exact ⟨rfl, hdeleted, hrest⟩
      · exact ⟨rfl, stored_nil hdeleted⟩
  | cleared x batch m =>
      simp only [Inv, hphase] at h
      obtain ⟨rfl, hdeleted, samples, quality, hfiles, htotal, hwaiting⟩ := h
      exact ⟨rfl, hdeleted, samples, quality, ⟨batch, Finmap.lookup_insert _, hfiles⟩, htotal, hwaiting⟩
  | promoted =>
      simp only [Inv, hphase] at h
      obtain ⟨rfl, hdeleted, samples, quality, hholding, hrest⟩ := h
      exact ⟨rfl, hdeleted, samples, quality, hholding.setManifest _, hrest⟩
  | recorded =>
      simp only [Inv, hphase] at h
      obtain ⟨rfl, hdeleted, samples, quality, hholding, htotal, hwaiting⟩ := h
      simp only
      split
      · next hpurges =>
          obtain ⟨hsamples, hquality⟩ := hwaiting hpurges
          exact ⟨rfl, hpurges, samples, quality, [], [], hholding, htotal, hdeleted, by rw [hdeleted]; rfl, rfl,
            hsamples, hquality⟩
      · exact ⟨stored_nil hdeleted, fun n hn => by simp at hn⟩
  | purging x m type purged =>
      simp only [Inv, hphase] at h
      obtain ⟨rfl, hpurges, htally⟩ := h
      simp only
      split_ifs with hnone hchunk
      · have hstored := htally.stored
        obtain ⟨samples, quality, done, now, hholding, htotal, hdeleted, hcount, hleft⟩ := htally
        cases type with
        | samples =>
            obtain ⟨rfl, hsamples, hquality⟩ := hleft
            exact ⟨rfl, hpurges, samples, quality, now, [], hholding, htotal, by simpa using hdeleted, hcount,
              left_nil hsamples hnone, hquality⟩
        | quality =>
            obtain ⟨hdone, hquality⟩ := hleft
            refine ⟨rfl, hstored, ?_⟩
            rw [hcount, hdeleted, htotal, List.length_append, hdone.length_eq, (left_nil hquality hnone).length_eq]
      · exact ⟨rfl, hpurges, htally, hchunk.1, hchunk.2.2⟩
      · simp only [Inv, hphase]
        exact ⟨trivial, hpurges, htally⟩
  | chunk x m type purged ids =>
      simp only [Inv, hphase] at h
      obtain ⟨rfl, hpurges, ⟨samples, quality, done, now, hholding, htotal, hdeleted, hcount, hleft⟩, hpresent⟩ := h
      let gone := ((s.store.table type).rows.filter fun r => r.id ∈ ids).map (Row.record type)
      have hdeleted' : s.deleted ++ gone = done ++ (now ++ gone) := by rw [hdeleted, List.append_assoc]
      have hcount' : purged + ids.length = (s.deleted ++ gone).length := by
        rw [List.length_append, List.length_map, hpresent.length, hcount]
      refine ⟨rfl, hpurges, samples, quality, done, now ++ gone, hholding, htotal, hdeleted', hcount', ?_⟩
      cases type with
      | samples =>
          obtain ⟨hdone, hsamples, hquality⟩ := hleft
          exact ⟨hdone, left_delete hsamples hpresent, hquality⟩
      | quality =>
          obtain ⟨hdone, hquality⟩ := hleft
          exact ⟨hdone, left_delete hquality hpresent⟩
  | purged =>
      simp only [Inv, hphase] at h
      obtain ⟨rfl, hstored, htotal⟩ := h
      refine ⟨hstored.setManifest _ _, fun n hn => ?_⟩
      simp only [Option.some.injEq, PurgeResult.mk.injEq] at hn
      exact hn.1.symm.trans htotal
  | failing x =>
      simp only [Inv, hphase] at h
      obtain ⟨rfl, hstored⟩ := h
      exact hstored.setManifest _ _

theorem raises_inv (h : Inv host c s) (halfway : Bool) : Inv host c (raises host s halfway) := by
  unfold raises
  cases hphase : s.phase with
  | idle | finished m | failed => exact h
  | started d | counted d counts =>
      simp only [Inv, hphase] at h
      exact stored_nil h.2
  | opened x =>
      simp only [Inv, hphase] at h
      exact ⟨h.1, stored_nil h.2⟩
  | sampled x samples | fetched x samples quality | written x batch m | cleared x batch m | promoted x m =>
      simp only [Inv, hphase] at h
      exact ⟨h.1, stored_nil h.2.1⟩
  | checked x batch m | recorded x m =>
      simp only [Inv, hphase] at h
      simp only
      split
      · exact ⟨h.1, stored_nil h.2.1⟩
      · exact ⟨h.1, stored_nil h.2.1⟩
  | purging =>
      simp only [Inv, hphase] at h
      exact ⟨h.1, h.2.2.stored⟩
  | chunk =>
      simp only [Inv, hphase] at h
      exact ⟨h.1, h.2.2.1.stored⟩
  | purged =>
      simp only [Inv, hphase] at h
      exact ⟨h.1, spoilt_stored h.1 h.2.1 halfway _⟩
  | failing x =>
      simp only [Inv, hphase] at h
      exact spoilt_stored h.1 h.2 halfway _

end Steps

section OtherConnection

variable {after : Store}

theorem Left.unnoticed {all gone : List Record} {month : String} (h : Left s.store type month all gone)
    (hsame : (monthRecords (after.table type) month).Perm (monthRecords (s.store.table type) month)) :
    Left after type month all gone := (hsame.append_right gone).trans h

theorem Waiting.unnoticed {samples quality : List Record} (h : Waiting c s.store samples quality)
    (hsame : c.purges = true → ∀ type,
      (monthRecords (after.table type) c.month).Perm (monthRecords (s.store.table type) c.month)) :
    Waiting c after samples quality := by
  intro hpurges
  obtain ⟨hsamples, hquality⟩ := h hpurges
  exact ⟨hsamples.unnoticed (hsame hpurges .samples), hquality.unnoticed (hsame hpurges .quality)⟩

theorem Tally.unnoticed {m : Manifest} {purged : Nat} (h : Tally host c s m type purged)
    (hsame : ∀ type', (type = .samples ∨ type' = .quality) →
      (monthRecords (after.table type') c.month).Perm (monthRecords (s.store.table type') c.month)) :
    Tally host c { s with store := after } m type purged := by
  obtain ⟨samples, quality, done, now, hholding, htotal, hdeleted, hcount, hleft⟩ := h
  refine ⟨samples, quality, done, now, hholding, htotal, hdeleted, hcount, ?_⟩
  cases type with
  | samples =>
      obtain ⟨hdone, hsamples, hquality⟩ := hleft
      exact ⟨hdone, hsamples.unnoticed (hsame .samples (.inl rfl)), hquality.unnoticed (hsame .quality (.inl rfl))⟩
  | quality =>
      obtain ⟨hdone, hquality⟩ := hleft
      exact ⟨hdone, hquality.unnoticed (hsame .quality (.inr rfl))⟩

theorem selected_chunk (x : Context) (m : Manifest) (type : RecordType) (purged : Nat) (ids : List Nat) :
    selected (.chunk x m type purged ids) type = ids := by
  cases type <;> rfl

theorem store_inv (h : Inv host c s) (hsame : Unnoticed s after)
    (hrows : ∀ type, ∀ r ∈ (s.store.table type).rows, r.id ∈ selected s.phase type → r ∈ (after.table type).rows) :
    Inv host c { s with store := after } := by
  unfold Unnoticed at hsame
  cases hphase : s.phase with
  | idle | started d | counted d counts | opened x | purged x m purged | failing x | finished m | failed =>
      simp only [Inv, hphase] at h ⊢
      exact h
  | sampled x samples =>
      simp only [Inv, hphase] at h hsame ⊢
      obtain ⟨rfl, hdeleted, hsamples⟩ := h
      exact ⟨rfl, hdeleted, fun hpurges => (hsamples hpurges).unnoticed (hsame .samples x rfl hpurges)⟩
  | fetched x =>
      simp only [Inv, hphase] at h hsame ⊢
      obtain ⟨rfl, hdeleted, hwaiting⟩ := h
      exact ⟨rfl, hdeleted, hwaiting.unnoticed fun hpurges type => hsame type x (by cases type <;> rfl) hpurges⟩
  | written x batch m | checked x batch m | cleared x batch m =>
      simp only [Inv, hphase] at h hsame ⊢
      obtain ⟨rfl, hdeleted, samples, quality, hfiles, htotal, hwaiting⟩ := h
      exact ⟨rfl, hdeleted, samples, quality, hfiles, htotal,
        hwaiting.unnoticed fun hpurges type => hsame type x (by cases type <;> rfl) hpurges⟩
  | promoted x m | recorded x m =>
      simp only [Inv, hphase] at h hsame ⊢
      obtain ⟨rfl, hdeleted, samples, quality, hholding, htotal, hwaiting⟩ := h
      exact ⟨rfl, hdeleted, samples, quality, hholding, htotal,
        hwaiting.unnoticed fun hpurges type => hsame type x (by cases type <;> rfl) hpurges⟩
  | purging x m type purged =>
      simp only [Inv, hphase] at h hsame ⊢
      obtain ⟨rfl, hpurges, htally⟩ := h
      refine ⟨rfl, hpurges, htally.unnoticed fun type' htype => hsame type' x ?_ hpurges⟩
      rcases htype with rfl | rfl
      · cases type' <;> rfl
      · cases type <;> rfl
  | chunk x m type =>
      simp only [Inv, hphase] at h hsame ⊢
      obtain ⟨rfl, hpurges, htally, hnodup, hmonth⟩ := h
      refine ⟨rfl, hpurges, htally.unnoticed fun type' htype => hsame type' x ?_ hpurges, hnodup, fun id hid => ?_⟩
      · rcases htype with rfl | rfl
        · cases type' <;> rfl
        · cases type <;> rfl
      · obtain ⟨r, hr, rfl⟩ := List.mem_map.mp (hmonth id hid)
        obtain ⟨hmem, hof⟩ := List.mem_filter.mp hr
        have hkept := hrows type r hmem (by rw [hphase, selected_chunk]; exact hid)
        exact List.mem_map.mpr ⟨r, List.mem_filter.mpr ⟨hkept, hof⟩, rfl⟩

theorem add_rows {t t' : Table type} {e : Entry} {values : List Json} {h : values.length = type.fields.length}
    {extraPayload : Payload} (hadd : t.add e values h extraPayload = some t') {r : Row} (hr : r ∈ t.rows)
    (hne : r.recordId ≠ e.recordId) : r ∈ t'.rows := by
  unfold Table.add at hadd
  split_ifs at hadd with hbind
  obtain rfl := Option.some.inj hadd
  exact List.mem_append_left _ (List.mem_filter.mpr ⟨hr, by simpa using hne⟩)

theorem addSample_rows {e : Entry} {v : SampleValues} {extraPayload : Payload}
    (hadd : addSample s.store e v extraPayload = some after) (hun : Unselected s .samples e) (type : RecordType) :
    ∀ r ∈ (s.store.table type).rows, r.id ∈ selected s.phase type → r ∈ (after.table type).rows := by
  obtain ⟨t, ht, rfl⟩ := Option.map_eq_some_iff.mp hadd
  intro r hr hid
  cases type with
  | samples => exact add_rows ht hr (hun r hr hid)
  | quality => exact hr

theorem addQualityEvent_rows {e : Entry} {v : QualityValues} {extraPayload : Payload}
    (hadd : addQualityEvent s.store e v extraPayload = some after) (hun : Unselected s .quality e) (type : RecordType) :
    ∀ r ∈ (s.store.table type).rows, r.id ∈ selected s.phase type → r ∈ (after.table type).rows := by
  unfold addQualityEvent at hadd
  split_ifs at hadd with hnull
  obtain ⟨t, ht, rfl⟩ := Option.map_eq_some_iff.mp hadd
  intro r hr hid
  cases type with
  | samples => exact hr
  | quality => exact add_rows ht hr (hun r hr hid)

end OtherConnection

section Runs

def Event.within : Event → Bool
  | .start _ => false
  | _ => true

theorem step_inv (h : Inv host c s) (e : Event) (he : Event.within e = true) (hharmless : Harmless s e) :
    Inv host c (step host s e) := by
  cases e with
  | start d => cases he
  | addSample e v extraPayload =>
      cases hadd : addSample s.store e v extraPayload with
      | none => simpa [step, hadd] using h
      | some after =>
          have hkept := store_inv h (hharmless.1 after hadd) (addSample_rows hadd hharmless.2)
          simpa [step, hadd] using hkept
  | addQualityEvent e v extraPayload =>
      cases hadd : addQualityEvent s.store e v extraPayload with
      | none => simpa [step, hadd] using h
      | some after =>
          have hkept := store_inv h (hharmless.1 after hadd) (addQualityEvent_rows hadd hharmless.2)
          simpa [step, hadd] using hkept
  | next ids => exact next_inv h ids
  | raises halfway => exact raises_inv h halfway

theorem run_inv (events : List Event) (s : State) (h : Inv host c s) (hwithin : ∀ e ∈ events, Event.within e = true)
    (hharmless : Along (step host) Harmless s events) : Inv host c (run (step host) s events) := by
  induction events generalizing s with
  | nil => exact h
  | cons e events ih =>
      exact ih _ (step_inv h e (hwithin e (by simp)) hharmless.1) (fun e he => hwithin e (List.mem_cons_of_mem _ he))
        hharmless.2

theorem Inv.onlyArchived (h : Inv host c s) : OnlyArchived host c s := by
  have hstored : Stored host c s := by
    cases hphase : s.phase with
    | idle => exact stored_nil (by simpa only [Inv, hphase] using h)
    | started d | counted d counts | opened x =>
        simp only [Inv, hphase] at h
        exact stored_nil h.2
    | sampled x samples | fetched x samples quality | written x batch m | checked x batch m | cleared x batch m
    | promoted x m | recorded x m =>
        simp only [Inv, hphase] at h
        exact stored_nil h.2.1
    | purging =>
        simp only [Inv, hphase] at h
        exact h.2.2.stored
    | chunk =>
        simp only [Inv, hphase] at h
        exact h.2.2.1.stored
    | purged =>
        simp only [Inv, hphase] at h
        exact h.2.1
    | failing x =>
        simp only [Inv, hphase] at h
        exact h.2
    | finished m =>
        simp only [Inv, hphase] at h
        exact h.1
    | failed => simpa only [Inv, hphase] using h
  refine ⟨hstored, fun m n hphase hpurge => ?_⟩
  simp only [Inv, hphase] at h
  exact h.2 n hpurge

/-- A call whose tables no other connection changes for its month, between the fetch of a table and the end of its purge,
deletes only what it has archived. -/
theorem purge_exact (host : Host) (c : Call) (s : State) (events : List Event) (hfree : s.phase.free = true)
    (hwithin : ∀ e ∈ events, Event.within e = true)
    (hharmless : Along (step host) Harmless (step host s (.start c)) events) :
    OnlyArchived host c (run (step host) (step host s (.start c)) events) := by
  have hstart : Inv host c (step host s (.start c)) := by
    rw [step, if_pos hfree]
    exact ⟨rfl, rfl⟩
  exact (run_inv events _ hstart hwithin hharmless).onlyArchived

/-- A sample of another month is stored between the fetch and the purge. -/
theorem purge_exact_other_month :
    OnlyArchived plainHost january (run (step plainHost) (step plainHost oneSample (.start january))
      (quiet 5 ++ [.addSample { reading "q" with sourceMonth := "2025-02" } zeros ∅] ++ quiet 5 ++ [.next [1]] ++ quiet 4)) :=
  purge_exact plainHost january oneSample _ (by decide +kernel) (by decide +kernel) (by decide +kernel)

/-- A sample of the month is stored between the fetch and the purge, and is deleted though no file has it. -/
theorem purge_beyond_archive : ¬ ∀ (host : Host) (c : Call) (s : State) (events : List Event), s.phase.free = true →
    (∀ e ∈ events, Event.within e = true) → OnlyArchived host c (run (step host) (step host s (.start c)) events) := by
  intro h
  let late := quiet 9 ++ [.addSample (reading "q") zeros ∅] ++ quiet 1 ++ [.next [1, 2]] ++ quiet 4
  have hlate := h plainHost january oneSample late (by decide +kernel) (by decide +kernel)
  let final := run (step plainHost) (step plainHost oneSample (.start january)) late
  let q : Record := ⟨.samples, "q", "2025-01-31", "l4media", none, none, none, none, "s", dict sampleFields zeros.list⟩
  have hdeleted : q ∈ final.deleted := by decide +kernel
  have hmissing : ((final.volume.lookup (january.destination plainHost)).all fun batch => batch.files.all fun f => q ∉ f.2) = true := by
    decide +kernel
  obtain ⟨batch, hbatch, f, hf, hq⟩ := hlate.archived q hdeleted
  rw [hbatch] at hmissing
  simp only [Option.all_some, List.all_eq_true, decide_eq_true_eq] at hmissing
  exact hmissing f hf hq

end Runs

end EtranProcessing.Archive.PurgeExactness
