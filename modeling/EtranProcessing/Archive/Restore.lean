import EtranProcessing.Archive.Batches

namespace EtranProcessing.Archive.Restore

open TelemetryStore Batches

variable {type : RecordType} {s s' : Store} {month : String}

section Verification

variable {host : Host}

theorem sampleLines_valid {content : List Record} (h : content.all validateEnvelope = true) :
    (sampleLines content).all validateEnvelope = true := by
  refine List.all_eq_true.mpr fun r hr => List.all_eq_true.mp h r ?_
  obtain ⟨⟨r', n⟩, he, hsome⟩ := List.mem_filterMap.mp hr
  split_ifs at hsome
  exact Option.some.inj hsome ▸ (List.mem_zipIdx he).2.2 ▸ List.getElem_mem _

theorem verifyFile_ok {batch : Batch} {entry : FileEntry} {content : List Record}
    (hfile : batch.files.lookup entry.path = some content) (hdigest : host.digest content = entry.sha256)
    (hsum : batch.checksums.lookup entry.path = some (host.digest content))
    (hvalid : content.all validateEnvelope = true) (hcount : content.length = entry.recordCount) :
    verifyFile host batch entry = .ok content := by
  simp [verifyFile, hfile, hdigest, hsum, sampleLines_valid hvalid, hcount]

theorem verify_writeBatch {batchId sourceMonth : String} {bounds : Option CursorBounds} {samples quality : List Record}
    {m : Manifest} (hm : (writeBatch host batchId sourceMonth bounds samples quality).manifest = some m)
    (hsamples : samples.all validateEnvelope = true) (hquality : quality.all validateEnvelope = true)
    (hbounds : ∀ b ∈ bounds, ¬ b.consumersPassedCursor < b.throughCursor) :
    ∃ v, verifyBatchIntegrity host (writeBatch host batchId sourceMonth bounds samples quality) m = .ok v := by
  obtain rfl := Option.some.inj hm
  have hne : (qualityPath == samplesPath) = false := by decide
  have hfirst : verifyFile host (writeBatch host batchId sourceMonth bounds samples quality)
      ⟨samplesPath, host.digest samples, samples.length⟩ = .ok samples :=
    verifyFile_ok (by simp [writeBatch]) rfl (by simp [writeBatch]) hsamples rfl
  have hsecond : verifyFile host (writeBatch host batchId sourceMonth bounds samples quality)
      ⟨qualityPath, host.digest quality, quality.length⟩ = .ok quality :=
    verifyFile_ok (by simp [writeBatch, List.lookup, hne]) rfl (by simp [writeBatch, List.lookup, hne]) hquality rfl
  have hcontents : List.mapM (verifyFile host (writeBatch host batchId sourceMonth bounds samples quality))
      [⟨samplesPath, host.digest samples, samples.length⟩, ⟨qualityPath, host.digest quality, quality.length⟩] =
      .ok [samples, quality] := by
    simp only [List.mapM_cons, List.mapM_nil, hfirst, hsecond]
    rfl
  have hlag : ¬ ∃ b ∈ bounds, b.consumersPassedCursor < b.throughCursor := by simpa using hbounds
  simp only [verifyBatchIntegrity, hcontents, if_neg hlag]
  simp [bind, Except.bind, pure, Except.pure]

end Verification

section Payloads

theorem lookup_dict_map (fields : List String) (value : String → Json) (field : String) :
    (dict fields (fields.map value)).lookup field = if field ∈ fields then some (value field) else none := by
  rw [lookup_dict]
  induction fields with
  | nil => rfl
  | cons f fields ih =>
      by_cases hf : f = field
      · subst hf
        simp
      · have hne : field ≠ f := Ne.symm hf
        simp only [List.map_cons, List.zip_cons_cons, List.mem_cons, hne, false_or]
        exact (List.dlookup_cons_ne _ ⟨f, value f⟩ hne).trans ih

def valueOf (payload : Payload) (field : String) : Json := get payload field .null

theorem get_eq {payload : Payload} {field : String} (h : field ∈ payload) (default : Json) :
    get payload field default = valueOf payload field := by
  obtain ⟨v, hv⟩ := Option.isSome_iff_exists.mp (Finmap.lookup_isSome.mpr h)
  simp only [valueOf, Batches.get, hv, Option.getD_some]

def Complete (type : RecordType) (payload : Payload) : Prop := ∀ field ∈ type.fields, field ∈ payload

def trimmed (type : RecordType) (payload : Payload) : Payload := dict type.fields (type.fields.map (valueOf payload))

def Storable (type : RecordType) (payload : Payload) : Prop :=
  (type.fields.map (valueOf payload)).all Json.bindable = true ∧
    (type = .quality → valueOf payload "event_type" ≠ .null)

theorem trimmed_eq_iff {payload : Payload} (h : Complete type payload) :
    trimmed type payload = payload ↔ ∀ field ∈ payload, field ∈ type.fields := by
  constructor
  · intro heq field hfield
    rw [← heq, ← Finmap.lookup_isSome, trimmed, lookup_dict_map] at hfield
    by_contra hnot
    simp [hnot] at hfield
  · intro hfixed
    refine Finmap.ext_lookup fun field => ?_
    rw [trimmed, lookup_dict_map]
    split
    · next hfield =>
        obtain ⟨v, hv⟩ := Option.isSome_iff_exists.mp (Finmap.lookup_isSome.mpr (h field hfield))
        rw [valueOf, Batches.get, hv, Option.getD_some]
    · next hfield => exact (Finmap.lookup_eq_none.mpr fun hmem => hfield (hfixed field hmem)).symm

end Payloads

section OneRecord

def Replaced (t t' : Table type) (r : Row) : Prop :=
  t'.rows = t.rows.filter (fun old => old.recordId ≠ r.recordId) ++ [r]

def restored (r : Record) : Record := { r with sourceProject := ownerProject, payload := trimmed r.recordType r.payload }

def RowOf (type : RecordType) (month : String) (r : Record) (row : Row) : Prop :=
  row.sourceMonth = month ∧ Row.record type row = restored r

theorem add_storable {t : Table type} {e : Entry} {values : List Json} {h : values.length = type.fields.length}
    {extraPayload : Payload} : (t.add e values h extraPayload).isSome = true ↔ values.all Json.bindable = true := by
  rw [Table.add]
  split <;> simp_all

theorem add_replaced {t t' : Table type} {e : Entry} {values : List Json} {h : values.length = type.fields.length}
    {extraPayload : Payload} (hadd : t.add e values h extraPayload = some t') :
    ∃ row : Row, Replaced t t' row ∧ row.toEntry = e ∧ row.payload = extraPayload ∪ dict type.fields values := by
  rw [Table.add] at hadd
  split_ifs at hadd with hbind
  obtain rfl := Option.some.inj hadd
  exact ⟨{ e with id := t.lastId + 1, columns := values, payload := extraPayload ∪ dict type.fields values }, rfl, rfl, rfl⟩

def sampleValues (payload : Payload) : SampleValues where
  rtpPackets := get payload "rtp_packets" (.int 0)
  rtcpPackets := get payload "rtcp_packets" (.int 0)
  bytesCount := get payload "bytes" (.int 0)
  bitrateKbps := get payload "bitrate_kbps" (.float "0.0")
  packetLossPct := get payload "packet_loss_pct" (.float "0.0")
  jitterMs := get payload "jitter_ms" (.float "0.0")
  rttMs := get payload "rtt_ms" (.float "0.0")
  fps := get payload "fps" (.float "0.0")
  frameWidth := get payload "frame_width" (.int 0)
  frameHeight := get payload "frame_height" (.int 0)

def qualityValues (payload : Payload) : QualityValues where
  eventType := get payload "event_type" (.str "unknown")
  metricValue := get payload "metric_value" (.float "0.0")
  reason := get payload "reason" .null

theorem sampleValues_list {payload : Payload} (h : Complete .samples payload) :
    (sampleValues payload).list = sampleFields.map (valueOf payload) := by
  have hget : ∀ field ∈ sampleFields, ∀ default, get payload field default = valueOf payload field :=
    fun field hfield => get_eq (h field hfield)
  simp only [sampleFields, List.forall_mem_cons] at hget
  simp only [sampleValues, SampleValues.list, sampleFields, List.map_cons, List.map_nil, hget]

theorem qualityValues_list {payload : Payload} (h : Complete .quality payload) :
    (qualityValues payload).list = qualityFields.map (valueOf payload) := by
  have hget : ∀ field ∈ qualityFields, ∀ default, get payload field default = valueOf payload field :=
    fun field hfield => get_eq (h field hfield)
  simp only [qualityFields, List.forall_mem_cons] at hget
  simp only [qualityValues, QualityValues.list, qualityFields, List.map_cons, List.map_nil, hget]

theorem restoreRecord_samples {r : Record} (hr : r.recordType = .samples) :
    restoreRecord month s r = addSample s (Record.entry r month) (sampleValues r.payload) ∅ := by
  simp only [restoreRecord, hr]
  rfl

theorem restoreRecord_quality {r : Record} (hr : r.recordType = .quality) :
    restoreRecord month s r = addQualityEvent s (Record.entry r month) (qualityValues r.payload) ∅ := by
  simp only [restoreRecord, hr]
  rfl

theorem restoreRecord_isSome (month : String) (s : Store) {r : Record} (h : Complete r.recordType r.payload) :
    (restoreRecord month s r).isSome = true ↔ Storable r.recordType r.payload := by
  cases hr : r.recordType with
  | samples =>
      rw [hr] at h
      rw [restoreRecord_samples hr, addSample, Option.isSome_map]
      refine add_storable.trans ?_
      rw [sampleValues_list h]
      simp [Storable, RecordType.fields]
  | quality =>
      rw [hr] at h
      have htype : (qualityValues r.payload).eventType = valueOf r.payload "event_type" :=
        get_eq (h "event_type" (by simp [RecordType.fields, qualityFields])) _
      rw [restoreRecord_quality hr, addQualityEvent, htype]
      split
      · next hnull => simp [Storable, hnull]
      · next hnull =>
          rw [Option.isSome_map]
          refine add_storable.trans ?_
          rw [qualityValues_list h]
          simp [Storable, RecordType.fields, hnull]

theorem rowOf {r : Record} {row : Row} (hr : r.recordType = type) (hentry : row.toEntry = Record.entry r month)
    (hpayload : row.payload = trimmed type r.payload) : RowOf type month r row := by
  obtain ⟨entry, id, columns, payload⟩ := row
  obtain rfl : entry = Record.entry r month := hentry
  obtain rfl : payload = trimmed type r.payload := hpayload
  subst hr
  exact ⟨rfl, rfl⟩

theorem restoreRecord_replaced {r : Record} (hr : r.recordType = type) (h : Complete type r.payload)
    (hrestore : restoreRecord month s r = some s') :
    (∃ row, Replaced (s.table type) (s'.table type) row ∧ RowOf type month r row) ∧
      ∀ other, other ≠ type → s'.table other = s.table other := by
  cases type with
  | samples =>
      rw [restoreRecord_samples hr] at hrestore
      obtain ⟨t, hadd, rfl⟩ := Option.map_eq_some_iff.mp hrestore
      obtain ⟨row, hrow, hentry, hpayload⟩ := add_replaced hadd
      rw [sampleValues_list h, Finmap.empty_union] at hpayload
      refine ⟨⟨row, hrow, rowOf hr hentry hpayload⟩, fun other hother => ?_⟩
      cases other with
      | samples => exact absurd rfl hother
      | quality => rfl
  | quality =>
      rw [restoreRecord_quality hr, addQualityEvent] at hrestore
      split_ifs at hrestore with hnull
      obtain ⟨t, hadd, rfl⟩ := Option.map_eq_some_iff.mp hrestore
      obtain ⟨row, hrow, hentry, hpayload⟩ := add_replaced hadd
      rw [qualityValues_list h, Finmap.empty_union] at hpayload
      refine ⟨⟨row, hrow, rowOf hr hentry hpayload⟩, fun other hother => ?_⟩
      cases other with
      | samples => rfl
      | quality => exact absurd rfl hother

end OneRecord

section AllRecords

variable {records : List Record}

theorem restoreAll_append (first second : List Record) (s : Store) :
    restoreAll month s (first ++ second) =
      if (restoreAll month s first).2 = true then restoreAll month (restoreAll month s first).1 second
      else restoreAll month s first := by
  induction first generalizing s with
  | nil => rfl
  | cons r rest ih =>
      rw [List.cons_append, restoreAll, restoreAll]
      split
      · rfl
      · cases restoreRecord month s r with
        | none => rfl
        | some s' => exact ih s'

theorem restoreAll_ok (hvalid : ∀ r ∈ records, validateEnvelope r = true)
    (hcomplete : ∀ r ∈ records, Complete r.recordType r.payload) (s : Store) :
    (restoreAll month s records).2 = true ↔ ∀ r ∈ records, Storable r.recordType r.payload := by
  induction records generalizing s with
  | nil => simp [restoreAll]
  | cons r rest ih =>
      obtain ⟨hvalid, hvalids⟩ := List.forall_mem_cons.mp hvalid
      obtain ⟨hcomplete, hcompletes⟩ := List.forall_mem_cons.mp hcomplete
      have hstorable := restoreRecord_isSome month s hcomplete
      rw [restoreAll, if_neg (by simp [hvalid]), List.forall_mem_cons]
      cases hrestore : restoreRecord month s r with
      | none =>
          have hnot : ¬ Storable r.recordType r.payload := fun h => by simp [hrestore] at hstorable; exact hstorable h
          simp [hnot]
      | some s' =>
          have hone : Storable r.recordType r.payload := hstorable.mp (by rw [hrestore]; rfl)
          rw [ih hvalids hcompletes s']
          simp [hone]

theorem restoreAll_rows (htype : ∀ r ∈ records, r.recordType = type) (hcomplete : ∀ r ∈ records, Complete type r.payload)
    (hids : (records.map Record.recordId).Nodup) (hrestore : restoreAll month s records = (s', true)) :
    (∃ news, (s'.table type).rows =
        (s.table type).rows.filter (fun row => row.recordId ∉ records.map Record.recordId) ++ news ∧
      news.map (Row.record type) = records.map restored ∧ ∀ row ∈ news, row.sourceMonth = month) ∧
      ∀ other, other ≠ type → s'.table other = s.table other := by
  induction records generalizing s with
  | nil =>
      obtain rfl : s = s' := congrArg Prod.fst hrestore
      exact ⟨⟨[], by simp, rfl, by simp⟩, fun _ _ => rfl⟩
  | cons r rest ih =>
      obtain ⟨hr, hrs⟩ := List.forall_mem_cons.mp htype
      obtain ⟨hc, hcs⟩ := List.forall_mem_cons.mp hcomplete
      obtain ⟨hnew, hids⟩ := List.nodup_cons.mp hids
      rw [restoreAll] at hrestore
      split at hrestore
      · cases hrestore
      · cases hone : restoreRecord month s r with
        | none =>
            rw [hone] at hrestore
            cases hrestore
        | some s₁ =>
            rw [hone] at hrestore
            obtain ⟨⟨row, hrow, hmonth, hrecord⟩, hother⟩ := restoreRecord_replaced hr hc hone
            obtain ⟨⟨news, hnews, hrecords, hmonths⟩, hothers⟩ := ih hrs hcs hids hrestore
            have hid : row.recordId = r.recordId := congrArg Record.recordId hrecord
            refine ⟨⟨row :: news, ?_, ?_, ?_⟩, fun other h => (hothers other h).trans (hother other h)⟩
            · have hkept : [row].filter (fun row => row.recordId ∉ rest.map Record.recordId) = [row] := by
                simpa [hid] using hnew
              rw [hnews, hrow, List.filter_append, hkept, List.filter_filter, List.append_assoc]
              refine congrArg (· ++ row :: news) (List.filter_congr fun old _ => ?_)
              simp [hid, Bool.and_comm]
            · rw [List.map_cons, List.map_cons, hrecord, hrecords]
            · exact List.forall_mem_cons.mpr ⟨hmonth, hmonths⟩

end AllRecords

section Fetches

instance : Std.Total Row.before where
  total a b := by
    unfold Row.before
    rcases lt_trichotomy a.occurredAtUtc b.occurredAtUtc with h | h | h
    · exact .inl (.inl h)
    · rcases Nat.le_total a.id b.id with hid | hid
      · exact .inl (.inr ⟨h, hid⟩)
      · exact .inr (.inr ⟨h.symm, hid⟩)
    · exact .inr (.inl h)

instance : IsTrans Row Row.before where
  trans a b c := by
    rintro (hab | ⟨hab, hid⟩) (hbc | ⟨hbc, hid'⟩)
    · exact .inl (hab.trans hbc)
    · exact .inl (hbc ▸ hab)
    · exact .inl (hab ▸ hbc)
    · exact .inr ⟨hab.trans hbc, hid.trans hid'⟩

theorem before_le {a b : Row} (h : Row.before a b) : a.occurredAtUtc ≤ b.occurredAtUtc := by
  rcases h with h | ⟨h, -⟩
  · exact h.le
  · exact h.le

theorem fetch_sorted (t : Table type) (month : String) :
    ((t.fetch month).map Record.occurredAtUtc).Pairwise (· ≤ ·) := by
  rw [Table.fetch, List.map_map]
  exact List.pairwise_map.mpr ((List.pairwise_insertionSort Row.before _).imp before_le)

variable {t : Table type} {old news : List Row}

theorem fetch_news (hrows : t.rows = old ++ news) (hold : ∀ r ∈ old, r.sourceMonth ≠ month)
    (hnews : ∀ r ∈ news, r.sourceMonth = month) (hsorted : (news.map fun r => r.occurredAtUtc).Pairwise (· ≤ ·)) :
    t.fetch month = news.map (Row.record type) := by
  have hmonth : t.ofMonth month = news := by
    rw [Table.ofMonth, hrows, List.filter_append, List.filter_eq_nil_iff.mpr, List.filter_eq_self.mpr, List.nil_append]
    · simpa using hnews
    · simpa using hold
  have hids : news.Pairwise fun a b => a.id < b.id := (List.pairwise_append.mp (hrows ▸ t.ascending)).2.1
  have hbefore : news.Pairwise Row.before := by
    refine (hids.and (List.pairwise_map.mp hsorted)).imp ?_
    rintro a b ⟨hid, hle⟩
    rcases hle.lt_or_eq with h | h
    · exact .inl h
    · exact .inr ⟨h, hid.le⟩
  rw [Table.fetch, hmonth, hbefore.insertionSort_eq]

theorem ofMonth_old (hrows : t.rows = old ++ news) (hnews : ∀ r ∈ news, r.sourceMonth = month) {other : String}
    (hother : other ≠ month) : t.ofMonth other = old.filter fun r => r.sourceMonth = other := by
  have hnone : news.filter (fun r => r.sourceMonth = other) = [] := by
    refine List.filter_eq_nil_iff.mpr fun r hr => ?_
    simpa [hnews r hr] using hother.symm
  rw [Table.ofMonth, hrows, List.filter_append, hnone, List.append_nil]

end Fetches

end EtranProcessing.Archive.Restore
