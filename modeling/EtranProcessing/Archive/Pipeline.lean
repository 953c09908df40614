import EtranProcessing.Archive.Batches
import EtranProcessing.Library.Runs

namespace EtranProcessing.Archive.Pipeline

open TelemetryStore Batches

/-- The arguments of `run_archive`, and the random text from which it may make its batch id. -/
structure Call where
  month : String
  seed : Option String
  uuid : String
  dryRun : Bool
  purge : Bool
  deriving DecidableEq

def Call.purges (c : Call) : Bool := !c.dryRun && c.purge

def Call.batchId (host : Host) (c : Call) : String := generateBatchId host c.month c.seed c.uuid

def Call.destination (host : Host) (c : Call) : String :=
  String.ofList (c.month.toList.take 4) ++ "/" ++ String.ofList (c.month.toList.drop 5) ++ "/l4media/" ++ c.batchId host

abbrev Volume := Finmap fun _ : String => Batch

def Volume.setManifest (v : Volume) (destination : String) (m : Option Manifest) : Volume :=
  match v.lookup destination with
  | some batch => v.insert destination { batch with manifest := m }
  | none => v

theorem lookup_setManifest (v : Volume) (destination : String) (m : Option Manifest) :
    (Volume.setManifest v destination m).lookup destination =
      (v.lookup destination).map fun batch => { batch with manifest := m } := by
  unfold Volume.setManifest
  split
  · next batch h => rw [Finmap.lookup_insert, h, Option.map_some]
  · next h => rw [h, Option.map_none]

theorem lookup_setManifest_ne (v : Volume) {destination other : String} (m : Option Manifest) (h : other ≠ destination) :
    (Volume.setManifest v destination m).lookup other = v.lookup other := by
  unfold Volume.setManifest
  split
  · rw [Finmap.lookup_insert_of_ne _ h]
  · rfl

/-- What a run knows after its counts. -/
structure Context where
  call : Call
  counts : Counts
  bounds : Option CursorBounds
  deriving DecidableEq

/-- How far a run has come. -/
inductive Phase where
  | idle
  | started (c : Call)
  | counted (c : Call) (counts : Counts)
  | opened (x : Context)
  | sampled (x : Context) (samples : List Record)
  | fetched (x : Context) (samples quality : List Record)
  | written (x : Context) (batch : Batch) (m : Manifest)
  | checked (x : Context) (batch : Batch) (m : Manifest)
  | cleared (x : Context) (batch : Batch) (m : Manifest)
  | promoted (x : Context) (m : Manifest)
  | recorded (x : Context) (m : Manifest)
  | purging (x : Context) (m : Manifest) (type : RecordType) (purged : Nat)
  | chunk (x : Context) (m : Manifest) (type : RecordType) (purged : Nat) (ids : List Nat)
  | purged (x : Context) (m : Manifest) (purged : Nat)
  | failing (x : Context)
  | finished (m : Manifest)
  | failed
  deriving DecidableEq

structure State where
  store : Store
  volume : Volume
  phase : Phase
  -- what the last run has deleted
  deleted : List Record

inductive Event where
  | start (c : Call)
  | addSample (e : Entry) (v : SampleValues) (extraPayload : Payload)
  | addQualityEvent (e : Entry) (v : QualityValues) (extraPayload : Payload)
  -- the next step of the run, with the ids that a chunk selects
  | next (ids : List Nat)
  -- an exception in the next step, which may have done half of its work on the volume
  | raises (halfway : Bool)

def chunkSize : Nat := 1000

def ChunkOf {type : RecordType} (t : Table type) (month : String) (ids : List Nat) : Prop :=
  ids.Nodup ∧ ids.length = min chunkSize (t.ofMonth month).length ∧ ∀ id ∈ ids, id ∈ (t.ofMonth month).map fun r => r.id

instance {type : RecordType} (t : Table type) (month : String) (ids : List Nat) : Decidable (ChunkOf t month ids) :=
  inferInstanceAs (Decidable (_ ∧ _ ∧ _))

section Chunks

variable {type : RecordType} {t : Table type} {month : String} {ids : List Nat}

def Present (t : Table type) (month : String) (ids : List Nat) : Prop :=
  ids.Nodup ∧ ∀ id ∈ ids, id ∈ (t.ofMonth month).map fun r => r.id

theorem Present.ofMonth (h : Present t month ids) {r : Row} (hr : r ∈ t.rows) (hid : r.id ∈ ids) :
    r ∈ t.ofMonth month := by
  obtain ⟨r', hr', hsame⟩ := List.mem_map.mp (h.2 r.id hid)
  exact eq_of_id (List.mem_filter.mp hr').1 hr hsame ▸ hr'

theorem Present.length (h : Present t month ids) :
    (t.rows.filter fun r => r.id ∈ ids).length = ids.length := by
  have hperm : ((t.rows.filter fun r => r.id ∈ ids).map fun r => r.id).Perm ids := by
    refine (List.perm_ext_iff_of_nodup ((List.filter_sublist.map _).nodup (ids_nodup t)) h.1).mpr fun id => ?_
    constructor
    · intro hid
      obtain ⟨r, hr, rfl⟩ := List.mem_map.mp hid
      simpa using (List.mem_filter.mp hr).2
    · intro hid
      obtain ⟨r, hr, rfl⟩ := List.mem_map.mp (h.2 id hid)
      exact List.mem_map.mpr ⟨r, List.mem_filter.mpr ⟨(List.mem_filter.mp hr).1, by simpa using hid⟩, rfl⟩
  simpa using hperm.length_eq

theorem delete_perm (h : Present t month ids) :
    (monthRecords (t.delete ids) month ++ (t.rows.filter fun r => r.id ∈ ids).map (Row.record type)).Perm
      (monthRecords t month) := by
  have hgone : (t.rows.filter fun r => r.id ∈ ids) = (t.ofMonth month).filter fun r => r.id ∈ ids := by
    rw [Table.ofMonth, List.filter_filter]
    refine List.filter_congr fun r hr => ?_
    by_cases hid : r.id ∈ ids
    · have hmonth := (List.mem_filter.mp (h.ofMonth hr hid)).2
      simp [hid, of_decide_eq_true hmonth]
    · simp [hid]
  have hleft : (t.delete ids).ofMonth month = (t.ofMonth month).filter fun r => !decide (r.id ∈ ids) := by
    rw [Table.ofMonth, Table.ofMonth, Table.delete, List.filter_filter, List.filter_filter]
    exact List.filter_congr fun r _ => by simp [Bool.and_comm]
  rw [monthRecords, monthRecords, hgone, hleft, ← List.map_append]
  exact (List.perm_append_comm.trans (List.filter_append_perm _ _)).map _

end Chunks

def failedManifest (host : Host) (x : Context) : Manifest where
  archiveBatchId := x.call.batchId host
  sourceMonth := x.call.month
  cursorBounds := x.bounds
  recordCounts := x.counts
  files := []
  state := .failed
  verification := none
  purge := some ⟨0, .failed⟩

def next (host : Host) (s : State) (ids : List Nat) : State :=
  match s.phase with
  | .idle => s
  | .started c => { s with phase := .counted c (getCountsForMonth s.store c.month) }
  | .counted c counts => { s with phase := .opened ⟨c, counts, getCursorBoundsForMonth s.store c.month⟩ }
  | .opened x => { s with phase := .sampled x (fetchSamplesForMonth s.store x.call.month) }
  | .sampled x samples => { s with phase := .fetched x samples (fetchQualityEventsForMonth s.store x.call.month) }
  | .fetched x samples quality =>
      let batch := writeBatch host (x.call.batchId host) x.call.month x.bounds samples quality
      match batch.manifest with
      | some m => { s with phase := .written x batch m }
      | none => { s with phase := .failing x }
  | .written x batch m =>
      match verifyBatchIntegrity host batch m with
      | .ok v => { s with phase := .checked x batch { m with verification := some v, state := .verified } }
      | .error _ => { s with phase := .failing x }
  | .checked x batch m => { s with volume := s.volume.erase (x.call.destination host), phase := .cleared x batch m }
  | .cleared x batch m => { s with volume := s.volume.insert (x.call.destination host) batch, phase := .promoted x m }
  | .promoted x m =>
      { s with volume := Volume.setManifest s.volume (x.call.destination host) (some m), phase := .recorded x m }
  | .recorded x m =>
      -- the active streams are checked once more before a purge
      if x.call.purges = true then { s with phase := .purging x m .samples 0 }
      else
        let m' := { m with purge := some ⟨0, .pending⟩ }
        { s with volume := Volume.setManifest s.volume (x.call.destination host) (some m'), phase := .finished m' }
  | .purging x m type purged =>
      if (s.store.table type).ofMonth x.call.month = [] then
        match type with
        | .samples => { s with phase := .purging x m .quality purged }
        | .quality => { s with phase := .purged x m purged }
      else if ChunkOf (s.store.table type) x.call.month ids then { s with phase := .chunk x m type purged ids }
      else s
  | .chunk x m type purged ids =>
      let t := s.store.table type
      { s with
        store := s.store.setTable type (t.delete ids)
        deleted := s.deleted ++ (t.rows.filter fun r => r.id ∈ ids).map (Row.record type)
        phase := .purging x m type (purged + ids.length) }
  | .purged x m purged =>
      let m' := { m with state := .purged, purge := some ⟨purged, .completed⟩ }
      { s with volume := Volume.setManifest s.volume (x.call.destination host) (some m'), phase := .finished m' }
  | .failing x =>
      { s with
        volume := Volume.setManifest s.volume (x.call.destination host) (some (failedManifest host x))
        phase := .failed }
  | .finished _ => s
  | .failed => s

def spoilt (host : Host) (s : State) (x : Context) (halfway : Bool) : Volume :=
  if halfway = true then Volume.setManifest s.volume (x.call.destination host) none else s.volume

def raises (host : Host) (s : State) (halfway : Bool) : State :=
  match s.phase with
  | .idle | .finished _ | .failed => s
  -- before the `try` of the run
  | .started _ | .counted _ _ => { s with phase := .failed }
  | .opened x | .sampled x _ | .fetched x _ _ | .written x _ _ | .cleared x _ _ | .purging x _ _ _ | .chunk x _ _ _ _ =>
      { s with phase := .failing x }
  | .checked x _ _ =>
      match halfway, s.volume.lookup (x.call.destination host) with
      | true, some _ => { s with volume := s.volume.insert (x.call.destination host) ⟨[], [], none⟩, phase := .failing x }
      | _, _ => { s with phase := .failing x }
  | .recorded x _ =>
      if x.call.purges = true then { s with phase := .failing x }
      else { s with volume := spoilt host s x halfway, phase := .failing x }
  | .promoted x _ | .purged x _ _ => { s with volume := spoilt host s x halfway, phase := .failing x }
  | .failing x => { s with volume := spoilt host s x halfway, phase := .failed }

def Phase.free : Phase → Bool
  | .idle | .finished _ | .failed => true
  | _ => false

def step (host : Host) (s : State) : Event → State
  | .start c => if s.phase.free = true then { s with phase := .started c, deleted := [] } else s
  | .addSample e v extraPayload => { s with store := (addSample s.store e v extraPayload).getD s.store }
  | .addQualityEvent e v extraPayload => { s with store := (addQualityEvent s.store e v extraPayload).getD s.store }
  | .next ids => next host s ids
  | .raises halfway => raises host s halfway

section Samples

def plainHost : Host := ⟨fun _ => "", id⟩

def january : Call := ⟨"2025-01", none, "a", false, true⟩

def reading (recordId : String) : Entry := ⟨recordId, "s", "2025-01-31", "2025-01", none, none, none, none⟩

def zeros : SampleValues := ⟨.int 0, .int 0, .int 0, .int 0, .int 0, .int 0, .int 0, .int 0, .int 0, .int 0⟩

def oneSample : State := step plainHost ⟨Store.empty, ∅, .idle, []⟩ (.addSample (reading "r") zeros ∅)

def quiet (n : Nat) : List Event := List.replicate n (.next [])

end Samples

end EtranProcessing.Archive.Pipeline
