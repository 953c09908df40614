import Mathlib

namespace EtranProcessing.Archive.TelemetryStore

/-- A JSON value. A list or a dictionary is known by its canonical text, a float by the text it is written as. -/
inductive Json where
  | null
  | bool (b : Bool)
  | int (z : Int)
  | float (text : String)
  | str (s : String)
  | nested (text : String)
  deriving DecidableEq

abbrev Payload := Finmap fun _ : String => Json

def dict (fields : List String) (values : List Json) : Payload :=
  ((fields.zip values).map fun e => (⟨e.1, e.2⟩ : Sigma fun _ : String => Json)).toFinmap

def Json.bindable : Json → Bool
  | .nested _ => false
  | .int z => decide (-(2 ^ 63) ≤ z ∧ z < 2 ^ 63)
  | _ => true

inductive RecordType where
  | samples
  | quality
  deriving DecidableEq

def sampleFields : List String :=
  ["rtp_packets", "rtcp_packets", "bytes", "bitrate_kbps", "packet_loss_pct", "jitter_ms", "rtt_ms", "fps", "frame_width",
    "frame_height"]

def qualityFields : List String := ["event_type", "metric_value", "reason"]

def RecordType.fields : RecordType → List String
  | .samples => sampleFields
  | .quality => qualityFields

/-- The columns that both tables have. -/
structure Entry where
  recordId : String
  sessionId : String
  occurredAtUtc : String
  sourceMonth : String
  sn : Option String
  tenantId : Option Int64
  terminalId : Option Int64
  cursor : Option Int64
  deriving DecidableEq

structure Row extends Entry where
  id : Nat
  columns : List Json
  payload : Payload
  deriving DecidableEq

/-- The rows of a table by their ids, which never come again. -/
structure Table (type : RecordType) where
  rows : List Row
  lastId : Nat
  ascending : rows.Pairwise fun a b => a.id < b.id
  bounded : ∀ r ∈ rows, r.id ≤ lastId
  distinct : (rows.map fun r => r.recordId).Nodup
  complete : ∀ r ∈ rows, ∀ field ∈ type.fields, field ∈ r.payload

variable {type : RecordType}

structure Store where
  samples : Table .samples
  quality : Table .quality

def Table.empty : Table type where
  rows := []
  lastId := 0
  ascending := List.Pairwise.nil
  bounded := by simp
  distinct := List.nodup_nil
  complete := by simp

def Store.empty : Store := ⟨Table.empty, Table.empty⟩

def Store.table (s : Store) : (type : RecordType) → Table type
  | .samples => s.samples
  | .quality => s.quality

def Store.setTable (s : Store) : (type : RecordType) → Table type → Store
  | .samples, t => { s with samples := t }
  | .quality, t => { s with quality := t }

/-- What a file of the archive and a fetch have of a row. -/
structure Record where
  recordType : RecordType
  recordId : String
  occurredAtUtc : String
  sourceProject : String
  cursor : Option Int64
  tenantId : Option Int64
  terminalId : Option Int64
  sn : Option String
  sessionId : String
  payload : Payload
  deriving DecidableEq

def ownerProject : String := "l4media"

def Row.record (type : RecordType) (r : Row) : Record where
  recordType := type
  recordId := r.recordId
  occurredAtUtc := r.occurredAtUtc
  sourceProject := ownerProject
  cursor := r.cursor
  tenantId := r.tenantId
  terminalId := r.terminalId
  sn := r.sn
  sessionId := r.sessionId
  payload := r.payload

def Row.before (a b : Row) : Prop := a.occurredAtUtc < b.occurredAtUtc ∨ a.occurredAtUtc = b.occurredAtUtc ∧ a.id ≤ b.id

instance : DecidableRel Row.before := fun a b =>
  inferInstanceAs (Decidable (a.occurredAtUtc < b.occurredAtUtc ∨ a.occurredAtUtc = b.occurredAtUtc ∧ a.id ≤ b.id))

theorem lookup_dict (fields : List String) (values : List Json) (field : String) :
    (dict fields values).lookup field =
      ((fields.zip values).map fun e => (⟨e.1, e.2⟩ : Sigma fun _ : String => Json)).dlookup field :=
  AList.lookup_to_alist _

theorem mem_dict {fields : List String} {values : List Json} (h : values.length = fields.length) (field : String) :
    field ∈ dict fields values ↔ field ∈ fields := by
  rw [← Finmap.lookup_isSome, lookup_dict, List.dlookup_isSome, List.keys, List.map_map]
  have hkeys : (fields.zip values).map (Sigma.fst ∘ fun e => (⟨e.1, e.2⟩ : Sigma fun _ : String => Json)) = fields :=
    List.map_fst_zip (by omega)
  rw [hkeys]

/-- A row put in place of the one with its record id. -/
def Table.insertOrReplace (t : Table type) (e : Entry) (columns : List Json) (payload : Payload)
    (h : ∀ field ∈ type.fields, field ∈ payload) : Table type where
  rows := t.rows.filter (fun r => r.recordId ≠ e.recordId) ++ [{ e with id := t.lastId + 1, columns, payload }]
  lastId := t.lastId + 1
  ascending := by
    refine List.pairwise_append.mpr ⟨t.ascending.filter _, List.pairwise_singleton _ _, ?_⟩
    rintro a ha b hb
    obtain rfl := List.mem_singleton.mp hb
    exact Nat.lt_succ_of_le (t.bounded a (List.mem_filter.mp ha).1)
  bounded := by
    intro r hr
    rcases List.mem_append.mp hr with hr | hr
    · exact Nat.le_succ_of_le (t.bounded r (List.mem_filter.mp hr).1)
    · obtain rfl := List.mem_singleton.mp hr
      exact Nat.le_refl _
  distinct := by
    rw [List.map_append]
    refine List.Nodup.append ((List.filter_sublist.map _).nodup t.distinct) (List.nodup_singleton _) ?_
    intro id hid hid'
    obtain ⟨r, hr, rfl⟩ := List.mem_map.mp hid
    have hne := (List.mem_filter.mp hr).2
    simp only [List.map_cons, List.map_nil, List.mem_singleton] at hid'
    simp [hid'] at hne
  complete := by
    intro r hr
    rcases List.mem_append.mp hr with hr | hr
    · exact t.complete r (List.mem_filter.mp hr).1
    · obtain rfl := List.mem_singleton.mp hr
      exact h

def Table.add (t : Table type) (e : Entry) (values : List Json) (h : values.length = type.fields.length)
    (extraPayload : Payload) : Option (Table type) :=
  if values.all Json.bindable = true then
    some (t.insertOrReplace e values (extraPayload ∪ dict type.fields values) fun field hfield =>
      Finmap.mem_union.mpr (.inr ((mem_dict h field).mpr hfield)))
  else none

structure SampleValues where
  rtpPackets : Json
  rtcpPackets : Json
  bytesCount : Json
  bitrateKbps : Json
  packetLossPct : Json
  jitterMs : Json
  rttMs : Json
  fps : Json
  frameWidth : Json
  frameHeight : Json
  deriving DecidableEq

def SampleValues.list (v : SampleValues) : List Json :=
  [v.rtpPackets, v.rtcpPackets, v.bytesCount, v.bitrateKbps, v.packetLossPct, v.jitterMs, v.rttMs, v.fps, v.frameWidth,
    v.frameHeight]

def addSample (s : Store) (e : Entry) (v : SampleValues) (extraPayload : Payload) : Option Store :=
  (s.samples.add e v.list rfl extraPayload).map fun t => { s with samples := t }

structure QualityValues where
  eventType : Json
  metricValue : Json
  reason : Json
  deriving DecidableEq

def QualityValues.list (v : QualityValues) : List Json := [v.eventType, v.metricValue, v.reason]

def addQualityEvent (s : Store) (e : Entry) (v : QualityValues) (extraPayload : Payload) : Option Store :=
  if v.eventType = .null then none
  else (s.quality.add e v.list rfl extraPayload).map fun t => { s with quality := t }

def Table.ofMonth (t : Table type) (month : String) : List Row := t.rows.filter fun r => r.sourceMonth = month

/-- `fetch_samples_for_month` and `fetch_quality_events_for_month` differ in their table only. -/
def Table.fetch (t : Table type) (month : String) : List Record :=
  ((t.ofMonth month).insertionSort Row.before).map (Row.record type)

def fetchSamplesForMonth (s : Store) (month : String) : List Record := s.samples.fetch month

def fetchQualityEventsForMonth (s : Store) (month : String) : List Record := s.quality.fetch month

def monthRecords (t : Table type) (month : String) : List Record := (t.ofMonth month).map (Row.record type)

theorem fetch_perm (t : Table type) (month : String) : (t.fetch month).Perm (monthRecords t month) :=
  (List.perm_insertionSort _ _).map _

/-- The rows without those that a chunk has selected. -/
def Table.delete (t : Table type) (ids : List Nat) : Table type where
  rows := t.rows.filter fun r => r.id ∉ ids
  lastId := t.lastId
  ascending := t.ascending.filter _
  bounded := fun r hr => t.bounded r (List.mem_filter.mp hr).1
  distinct := (List.filter_sublist.map _).nodup t.distinct
  complete := fun r hr => t.complete r (List.mem_filter.mp hr).1

theorem ids_nodup (t : Table type) : (t.rows.map fun r => r.id).Nodup :=
  List.pairwise_map.mpr (t.ascending.imp fun h => Nat.ne_of_lt h)

theorem eq_of_id {t : Table type} {a b : Row} (ha : a ∈ t.rows) (hb : b ∈ t.rows) (h : a.id = b.id) : a = b :=
  List.inj_on_of_nodup_map (ids_nodup t) ha hb h

theorem table_setTable (s : Store) (t : Table type) : (s.setTable type t).table type = t := by
  cases type <;> rfl

theorem table_setTable_ne (s : Store) {type' : RecordType} (t : Table type) (h : type' ≠ type) :
    (s.setTable type t).table type' = s.table type' := by
  cases type <;> cases type' <;> first | rfl | exact absurd rfl h

structure Counts where
  samples : Nat
  quality : Nat
  total : Nat
  deriving DecidableEq

def getCountsForMonth (s : Store) (month : String) : Counts :=
  let c1 := (s.samples.ofMonth month).length
  let c2 := (s.quality.ofMonth month).length
  ⟨c1, c2, c1 + c2⟩

structure CursorBounds where
  minCursor : Int64
  maxCursor : Int64
  throughCursor : Int64
  consumersPassedCursor : Int64
  deriving DecidableEq

def getCursorBoundsForMonth (s : Store) (month : String) : Option CursorBounds :=
  let cursors := (s.samples.ofMonth month).filterMap (fun r => r.cursor) ++
    (s.quality.ofMonth month).filterMap fun r => r.cursor
  match cursors with
  | [] => none
  | c :: rest =>
      let highest := rest.foldl (fun a b => if a < b then b else a) c
      some ⟨rest.foldl (fun a b => if b < a then b else a) c, highest, highest, highest⟩

end EtranProcessing.Archive.TelemetryStore
