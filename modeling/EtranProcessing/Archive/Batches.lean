import EtranProcessing.Archive.TelemetryStore

namespace EtranProcessing.Archive.Batches

open TelemetryStore

structure Host where
  digest : List Record → String
  lower : String → String

variable {host : Host}

structure FileEntry where
  path : String
  sha256 : String
  recordCount : Nat
  deriving DecidableEq

inductive BatchState where
  | prepared
  | verified
  | purged
  | failed
  deriving DecidableEq

structure VerificationResult where
  rereadRecordsCount : Nat
  rereadChecksumSha256 : String
  deriving DecidableEq

inductive PurgeStatus where
  | completed
  | pending
  | failed
  deriving DecidableEq

structure PurgeResult where
  purgedRecordsCount : Nat
  purgeStatus : PurgeStatus
  deriving DecidableEq

structure Manifest where
  archiveBatchId : String
  sourceMonth : String
  cursorBounds : Option CursorBounds
  recordCounts : Counts
  files : List FileEntry
  state : BatchState
  verification : Option VerificationResult
  purge : Option PurgeResult
  deriving DecidableEq

/-- A batch directory, with no manifest if there is none or none that can be read. -/
structure Batch where
  files : List (String × List Record)
  checksums : List (String × String)
  manifest : Option Manifest
  deriving DecidableEq

def generateBatchId (host : Host) (sourceMonth : String) (seed : Option String) (uuid : String) : String :=
  let chosen := match seed with
    | some text => if text.isEmpty = true then uuid else text
    | none => uuid
  "arch-media-" ++ sourceMonth ++ "-" ++ host.lower (String.ofList (chosen.toList.take 8))

def samplesPath : String := "samples.jsonl.gz"

def qualityPath : String := "quality.jsonl.gz"

/-- The data files, their checksums and the prepared manifest. -/
def writeBatch (host : Host) (batchId sourceMonth : String) (bounds : Option CursorBounds) (samples quality : List Record) :
    Batch where
  files := [(samplesPath, samples), (qualityPath, quality)]
  checksums := [(samplesPath, host.digest samples), (qualityPath, host.digest quality)]
  manifest := some {
    archiveBatchId := batchId
    sourceMonth := sourceMonth
    cursorBounds := bounds
    recordCounts := ⟨samples.length, quality.length, samples.length + quality.length⟩
    files := [⟨samplesPath, host.digest samples, samples.length⟩, ⟨qualityPath, host.digest quality, quality.length⟩]
    state := .prepared
    verification := none
    purge := none }

/-- The rules of `validate_envelope_dict` that the types do not already give. -/
def validateEnvelope (r : Record) : Bool := ["iot-rpc-rest-app", "l4media", "MenuBuilder"].contains r.sourceProject

inductive GuardError where
  | volumeUnavailable
  | checksumMismatch
  | countMismatch
  | restoreSampleFailed
  | cursorLag
  deriving DecidableEq

def sampleLines (content : List Record) : List Record :=
  (content.zipIdx 1).filterMap fun e => if e.2 ≤ 20 ∨ e.2 % 500 = 0 then some e.1 else none

def verifyFile (host : Host) (batch : Batch) (entry : FileEntry) : Except GuardError (List Record) :=
  match batch.files.lookup entry.path with
  | none => .error .volumeUnavailable
  | some content =>
      if host.digest content ≠ entry.sha256 then .error .checksumMismatch
      else if ∃ sum ∈ batch.checksums.lookup entry.path, sum ≠ host.digest content then .error .checksumMismatch
      else if (sampleLines content).all validateEnvelope = false then .error .restoreSampleFailed
      else if content.length ≠ entry.recordCount then .error .countMismatch
      else .ok content

def verifyBatchIntegrity (host : Host) (batch : Batch) (m : Manifest) : Except GuardError VerificationResult := do
  if m.files = [] then throw .countMismatch
  let contents ← m.files.mapM (verifyFile host batch)
  let reread := (contents.map List.length).sum
  if reread ≠ m.recordCounts.total then throw .countMismatch
  if ∃ b ∈ m.cursorBounds, b.consumersPassedCursor < b.throughCursor then throw .cursorLag
  pure ⟨reread, (contents.head?.map host.digest).getD ""⟩

def readFiles (host : Host) (batch : Batch) (m : Manifest) : Option (List (List Record)) :=
  m.files.mapM fun entry => (batch.files.lookup entry.path).filter fun content => host.digest content = entry.sha256

section Written

variable {batchId sourceMonth : String} {bounds : Option CursorBounds} {samples quality : List Record} {m : Manifest}

theorem readFiles_writeBatch (hm : (writeBatch host batchId sourceMonth bounds samples quality).manifest = some m) :
    readFiles host (writeBatch host batchId sourceMonth bounds samples quality) m = some [samples, quality] := by
  obtain rfl := Option.some.inj hm
  have hne : (qualityPath == samplesPath) = false := by decide
  simp [readFiles, writeBatch, List.lookup, hne, Option.filter_some]

end Written

def restoredRecords (host : Host) (batch : Batch) : Option (List Record) := do
  let m ← batch.manifest
  let contents ← readFiles host batch m
  if contents.flatten.all validateEnvelope = true then some contents.flatten else none

def Record.entry (r : Record) (sourceMonth : String) : Entry where
  recordId := r.recordId
  sessionId := r.sessionId
  occurredAtUtc := r.occurredAtUtc
  sourceMonth := sourceMonth
  sn := r.sn
  tenantId := r.tenantId
  terminalId := r.terminalId
  cursor := r.cursor

def get (payload : Payload) (field : String) (default : Json) : Json := (payload.lookup field).getD default

/-- The additional keys of the payload are not passed on. -/
def restoreRecord (sourceMonth : String) (s : Store) (r : Record) : Option Store :=
  let payload := r.payload
  match r.recordType with
  | .samples =>
      addSample s (Record.entry r sourceMonth) {
        rtpPackets := get payload "rtp_packets" (.int 0)
        rtcpPackets := get payload "rtcp_packets" (.int 0)
        bytesCount := get payload "bytes" (.int 0)
        bitrateKbps := get payload "bitrate_kbps" (.float "0.0")
        packetLossPct := get payload "packet_loss_pct" (.float "0.0")
        jitterMs := get payload "jitter_ms" (.float "0.0")
        rttMs := get payload "rtt_ms" (.float "0.0")
        fps := get payload "fps" (.float "0.0")
        frameWidth := get payload "frame_width" (.int 0)
        frameHeight := get payload "frame_height" (.int 0) } ∅
  | .quality =>
      addQualityEvent s (Record.entry r sourceMonth) {
        eventType := get payload "event_type" (.str "unknown")
        metricValue := get payload "metric_value" (.float "0.0")
        reason := get payload "reason" .null } ∅

/-- Every record is stored on its own, so those before one that fails stay. -/
def restoreAll (sourceMonth : String) : Store → List Record → Store × Bool
  | s, [] => (s, true)
  | s, r :: rest =>
      if validateEnvelope r = false then (s, false)
      else
        match restoreRecord sourceMonth s r with
        | none => (s, false)
        | some s' => restoreAll sourceMonth s' rest

/-- The checksums of all files are compared before the first record is read. -/
def restoreBatch (host : Host) (batch : Batch) (s : Store) : Store × Bool :=
  match batch.manifest with
  | none => (s, false)
  | some m =>
      match readFiles host batch m with
      | none => (s, false)
      | some contents => restoreAll m.sourceMonth s contents.flatten

end EtranProcessing.Archive.Batches
