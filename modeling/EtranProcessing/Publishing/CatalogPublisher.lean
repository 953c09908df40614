import EtranProcessing.Library.Interruption
import EtranProcessing.Publishing.Documents

namespace EtranProcessing.Publishing.CatalogPublisher

open Library.Calls Library.Interruption Documents

def ttl : Nat := 7 * 86400

inductive Kind where
  | publication
  | promotion
  deriving Repr, DecidableEq

structure ReportRef (Digest : Type) where
  path : Text
  sha256 : Digest
  signatureSha256 : Digest
  deriving DecidableEq

structure Checkpoint (Digest : Type) where
  gitSha : Text
  clean : Bool
  inputsSha256 : Digest
  deriving DecidableEq

structure Plan (Digest : Type) where
  schema : Nat
  kind : Kind
  keyId : Digest
  baseRevision : Nat
  baseSha256 : Option Digest
  baseSignatureSha256 : Option Digest
  reports : List (ReportRef Digest)
  catalog : Catalog Digest
  sourceCheckpoint : Checkpoint Digest
  deriving DecidableEq

structure Pending (Digest : Type) where
  revision : Nat
  sha256 : Digest
  planSha256 : Digest
  deriving DecidableEq

structure Floor (Digest : Type) where
  schema : Nat
  keyId : Digest
  revision : Nat
  sha256 : Option Digest
  time : Nat
  pending : Option (Pending Digest)
  deriving DecidableEq

structure Reservation (Digest : Type) where
  schema : Nat
  keyId : Digest
  revision : Nat
  catalogSha256 : Digest
  planSha256 : Digest

structure TrialPlan (Digest : Type) where
  schema : Nat
  kind : Text
  keyId : Digest
  catalog : Catalog Digest

/-- The files of a private trial: each document with its signature. -/
structure Trial (Bytes : Type) where
  plan : Bytes
  planSig : Bytes
  catalog : Bytes
  catalogSig : Bytes

structure Released (Digest : Type) where
  x86 : Endpoint Digest
  x64 : Endpoint Digest

def Released.on (released : Released Digest) : Arch → Endpoint Digest
  | .x86 => released.x86
  | .x64 => released.x64

/-- What the publisher takes from its libraries: hashes, signatures under its one key, and JSON. The readers give
nothing where the text has another shape or a field twice. -/
structure Libraries (Bytes Digest : Type) where
  size : Bytes → Nat
  digest : Bytes → Digest
  keyId : Digest
  verify : Bytes → Bytes → Bool
  sign : Bytes → Bytes
  dumps : Catalog Digest → Bytes
  loads : Bytes → Option (Catalog Digest)
  report : Bytes → Option (Report Digest)
  trialPlan : Bytes → Option (TrialPlan Digest)
  canonical : Plan Digest → Bytes

structure Documented {Bytes Digest : Type} (L : Libraries Bytes Digest) : Prop where
  loads_dumps : ∀ c, L.loads (L.dumps c) = some c
  size_dumps : ∀ c keyId, wellFormed c keyId → 0 < L.size (L.dumps c) ∧ L.size (L.dumps c) ≤ 65535
  size_sign : ∀ data, 0 < L.size (L.sign data) ∧ L.size (L.sign data) ≤ 384
  canonical_inj : ∀ p p', L.canonical p = L.canonical p' → p = p'

/-- One run of `publish`: the plan file, the clock, and what the run reads around it. The evidence and the source are
read a second time later in the run. -/
structure Run (Bytes Digest : Type) where
  plan : Option (Plan Digest)
  now : Nat
  evidence : Text → Option (Bytes × Bytes)
  evidenceLater : Text → Option (Bytes × Bytes)
  resolve : Text → Text
  published : Text → Option (Released Digest)
  reservation : Option (Option (Reservation Digest))
  trial : Nat → Option (Trial Bytes)
  checkpoint : Option (Checkpoint Digest)
  checkpointLater : Option (Checkpoint Digest)

/-- The paths of the registry that are written: the fixed pair, its archive under each revision, and the evidence
under its checksum. -/
inductive Artifact (Digest : Type) where
  | current
  | currentSig
  | archive (revision : Nat)
  | archiveSig (revision : Nat)
  | evidence (sha256 : Digest)
  | evidenceSig (sha256 : Digest)
  deriving DecidableEq

/-- The names in `revision-N`. -/
inductive Staged where
  | catalog
  | catalogSig
  | base
  | baseSig
  deriving Repr, DecidableEq

structure Site (Bytes Digest : Type) where
  remote : Artifact Digest → Option Bytes
  floorFile : Option (Floor Digest)
  directory : Nat → Bool
  saved : Nat → Staged → Option Bytes
  uploads : List (Artifact Digest × Bytes)

abbrev Pair (Bytes : Type) := Option Bytes × Option Bytes

structure Summary (Digest : Type) where
  revision : Nat
  catalogSha256 : Digest
  stable : Option Text
  deriving DecidableEq

section Publisher

variable {Bytes Digest : Type} [DecidableEq Bytes] [DecidableEq Digest] (L : Libraries Bytes Digest)

/-- What `_file` asks of a file. -/
def fits (data : Bytes) (limit : Nat) : Prop := 0 < L.size data ∧ L.size data ≤ limit

instance (data : Bytes) (limit : Nat) : Decidable (fits L data limit) := inferInstanceAs (Decidable (_ ∧ _))

section Building

def readReport (files : Text → Option (Bytes × Bytes)) (path : Text) : Option (Bytes × Bytes) := do
  let (data, signature) ← files path
  guard (fits L data 65535 ∧ fits L signature 384)
  pure (data, signature)

def reservedRevision (r : Run Bytes Digest) : Option Nat :=
  match r.reservation with
  | none => some 0
  | some file => do
      let value ← file
      guard (value.schema = 1 ∧ value.keyId = L.keyId ∧ uint value.revision (2 ^ 64 - 1))
      let trial ← r.trial value.revision
      guard (fits L trial.plan 65535 ∧ fits L trial.planSig 384 ∧ fits L trial.catalog 65535 ∧ fits L trial.catalogSig 384)
      guard (L.verify trial.plan trial.planSig = true ∧ L.verify trial.catalog trial.catalogSig = true)
      guard (L.digest trial.plan = value.planSha256 ∧ L.digest trial.catalog = value.catalogSha256)
      let plan ← L.trialPlan trial.plan
      let catalog ← L.loads trial.catalog
      guard (plan.schema = 1 ∧ plan.kind = "l4tools-local-acceptance".toList ∧ plan.keyId = L.keyId ∧
        plan.catalog = catalog)
      guard (validateCatalog catalog L.keyId catalog.issuedAt)
      guard (catalog.revision = value.revision)
      pure value.revision

/-- The base of a publication is read as ancestry: it may have expired. -/
def catalogOf (pair : Pair Bytes) (now : Nat) : Option (Option (Catalog Digest)) :=
  match pair with
  | (none, none) => some none
  | (some data, some signature) => do
      guard (L.verify data signature = true)
      let value ← L.loads data
      guard (uint value.issuedAt maxTime ∧ value.issuedAt ≤ now)
      guard (validateCatalog value L.keyId value.issuedAt)
      pure (some value)
  | _ => none

structure Gathering (Digest : Type) where
  endpoints : List (Text × Released Digest)
  reports : List (ReportRef Digest)
  transitions : List (Transition Digest)
  releasePair : Option (Text × Text)
  seen : List (Arch × Text)

def enter (r : Run Bytes Digest) (endpoints : List (Text × Released Digest)) (version : Text) :
    Option (List (Text × Released Digest)) :=
  match endpoints.lookup version with
  | some _ => some endpoints
  | none => do
      let released ← r.published version
      pure (endpoints ++ [(version, released)])

/-- The round of the loop over the evidence. -/
def admitReport (r : Run Bytes Digest) (now : Nat) (g : Gathering Digest) (path : Text) : Option (Gathering Digest) := do
  let (data, signature) ← readReport L r.evidence path
  guard (L.verify data signature = true)
  let report ← L.report data
  guard (versionValue report.source.version = true ∧ versionValue report.target.version = true)
  guard (∀ pair ∈ g.releasePair, pair = (report.source.version, report.target.version))
  let endpoints ← enter r g.endpoints report.source.version
  let endpoints ← enter r endpoints report.target.version
  let source ← endpoints.lookup report.source.version
  let target ← endpoints.lookup report.target.version
  let transition ← validateAcceptance report L.keyId (source.on report.arch) (target.on report.arch) now (L.digest data)
  guard ((transition.arch, transition.profile) ∉ g.seen)
  pure {
    endpoints := endpoints
    reports := g.reports ++ [⟨r.resolve path, L.digest data, L.digest signature⟩]
    transitions := g.transitions ++ [transition]
    releasePair := some (report.source.version, report.target.version)
    seen := g.seen ++ [(transition.arch, transition.profile)] }

def admitRelease (releases : List (Release Digest)) (entry : Text × Released Digest) : Option (List (Release Digest)) :=
  match releases.find? (·.version = entry.1) with
  | some release => do
      guard (release.manifestSha256 = entry.2.x86.rootSha256)
      pure releases
  | none => some (releases ++ [⟨entry.1, entry.2.x86.rootSha256, false⟩])

def admitTransition (promote : Bool) (releases : List (Release Digest)) (edges : List (Transition Digest))
    (t : Transition Digest) : Option (List (Transition Digest)) := do
  let target ← releases.find? (·.version = t.target)
  guard (target.revoked = false)
  match edges.filter (·.identity = t.identity) with
  | [] => do
      guard (promote = false)
      pure (edges ++ [t])
  | existing => do
      guard (promote = true ∧ existing = [t])
      pure edges

def stableOf (promote : Bool) (base : Option (Catalog Digest)) (releasePair : Option (Text × Text)) :
    Option (Option Text) :=
  match promote, base, releasePair with
  | true, some b, some pair => do
      guard (some pair.2 ≠ b.stable)
      pure (some pair.2)
  | true, _, _ => none
  | false, some b, _ => some b.stable
  | false, none, _ => some none

def sortedReleases (releases : List (Release Digest)) : List (Release Digest) :=
  releases.insertionSort (fun a b => a.version ≤ b.version)

def sortedTransitions (edges : List (Transition Digest)) : List (Transition Digest) :=
  edges.insertionSort fun a b =>
    [a.source, a.target, archText a.arch, a.profile] ≤ [b.source, b.target, archText b.arch, b.profile]

def revisionOf (base : Option (Catalog Digest)) : Nat := base.elim 0 (·.revision)

def build (r : Run Bytes Digest) (evidence : List Text) (base : Option (Catalog Digest)) (pair : Pair Bytes)
    (issued now : Nat) (promote : Bool) : Option (Plan Digest) := do
  guard (1 ≤ evidence.length ∧ evidence.length ≤ 2)
  let g ← evidence.foldlM (admitReport L r now) ⟨[], [], [], none, []⟩
  let releases ← g.endpoints.foldlM admitRelease (base.elim [] (·.releases))
  let edges ← g.transitions.foldlM (admitTransition promote releases) (base.elim [] (·.transitions))
  let stable ← stableOf promote base g.releasePair
  let reserved ← reservedRevision L r
  let document : Catalog Digest := {
    schema := 1
    keyId := L.keyId
    revision := max (revisionOf base) reserved + 1
    issuedAt := issued
    expiresAt := issued + ttl
    stable := stable
    releases := sortedReleases releases
    transitions := sortedTransitions edges }
  guard (validateCatalog document L.keyId now)
  let checkpoint ← r.checkpoint
  pure {
    schema := 1
    kind := if promote then .promotion else .publication
    keyId := L.keyId
    baseRevision := revisionOf base
    baseSha256 := pair.1.map L.digest
    baseSignatureSha256 := pair.2.map L.digest
    reports := g.reports
    catalog := document
    sourceCheckpoint := checkpoint }

end Building

section Storage

def floorValid (floor : Floor Digest) : Prop :=
  (floor.schema = 1 ∧ floor.keyId = L.keyId) ∧ floor.revision < 2 ^ 64 ∧ floor.time ≤ maxTime ∧
    (floor.revision ≠ 0 → floor.sha256 ≠ none ∧ 0 < floor.time) ∧
    (floor.revision = 0 → floor.sha256 = none ∧ floor.time = 0) ∧
    ∀ pending ∈ floor.pending, uint pending.revision (2 ^ 64 - 1) ∧ floor.revision < pending.revision

instance (floor : Floor Digest) : Decidable (floorValid L floor) := inferInstanceAs (Decidable (_ ∧ _))

def initialFloor : Floor Digest := ⟨1, L.keyId, 0, none, 0, none⟩

/-- `_floor` -/
def readFloor : Call (Cuttable (Site Bytes Digest)) (Floor Digest) := do
  mayRaise
  let s ← look
  match s.floorFile with
  | none => pure (initialFloor L)
  | some floor => do
      check (floorValid L floor)
      pure floor

/-- `_get`: nothing where the registry answers 404. -/
def get (artifact : Artifact Digest) (limit : Nat) : Call (Cuttable (Site Bytes Digest)) (Option Bytes) := do
  mayRaise
  let s ← look
  match s.remote artifact with
  | none => pure none
  | some data => do
      check (fits L data limit)
      pure (some data)

def Site.put (s : Site Bytes Digest) (artifact : Artifact Digest) (data : Bytes) : Site Bytes Digest :=
  { s with
    remote := Function.update s.remote artifact (some data)
    uploads := s.uploads ++ [(artifact, data)] }

def upload (artifact : Artifact Digest) (data : Bytes) : Call (Cuttable (Site Bytes Digest)) Unit :=
  write (·.put artifact data)

def immutable (artifact : Artifact Digest) (data : Bytes) : Call (Cuttable (Site Bytes Digest)) Unit := do
  match ← get L artifact (L.size data) with
  | none => upload artifact data
  | some previous => check (previous = data)
  let fetched ← get L artifact (L.size data)
  check (fetched = some data)

def fixedPair : Call (Cuttable (Site Bytes Digest)) (Pair Bytes) := do
  let data ← get L .current 65535
  let signature ← get L .currentSig 384
  pure (data, signature)

def readSaved (revision : Nat) (name : Staged) (limit : Nat) : Call (Cuttable (Site Bytes Digest)) Bytes := do
  mayRaise
  let s ← look
  let data ← found (s.saved revision name)
  check (fits L data limit)
  pure data

/-- `protect_state` of a file in `revision-N`. -/
def protect (revision : Nat) (name : Staged) : Call (Cuttable (Site Bytes Digest)) Unit := do
  mayRaise
  let s ← look
  check ((s.saved revision name).isSome = true)

def protectDirectory (revision : Nat) : Call (Cuttable (Site Bytes Digest)) Unit := do
  mayRaise
  let s ← look
  check (s.directory revision = true)

def Site.save (s : Site Bytes Digest) (revision : Nat) (name : Staged) (data : Bytes) : Site Bytes Digest :=
  { s with saved := Function.update s.saved revision (Function.update (s.saved revision) name (some data)) }

/-- The round of the loop over the four files. -/
def stage (revision : Nat) (entry : Staged × Option Bytes) : Call (Cuttable (Site Bytes Digest)) Unit := do
  match entry.2 with
  | none => pure ()
  | some value => do
      let s ← look
      match s.saved revision entry.1 with
      | some _ => do
          protect revision entry.1
          let data ← readSaved L revision entry.1 (L.size value)
          check (data = value)
      | none => do
          write (·.save revision entry.1 value)
          mayRaise

def Site.setFloor (s : Site Bytes Digest) (floor : Floor Digest) : Site Bytes Digest := { s with floorFile := some floor }

def writeFloor (floor : Floor Digest) : Call (Cuttable (Site Bytes Digest)) Unit := do
  write (·.setFloor floor)
  mayRaise

end Storage

section Publishing

/-- `_base` -/
def baseOf (floor : Floor Digest) (now : Nat) :
    Call (Cuttable (Site Bytes Digest)) (Option (Catalog Digest) × Pair Bytes) := do
  check (floor.pending = none)
  let pair ← fixedPair L
  let catalog ← found (catalogOf L pair now)
  check (floor.time ≤ now)
  match catalog with
  | none => check (floor.revision = 0)
  | some base =>
      check (floor.revision ≤ base.revision ∧ (base.revision = floor.revision → pair.1.map L.digest = floor.sha256))
  pure (catalog, pair)

/-- The base of a pending plan, from the copies that were saved with it. -/
def savedBase (reviewed : Plan Digest) (pending : Pending Digest) (now : Nat) :
    Call (Cuttable (Site Bytes Digest)) (Option (Catalog Digest) × Pair Bytes) := do
  check (pending.planSha256 = L.digest (L.canonical reviewed) ∧ pending.revision = reviewed.catalog.revision)
  protectDirectory pending.revision
  protect pending.revision .catalog
  protect pending.revision .catalogSig
  if reviewed.baseRevision = 0 then do
    let base ← found (catalogOf L (none, none) now)
    pure (base, (none, none))
  else do
    protect pending.revision .base
    protect pending.revision .baseSig
    let baseBytes ← readSaved L pending.revision .base 65535
    let baseSig ← readSaved L pending.revision .baseSig 384
    let base ← found (catalogOf L (some baseBytes, some baseSig) now)
    pure (base, (some baseBytes, some baseSig))

def ancestry (reviewed : Plan Digest) (floor : Floor Digest) (now : Nat) :
    Call (Cuttable (Site Bytes Digest)) (Option (Catalog Digest) × Pair Bytes) :=
  match floor.pending with
  | some pending => savedBase L reviewed pending now
  | none => baseOf L floor now

def Mixture (seen old new : Pair Bytes) : Prop := (seen.1 = old.1 ∨ seen.1 = new.1) ∧ (seen.2 = old.2 ∨ seen.2 = new.2)

instance (seen old new : Pair Bytes) : Decidable (Mixture seen old new) := inferInstanceAs (Decidable (_ ∧ _))

def checkFixed (floor : Floor Digest) (pair : Pair Bytes) (data signature : Bytes) :
    Call (Cuttable (Site Bytes Digest)) Unit := do
  let seen ← fixedPair L
  match floor.pending with
  | some pending => check (L.digest data = pending.sha256 ∧ Mixture seen pair (some data, some signature))
  | none => check (seen = pair)

def archiveReport (r : Run Bytes Digest) (item : ReportRef Digest) : Call (Cuttable (Site Bytes Digest)) Unit := do
  let (reportData, reportSig) ← found (readReport L r.evidenceLater item.path)
  check (L.digest reportData = item.sha256 ∧ L.digest reportSig = item.signatureSha256)
  immutable L (.evidence item.sha256) reportData
  immutable L (.evidenceSig item.sha256) reportSig

def pendingFloor (actual : Plan Digest) (now : Nat) (data : Bytes) (checksum : Digest) : Floor Digest where
  schema := 1
  keyId := L.keyId
  revision := actual.baseRevision
  sha256 := actual.baseSha256
  time := if actual.baseRevision = 0 then 0 else now
  pending := some ⟨actual.catalog.revision, L.digest data, checksum⟩

def beginPending (actual : Plan Digest) (pair : Pair Bytes) (now : Nat) (data signature : Bytes) (checksum : Digest) :
    Call (Cuttable (Site Bytes Digest)) Unit := do
  write fun s => { s with directory := Function.update s.directory actual.catalog.revision true }
  protectDirectory actual.catalog.revision
  [(Staged.catalog, some data), (.catalogSig, some signature), (.base, pair.1), (.baseSig, pair.2)].forM
    (stage L actual.catalog.revision)
  writeFloor (pendingFloor L actual now data checksum)

def checkStaged (revision : Nat) (data signature : Bytes) : Call (Cuttable (Site Bytes Digest)) Unit := do
  let savedData ← readSaved L revision .catalog 65535
  let savedSig ← readSaved L revision .catalogSig 384
  check (savedData = data ∧ savedSig = signature)

def replace (artifact : Artifact Digest) (wanted : Bytes) (existing : Option Bytes) :
    Call (Cuttable (Site Bytes Digest)) Unit :=
  if existing = some wanted then pure () else upload artifact wanted

def publishedFloor (revision now : Nat) (data : Bytes) : Floor Digest where
  schema := 1
  keyId := L.keyId
  revision := revision
  sha256 := some (L.digest data)
  time := now
  pending := none

/-- The fixed pair is looked at again right before it is written, and once more after. -/
def replaceFixed (r : Run Bytes Digest) (actual : Plan Digest) (pair : Pair Bytes) (data signature : Bytes) :
    Call (Cuttable (Site Bytes Digest)) Unit := do
  let observed ← fixedPair L
  check (Mixture observed pair (some data, some signature))
  check (r.checkpointLater = some actual.sourceCheckpoint)
  replace .current data observed.1
  replace .currentSig signature observed.2
  let final ← fixedPair L
  check (final = (some data, some signature))

def reviewable (r : Run Bytes Digest) (reviewed : Plan Digest) : Prop :=
  (reviewed.schema = 1 ∧ reviewed.keyId = L.keyId) ∧ reviewed.reports ≠ [] ∧ (∀ item ∈ reviewed.reports, item.path ≠ []) ∧
    uint reviewed.catalog.issuedAt maxTime ∧ reviewed.catalog.issuedAt ≤ r.now

instance (r : Run Bytes Digest) (reviewed : Plan Digest) : Decidable (reviewable L r reviewed) :=
  inferInstanceAs (Decidable (_ ∧ _))

def rebuild (r : Run Bytes Digest) (reviewed : Plan Digest) (base : Option (Catalog Digest)) (pair : Pair Bytes) :
    Option (Plan Digest) :=
  build L r (reviewed.reports.map (·.path)) base pair reviewed.catalog.issuedAt r.now (reviewed.kind = .promotion)

def publish (r : Run Bytes Digest) : Call (Cuttable (Site Bytes Digest)) (Summary Digest) := do
  let reviewed ← found r.plan
  check (reviewable L r reviewed)
  mayRaise
  let floor ← readFloor L
  check (floor.time ≤ r.now)
  let (base, pair) ← ancestry L reviewed floor r.now
  let actual ← found (rebuild L r reviewed base pair)
  check (L.canonical actual = L.canonical reviewed ∧ actual.sourceCheckpoint.clean = true)
  mayRaise
  check (validateCatalog actual.catalog L.keyId r.now)
  let data := L.dumps actual.catalog
  let signature := L.sign data
  checkFixed L floor pair data signature
  actual.reports.forM (archiveReport L r)
  immutable L (.archive actual.catalog.revision) data
  immutable L (.archiveSig actual.catalog.revision) signature
  match floor.pending with
  | none => beginPending L actual pair r.now data signature (L.digest (L.canonical reviewed))
  | some _ => checkStaged L actual.catalog.revision data signature
  replaceFixed L r actual pair data signature
  check (∃ value ∈ L.loads data, validateCatalog value L.keyId r.now)
  writeFloor (publishedFloor L actual.catalog.revision r.now data)
  pure ⟨actual.catalog.revision, L.digest data, actual.catalog.stable⟩

end Publishing

end Publisher

end EtranProcessing.Publishing.CatalogPublisher
