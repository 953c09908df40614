import Mathlib
import EtranProcessing.Library.Fallible

namespace EtranProcessing.Publishing.Documents

open Library.Fallible

abbrev Text := List Char

inductive Arch where
  | x86
  | x64
  deriving Repr, DecidableEq

def maxTime : Nat := 253402300799

def maxReleases : Nat := 24

def maxTransitions : Nat := 24

/-- What `integer` and `_uint` admit. -/
def uint (value maximum : Nat) : Prop := 0 < value ∧ value ≤ maximum

instance (value maximum : Nat) : Decidable (uint value maximum) := inferInstanceAs (Decidable (_ ∧ _))

section Versions

def digits (part : Text) : Bool := !part.isEmpty && part.all Char.isDigit

def numberOf (part : Text) : Nat := part.foldl (fun n c => 10 * n + (c.toNat - '0'.toNat)) 0

def plainNumber (part : Text) : Bool := digits part && (part == ['0'] || part.head? != some '0')

def separated (sep : Char → Bool) (text : Text) : List Text := text.splitOnP sep

def versionParts (value : Text) : Text × Option Text :=
  match value.dropWhile (· != '-') with
  | [] => (value, none)
  | _ :: suffix => (value.takeWhile (· != '-'), some suffix)

def versionValue (value : Text) : Bool :=
  let numbers := separated (· == '.') (versionParts value).1
  numbers.length == 3 && numbers.all plainNumber && numbers.all (fun part => numberOf part ≤ 65535) &&
    match (versionParts value).2 with
    | none => true
    | some suffix => (separated (fun c => c == '.' || c == '-') suffix).all fun part =>
        !part.isEmpty && part.all Char.isAlphanum

/-- `[0-9]+\.[0-9]+\.[0-9]+` -/
def threeParts (value : Text) : Bool :=
  let numbers := separated (· == '.') value
  numbers.length == 3 && numbers.all digits

/-- `[a-z0-9][a-z0-9_.-]\x7b0,62\x7d` -/
def profileValue (value : Text) : Bool :=
  match value with
  | [] => false
  | first :: rest => (first.isLower || first.isDigit) && decide (rest.length ≤ 62) &&
      rest.all fun c => c.isLower || c.isDigit || c == '_' || c == '.' || c == '-'

end Versions

variable {Digest : Type}

structure Release (Digest : Type) where
  version : Text
  manifestSha256 : Digest
  revoked : Bool
  deriving DecidableEq

structure Transition (Digest : Type) where
  source : Text
  target : Text
  arch : Arch
  profile : Text
  evidenceSha256 : Digest
  deriving DecidableEq

def Transition.identity (edge : Transition Digest) : Text × Text × Arch × Text :=
  (edge.source, edge.target, edge.arch, edge.profile)

/-- A catalogue whose fields have the types of the schema. -/
structure Catalog (Digest : Type) where
  schema : Nat
  keyId : Digest
  revision : Nat
  issuedAt : Nat
  expiresAt : Nat
  stable : Option Text
  releases : List (Release Digest)
  transitions : List (Transition Digest)
  deriving DecidableEq

def validRelease (known : List (Release Digest)) (release : Release Digest) : Prop :=
  threeParts release.version = true ∧ versionValue release.version = true ∧ release.version.length < 64 ∧
    ∀ r ∈ known, r.version ≠ release.version

def validTransition (c : Catalog Digest) (edges : List (Transition Digest)) (edge : Transition Digest) : Prop :=
  (∃ r ∈ c.releases, r.version = edge.source) ∧ (∃ r ∈ c.releases, r.version = edge.target) ∧
    edge.source ≠ edge.target ∧ profileValue edge.profile = true ∧ ∀ e ∈ edges, e.identity ≠ edge.identity

def InOrder {α : Type} (p : List α → α → Prop) : List α → List α → Prop
  | _, [] => True
  | before, a :: rest => p before a ∧ InOrder p (before ++ [a]) rest

instance decidableInOrder {α : Type} (p : List α → α → Prop) [∀ before a, Decidable (p before a)] :
    ∀ before l, Decidable (InOrder p before l)
  | _, [] => inferInstanceAs (Decidable True)
  | before, a :: rest =>
      have := decidableInOrder p (before ++ [a]) rest
      inferInstanceAs (Decidable (_ ∧ _))

instance (known : List (Release Digest)) (release : Release Digest) : Decidable (validRelease known release) :=
  inferInstanceAs (Decidable (_ ∧ _))

instance (c : Catalog Digest) (edges : List (Transition Digest)) (edge : Transition Digest) :
    Decidable (validTransition c edges edge) := inferInstanceAs (Decidable (_ ∧ _))

/-- What `validate_catalog` asks of a document at any time. -/
def wellFormed (c : Catalog Digest) (expectedKeyId : Digest) : Prop :=
  c.schema = 1 ∧ c.keyId = expectedKeyId ∧ uint c.revision (2 ^ 64 - 1) ∧ uint c.issuedAt maxTime ∧
    uint c.expiresAt maxTime ∧ (1 ≤ c.releases.length ∧ c.releases.length ≤ maxReleases) ∧
    c.transitions.length ≤ maxTransitions ∧ InOrder validRelease [] c.releases ∧
    (∀ stable ∈ c.stable, ∃ r ∈ c.releases, r.version = stable ∧ r.revoked = false) ∧
    InOrder (validTransition c) [] c.transitions

def validateCatalog (c : Catalog Digest) (expectedKeyId : Digest) (now : Nat) : Prop :=
  wellFormed c expectedKeyId ∧ uint now maxTime ∧ c.issuedAt ≤ now ∧ now < c.expiresAt

section Deciding

variable [DecidableEq Digest]

instance (c : Catalog Digest) (expectedKeyId : Digest) : Decidable (wellFormed c expectedKeyId) :=
  inferInstanceAs (Decidable (_ ∧ _))

instance (c : Catalog Digest) (expectedKeyId : Digest) (now : Nat) : Decidable (validateCatalog c expectedKeyId now) :=
  inferInstanceAs (Decidable (_ ∧ _))

end Deciding

theorem validateCatalog_later {c : Catalog Digest} {keyId : Digest} {now later : Nat} (h : validateCatalog c keyId now)
    (hissued : c.issuedAt ≤ later) (hexpires : later < c.expiresAt) : validateCatalog c keyId later := by
  obtain ⟨hformed, _, _, _⟩ := h
  refine ⟨hformed, ?_, hissued, hexpires⟩
  obtain ⟨_, _, _, hi, he, _⟩ := hformed
  exact ⟨Nat.lt_of_lt_of_le hi.1 hissued, Nat.le_trans (Nat.le_of_lt hexpires) he.2⟩

section Acceptance

/-- `Endpoint.identity`, which is also how a report names a release. -/
structure Endpoint (Digest : Type) where
  version : Text
  rootSha256 : Digest
  inventorySha256 : Digest
  deriving DecidableEq

structure Platform where
  major : Nat
  minor : Nat
  build : Nat
  nativeArch : Arch
  productType : Nat
  deriving DecidableEq

/-- The UUIDs are numbers: a report holds their canonical text. -/
structure Attempt (Digest : Type) where
  operationId : Nat
  planSha256 : Digest
  proofKind : Nat
  proofSha256 : Digest
  outcomeSha256 : Digest
  result : Text
  error : Nat
  installed : Endpoint Digest
  finishedUtc : Nat
  deriving DecidableEq

structure Report (Digest : Type) where
  schema : Nat
  kind : Text
  keyId : Digest
  runId : Nat
  terminalId : Nat
  tenantId : Nat
  arch : Arch
  platform : Platform
  source : Endpoint Digest
  target : Endpoint Digest
  producerName : Text
  producerSchema : Nat
  startedAt : Nat
  finishedAt : Nat
  contract : Text
  reportSha256 : Digest
  forward : Attempt Digest
  forcedRollback : Attempt Digest
  deriving DecidableEq

def filetimeEpoch : Nat := 116444736000000000

def archText : Arch → Text
  | .x86 => "x86".toList
  | .x64 => "x64".toList

def supported (p : Platform) : Prop :=
  (p.major < 2 ^ 32 ∧ p.minor < 2 ^ 32 ∧ p.build < 2 ^ 32) ∧
    ((p.major = 6 ∧ 1 ≤ p.minor ∧ p.minor ≤ 3 ∧ 7601 ≤ p.build) ∨ (p.major = 10 ∧ p.minor = 0 ∧ 10240 ≤ p.build)) ∧
    p.productType = 1

instance (p : Platform) : Decidable (supported p) := inferInstanceAs (Decidable (_ ∧ _))

def decimal (n : Nat) : Text := Nat.toDigits 10 n

def profile (p : Platform) : Text :=
  "windows-nt-".toList ++ decimal p.major ++ ['.'] ++ decimal p.minor ++ ['.'] ++ decimal p.build ++ ['-'] ++
    archText p.nativeArch ++ "-client".toList

def validRun (run : Attempt Digest) (installed : Endpoint Digest) (restored : Bool) (seen : List Nat)
    (earliest latest : Nat) : Prop :=
  (run.operationId ≠ 0 ∧ run.operationId ∉ seen) ∧
    (run.proofKind = (if restored then 108 else 102) ∧
      run.result = (if restored then "RESTORED".toList else "SUCCESS".toList) ∧ run.installed = installed) ∧
    (run.error < 2 ^ 32 ∧ (run.error ≠ 0 ↔ restored = true)) ∧
    0 < run.finishedUtc ∧ earliest ≤ run.finishedUtc ∧ run.finishedUtc ≤ latest

variable [DecidableEq Digest]

instance (run : Attempt Digest) (installed : Endpoint Digest) (restored : Bool) (seen : List Nat) (earliest latest : Nat) :
    Decidable (validRun run installed restored seen earliest latest) := inferInstanceAs (Decidable (_ ∧ _))

def fresh (report : Report Digest) (now : Nat) : Prop := report.finishedAt ≤ now ∧ now - report.finishedAt ≤ 14 * 86400

instance (report : Report Digest) (now : Nat) : Decidable (fresh report now) := inferInstanceAs (Decidable (_ ∧ _))

def attests (report : Report Digest) (keyId : Digest) (source target : Endpoint Digest) : Prop :=
  (report.schema = 1 ∧ report.kind = "l4tools-pipeline-compatibility".toList) ∧
    (report.keyId = keyId ∧ report.terminalId = 773 ∧ report.tenantId = 1) ∧ supported report.platform ∧
    (report.arch = .x64 → report.platform.nativeArch = .x64) ∧
    (report.source = source ∧ report.target = target ∧ source.version ≠ target.version) ∧
    (∀ v ∈ [source.version, target.version], versionValue v = true ∧ '-' ∉ v) ∧
    (report.producerName = "l4release".toList ∧ report.producerSchema = 1) ∧
    (uint report.startedAt maxTime ∧ uint report.finishedAt maxTime ∧ report.startedAt ≤ report.finishedAt ∧
      report.finishedAt - report.startedAt ≤ 24 * 3600) ∧
    report.contract = "communication-backwards-v1".toList ∧ report.runId ≠ 0 ∧
    validRun report.forward target false [report.runId] (filetimeEpoch + report.startedAt * 10000000)
      (filetimeEpoch + (report.finishedAt + 1) * 10000000) ∧
    validRun report.forcedRollback source true [report.runId, report.forward.operationId]
      (filetimeEpoch + report.startedAt * 10000000) (filetimeEpoch + (report.finishedAt + 1) * 10000000) ∧
    report.forward.proofSha256 ≠ report.forcedRollback.proofSha256 ∧
    report.forward.outcomeSha256 ≠ report.forcedRollback.outcomeSha256

instance (report : Report Digest) (keyId : Digest) (source target : Endpoint Digest) :
    Decidable (attests report keyId source target) := inferInstanceAs (Decidable (_ ∧ _))

def validateAcceptance (report : Report Digest) (keyId : Digest) (source target : Endpoint Digest) (now : Nat)
    (evidenceSha256 : Digest) : Option (Transition Digest) :=
  if attests report keyId source target ∧ fresh report now then
    some ⟨source.version, target.version, report.arch, profile report.platform, evidenceSha256⟩
  else none

theorem validateAcceptance_later {report : Report Digest} {keyId sum : Digest} {source target : Endpoint Digest}
    {now later : Nat} {t : Transition Digest} (h : validateAcceptance report keyId source target now sum = some t)
    (hfresh : fresh report later) : validateAcceptance report keyId source target later sum = some t := by
  unfold validateAcceptance at h ⊢
  split at h
  next hattests => rw [if_pos ⟨hattests.1, hfresh⟩, h]
  next => cases h

end Acceptance

end EtranProcessing.Publishing.Documents
