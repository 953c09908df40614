import EtranProcessing.Deployment.Paths
import EtranProcessing.Proxy.PolicyJson

namespace EtranProcessing.Deployment.Catalog

open Paths Proxy

abbrev Text := List Char

def maxTime : Nat := 253402300799
def maxReleases : Nat := 24
def maxTransitions : Nat := 24

abbrev Digest := List Nat

structure L4CatalogRelease where
  version : Text
  manifestSha256 : Digest
  revoked : Bool
  deriving DecidableEq

/-- A step from one release of the catalogue to another. -/
structure L4CatalogTransition where
  source : Nat
  target : Nat
  arch : Text
  profile : Text
  evidence : Digest
  deriving DecidableEq

structure L4Catalog where
  revision : Nat
  issued : Nat
  expires : Nat
  digest : Digest
  keyId : Text
  stable : Option Nat
  releases : List L4CatalogRelease
  transitions : List L4CatalogTransition
  deriving DecidableEq

section Fields

def fields (json : PolicyJson.Tokens) (object : Option Nat) (expected : Nat) : Bool :=
  (do
    let n ← object
    let t ← json[n]?
    if t.type ≠ '{' then none else some ((PolicyJson.keys json n t.next).length == expected)) == some true

def text (j : PolicyJson.Tokens) (object : Option Nat) (key : String) (size : Nat) : Option Text :=
  PolicyJson.string j (PolicyJson.field j object key) size

def number (j : PolicyJson.Tokens) (object : Option Nat) (key : String) : Option Nat :=
  (PolicyJson.uint j (PolicyJson.field j object key)).filter fun n => 0 < n

def hex (c : Char) : Option Nat :=
  if '0' ≤ c ∧ c ≤ '9' then some (c.toNat - 48)
  else if 'a' ≤ c ∧ c ≤ 'f' then some (c.toNat - 87)
  else none

def hexPairs : Text → Option Digest
  | [] => some []
  | [_] => none
  | a :: b :: rest => do
      let a ← hex a
      let b ← hex b
      (hexPairs rest).map ((a * 16 + b) :: ·)

def digest (j : PolicyJson.Tokens) (object : Option Nat) (key : String) : Option Digest := do
  let value ← text j object key 65
  if value.length ≠ 64 then none
  else
    let out ← hexPairs value
    if out.any (· ≠ 0) then some out else none

end Fields

section Versions

def versionNumber : Nat → Text → Option Text
  | _, [] => some []
  | value, c :: rest =>
      if '0' ≤ c ∧ c ≤ '9' then
        if 65535 < value * 10 + (c.toNat - 48) then none else versionNumber (value * 10 + (c.toNat - 48)) rest
      else some (c :: rest)

def versionDot : Text → Option Text
  | '.' :: rest => some rest
  | _ => none

variable (sys : System) (toWide : Text → Option Wide)

def versionValid (version : Text) : Bool :=
  (versionNumber 0 version >>= versionDot >>= versionNumber 0 >>= versionDot >>= versionNumber 0).isSome &&
    ((toWide version).bind fun version =>
      fromRoots sys (wide "C:\\L4Catalog\\Programs") (wide "C:\\L4Catalog\\Data") version).isSome

def profileFirst (c : Char) : Bool := 'a' ≤ c && c ≤ 'z' || '0' ≤ c && c ≤ '9'

def profileValid (profile : Text) : Bool :=
  match profile with
  | [] => false
  | c :: _ => profile.length < 64 && profileFirst c && profile.all fun c => profileFirst c || "_.-".toList.contains c

def archKnown (arch : Text) : Bool := arch == "x86".toList || arch == "x64".toList

end Versions

def find (c : L4Catalog) (version : Text) : Option Nat := c.releases.findIdx? fun r => r.version == version

section Parse

variable (sys : System) (toWide : Text → Option Wide) (j : PolicyJson.Tokens)

def addRelease (c : L4Catalog) (n : Nat) : Option L4Catalog :=
  if c.releases.length = maxReleases ∨ fields j (some n) 3 = false then none
  else do
    let version ← text j (some n) "version" 64
    if versionValid sys toWide version = false ∨ (find c version).isSome then none
    else
      let manifest ← digest j (some n) "manifest_sha256"
      let revoked ← PolicyJson.bool j (PolicyJson.field j (some n) "revoked")
      some { c with releases := c.releases ++ [⟨version, manifest, revoked⟩] }

def sameStep (e prior : L4CatalogTransition) : Bool :=
  prior.source == e.source && prior.target == e.target && prior.arch == e.arch && prior.profile == e.profile

def addTransition (c : L4Catalog) (n : Nat) : Option L4Catalog :=
  if c.transitions.length = maxTransitions ∨ fields j (some n) 5 = false then none
  else do
    let source ← text j (some n) "from" 64
    let target ← text j (some n) "to" 64
    let arch ← text j (some n) "arch" 4
    if archKnown arch = false then none
    else
      let profile ← text j (some n) "profile" 64
      if profileValid profile = false then none
      else
        let evidence ← digest j (some n) "evidence_sha256"
        let a ← find c source
        let b ← find c target
        let e : L4CatalogTransition := ⟨a, b, arch, profile, evidence⟩
        if a = b ∨ c.transitions.any (sameStep e) then none
        else some { c with transitions := c.transitions ++ [e] }

/-- The release that is current, when one is named. -/
def addStable (c : L4Catalog) : Option L4Catalog := do
  if c.releases = [] then none
  else
    let stable ← PolicyJson.field j (some 0) "stable"
    let token ← j[stable]?
    if token.type = 'n' then some c
    else
      let version ← PolicyJson.string j (some stable) 64
      let at' ← find c version
      let r ← c.releases[at']?
      if r.revoked then none else some { c with stable := some at' }

def elements (n : Option Nat) : Option (List Nat) := do
  let n ← n
  let t ← j[n]?
  if t.type = '[' then some (PolicyJson.elements j n t.next) else none

/-- The catalogue in a signed document whose digest is `authenticated`. -/
def parse (bytes : Text) (authenticated : Digest) (keyId : Text) (now : Nat) : Option L4Catalog :=
  if now = 0 ∨ maxTime < now then none
  else do
    let j ← PolicyJson.parse bytes
    if fields j (some 0) 8 = false ∨ number j (some 0) "schema" ≠ some 1 then none
    else
      let identity ← text j (some 0) "key_id" 65
      let _ ← digest j (some 0) "key_id"
      if identity ≠ keyId then none
      else
        let revision ← number j (some 0) "revision"
        let issued ← number j (some 0) "issued_at"
        let expires ← number j (some 0) "expires_at"
        if maxTime < expires ∨ now < issued ∨ expires ≤ now then none
        else
          let releases ← elements j (PolicyJson.field j (some 0) "releases")
          let edges ← elements j (PolicyJson.field j (some 0) "transitions")
          let empty : L4Catalog := ⟨revision, issued, expires, authenticated, identity, none, [], []⟩
          let c ← releases.foldlM (addRelease sys toWide j) empty
          let c ← addStable j c
          edges.foldlM (addTransition j) c

end Parse

/-- What the routes rest on. -/
structure Accepted (c : L4Catalog) : Prop where
  room : c.releases.length ≤ maxReleases
  distinct : (c.releases.map L4CatalogRelease.version).Nodup
  stable : ∀ i, c.stable = some i → i < c.releases.length
  ends : ∀ e ∈ c.transitions, e.source < c.releases.length ∧ e.target < c.releases.length
  single : c.transitions.Pairwise fun prior e => sameStep e prior = false

section Keeps

variable {sys : System} {toWide : Text → Option Wide} {j : PolicyJson.Tokens} {c c' : L4Catalog} {n : Nat}

theorem find_some {version : Text} {i : Nat} (h : find c version = some i) :
    ∃ r, c.releases[i]? = some r ∧ r.version = version := by
  obtain ⟨hlt, hversion, -⟩ := List.findIdx?_eq_some_iff_getElem.mp h
  exact ⟨c.releases[i], List.getElem?_eq_getElem hlt, by simpa using hversion⟩

theorem find_lt {version : Text} {i : Nat} (h : find c version = some i) : i < c.releases.length := by
  obtain ⟨r, hr, -⟩ := find_some h
  exact (List.getElem?_eq_some_iff.mp hr).1

theorem find_none {version : Text} (h : find c version = none) : version ∉ c.releases.map L4CatalogRelease.version := by
  rw [find, List.findIdx?_eq_none_iff] at h
  intro hmem
  obtain ⟨r, hr, rfl⟩ := List.mem_map.mp hmem
  simpa using h r hr

theorem fold_keeps {P : L4Catalog → Prop} {f : L4Catalog → Nat → Option L4Catalog}
    (hstep : ∀ c n c', P c → f c n = some c' → P c') (l : List Nat) (hc : P c) (hfold : l.foldlM f c = some c') : P c' := by
  induction l generalizing c with
  | nil =>
      obtain rfl := Option.some.inj hfold
      exact hc
  | cons n l ih =>
      rw [List.foldlM_cons, Option.bind_eq_bind, Option.bind_eq_some_iff] at hfold
      obtain ⟨c₁, hone, hrest⟩ := hfold
      exact ih (hstep c n c₁ hc hone) hrest

/-- While the releases are read there is no transition yet. -/
structure Listing (c : L4Catalog) : Prop where
  room : c.releases.length ≤ maxReleases
  distinct : (c.releases.map L4CatalogRelease.version).Nodup
  unset : c.stable = none
  early : c.transitions = []

theorem Listing.addRelease (h : Listing c) (hadd : addRelease sys toWide j c n = some c') : Listing c' := by
  simp only [Catalog.addRelease, Option.bind_eq_bind, Option.ite_none_left_eq_some, not_or, Option.bind_eq_some_iff,
    Option.some.injEq] at hadd
  obtain ⟨⟨hroom, -⟩, version, -, ⟨-, hnew⟩, manifest, -, revoked, -, rfl⟩ := hadd
  refine ⟨?_, ?_, h.unset, h.early⟩
  · have := h.room
    rw [List.length_append, List.length_singleton]
    omega
  · rw [List.map_append, List.nodup_append]
    refine ⟨h.distinct, List.nodup_singleton _, ?_⟩
    intro a ha b hb heq
    rw [List.map_singleton, List.mem_singleton] at hb
    have hversion : a = version := heq.trans hb
    exact find_none (by simpa using hnew) (hversion ▸ ha)

theorem Listing.addStable (h : Listing c) (hadd : addStable j c = some c') : Accepted c' := by
  simp only [Catalog.addStable, Option.bind_eq_bind, Option.ite_none_left_eq_some, Option.bind_eq_some_iff] at hadd
  obtain ⟨-, stable, -, token, -, hadd⟩ := hadd
  have hnone : ∀ e ∈ c.transitions, e.source < c.releases.length ∧ e.target < c.releases.length := by
    simp [h.early]
  have hsingle : c.transitions.Pairwise fun prior e => sameStep e prior = false := by
    rw [h.early]
    exact List.Pairwise.nil
  by_cases hnull : token.type = 'n'
  · rw [if_pos hnull] at hadd
    obtain rfl := Option.some.inj hadd
    exact ⟨h.room, h.distinct, by simp [h.unset], hnone, hsingle⟩
  · simp only [if_neg hnull, Option.bind_eq_some_iff, Option.ite_none_left_eq_some, Option.some.injEq] at hadd
    obtain ⟨version, -, i, -, r, hr, -, rfl⟩ := hadd
    refine ⟨h.room, h.distinct, ?_, hnone, hsingle⟩
    intro k hk
    obtain rfl := Option.some.inj hk
    exact (List.getElem?_eq_some_iff.mp hr).1

theorem Accepted.addTransition (h : Accepted c) (hadd : addTransition j c n = some c') : Accepted c' := by
  simp only [Catalog.addTransition, Option.bind_eq_bind, Option.ite_none_left_eq_some, not_or, Option.bind_eq_some_iff,
    Option.some.injEq] at hadd
  obtain ⟨-, source, -, target, -, arch, -, -, profile, -, -, evidence, -, a, ha, b, hb, ⟨-, hnew⟩, rfl⟩ := hadd
  refine ⟨h.room, h.distinct, h.stable, ?_, ?_⟩
  · intro e he
    rcases List.mem_append.mp he with he | he
    · exact h.ends e he
    · rw [List.mem_singleton.mp he]
      exact ⟨find_lt ha, find_lt hb⟩
  · rw [List.pairwise_append]
    refine ⟨h.single, List.pairwise_singleton _ _, ?_⟩
    intro prior hprior e he
    rw [List.mem_singleton.mp he]
    simpa using fun hsame => hnew (List.any_eq_true.mpr ⟨prior, hprior, hsame⟩)

theorem parse_accepted {bytes keyId : Text} {authenticated : Digest} {now : Nat}
    (h : parse sys toWide bytes authenticated keyId now = some c) : Accepted c := by
  simp only [parse, Option.bind_eq_bind, Option.ite_none_left_eq_some, Option.bind_eq_some_iff] at h
  obtain ⟨-, j, -, -, identity, -, k, -, -, revision, -, issued, -, expires, -, -, releases, -, edges, -, c₁, hreleases, c₂,
    hstable, hedges⟩ := h
  have hstart : Listing ⟨revision, issued, expires, authenticated, identity, none, [], []⟩ :=
    ⟨Nat.zero_le _, List.nodup_nil, rfl, rfl⟩
  have hlisted := fold_keeps (fun _ _ _ => Listing.addRelease) releases hstart hreleases
  exact fold_keeps (fun _ _ _ => Accepted.addTransition) edges (hlisted.addStable hstable) hedges

end Keeps

end EtranProcessing.Deployment.Catalog
