import EtranProcessing.Publishing.CatalogPublisher

namespace EtranProcessing.Publishing.CatalogMoves

set_option linter.unusedSectionVars false

open Relation Library.Calls Library.Interruption Documents CatalogPublisher

variable {Bytes Digest : Type} [DecidableEq Bytes] [DecidableEq Digest] (L : Libraries Bytes Digest)

def checksumOf (plan : Plan Digest) : Digest := L.digest (L.canonical plan)

def dataOf (plan : Plan Digest) : Bytes := L.dumps plan.catalog

def signatureOf (plan : Plan Digest) : Bytes := L.sign (dataOf L plan)

def floorOf (s : Site Bytes Digest) : Floor Digest := s.floorFile.getD (initialFloor L)

def Fixed : Artifact Digest → Prop
  | .current | .currentSig => True
  | _ => False

/-- What a run has found out about its plan before it writes anything. -/
structure Prepared (r : Run Bytes Digest) (plan : Plan Digest) (base : Option (Catalog Digest)) (pair : Pair Bytes) :
    Prop where
  read : r.plan = some plan
  reviewable : reviewable L r plan
  based : catalogOf L pair r.now = some base
  built : rebuild L r plan base pair = some plan
  clean : plan.sourceCheckpoint.clean = true
  valid : validateCatalog plan.catalog L.keyId r.now
  fitsData : ∀ d ∈ pair.1, fits L d 65535
  fitsSig : ∀ d ∈ pair.2, fits L d 384

def ReportArchived (r : Run Bytes Digest) (s : Site Bytes Digest) (item : ReportRef Digest) : Prop :=
  ∃ d sig, readReport L r.evidenceLater item.path = some (d, sig) ∧ L.digest d = item.sha256 ∧
    L.digest sig = item.signatureSha256 ∧ s.remote (.evidence item.sha256) = some d ∧
    s.remote (.evidenceSig item.sha256) = some sig

structure Archived (r : Run Bytes Digest) (plan : Plan Digest) (s : Site Bytes Digest) : Prop where
  reports : ∀ item ∈ plan.reports, ReportArchived L r s item
  data : s.remote (.archive plan.catalog.revision) = some (dataOf L plan)
  signature : s.remote (.archiveSig plan.catalog.revision) = some (signatureOf L plan)

structure Saved (plan : Plan Digest) (pair : Pair Bytes) (s : Site Bytes Digest) : Prop where
  directory : s.directory plan.catalog.revision = true
  catalog : s.saved plan.catalog.revision .catalog = some (dataOf L plan)
  catalogSig : s.saved plan.catalog.revision .catalogSig = some (signatureOf L plan)
  base : ∀ d ∈ pair.1, s.saved plan.catalog.revision .base = some d
  baseSig : ∀ d ∈ pair.2, s.saved plan.catalog.revision .baseSig = some d

/-- What stands behind every write of the fixed pair: the plan of the run is the pending one, and the bytes are the
saved and archived ones. -/
structure Entitled (r : Run Bytes Digest) (plan : Plan Digest) (p : Pending Digest) (s : Site Bytes Digest) : Prop where
  pending : (floorOf L s).pending = some p
  read : r.plan = some plan
  checksum : checksumOf L plan = p.planSha256
  revision : plan.catalog.revision = p.revision
  catalog : s.saved p.revision .catalog = some (dataOf L plan)
  catalogSig : s.saved p.revision .catalogSig = some (signatureOf L plan)
  archive : s.remote (.archive p.revision) = some (dataOf L plan)
  time : (floorOf L s).time ≤ r.now
  advances : (floorOf L s).revision < p.revision

def pendingFloorOf (r : Run Bytes Digest) (plan : Plan Digest) : Floor Digest :=
  pendingFloor L plan r.now (dataOf L plan) (checksumOf L plan)

/-- One write of a run, with what holds where it is made. -/
inductive Move (r : Run Bytes Digest) : Site Bytes Digest → Site Bytes Digest → Prop
  | archive {s : Site Bytes Digest} (a : Artifact Digest) (d : Bytes) (hfixed : ¬ Fixed a) (hfree : s.remote a = none)
      (hcatalog : ∀ n, a = .archive n → ∃ c, d = L.dumps c ∧ c.revision = n) : Move r s (s.put a d)
  | directory {s : Site Bytes Digest} (n : Nat) : Move r s { s with directory := Function.update s.directory n true }
  | save {s : Site Bytes Digest} {n : Nat} {name : Staged} {d : Bytes} (hidle : (floorOf L s).pending = none)
      (hfree : s.saved n name = none) : Move r s (s.save n name d)
  | begin {s : Site Bytes Digest} {plan : Plan Digest} {base : Option (Catalog Digest)} {pair : Pair Bytes}
      (hidle : (floorOf L s).pending = none) (hprepared : Prepared L r plan base pair) (harchived : Archived L r plan s)
      (hsaved : Saved L plan pair s) (hfixed : (s.remote .current, s.remote .currentSig) = pair)
      (hvalid : floorValid L (pendingFloorOf L r plan))
      (hrevision : (floorOf L s).revision ≤ (pendingFloorOf L r plan).revision)
      (htime : (floorOf L s).time ≤ (pendingFloorOf L r plan).time) : Move r s (s.setFloor (pendingFloorOf L r plan))
  | replaceData {s : Site Bytes Digest} (plan : Plan Digest) (p : Pending Digest) (h : Entitled L r plan p s) :
      Move r s (s.put .current (dataOf L plan))
  | replaceSig {s : Site Bytes Digest} (plan : Plan Digest) (p : Pending Digest) (h : Entitled L r plan p s) :
      Move r s (s.put .currentSig (signatureOf L plan))
  | finish {s : Site Bytes Digest} (plan : Plan Digest) (p : Pending Digest) (h : Entitled L r plan p s)
      (hdata : s.remote .current = some (dataOf L plan)) (hsig : s.remote .currentSig = some (signatureOf L plan)) :
      Move r s (s.setFloor (publishedFloor L p.revision r.now (dataOf L plan)))

abbrev Moves (r : Run Bytes Digest) : Site Bytes Digest → Site Bytes Digest → Prop := ReflTransGen (Move L r)

section Frames

variable {L} {s : Site Bytes Digest}

@[simp] theorem put_uploads (a : Artifact Digest) (d : Bytes) : (s.put a d).uploads = s.uploads ++ [(a, d)] := rfl

@[simp] theorem put_same (a : Artifact Digest) (d : Bytes) : (s.put a d).remote a = some d := by simp [Site.put]

theorem put_other {a b : Artifact Digest} (d : Bytes) (h : b ≠ a) : (s.put a d).remote b = s.remote b := by
  simp [Site.put, h]

theorem put_kept {a b : Artifact Digest} {d v : Bytes} (hfree : s.remote a = none) (h : s.remote b = some v) :
    (s.put a d).remote b = some v := by
  rw [put_other]
  · exact h
  · rintro rfl
    rw [hfree] at h
    cases h

theorem save_kept {n m : Nat} {name name' : Staged} {d v : Bytes} (hfree : s.saved n name = none)
    (h : s.saved m name' = some v) : (s.save n name d).saved m name' = some v := by
  unfold Site.save
  by_cases hn : m = n
  · subst hn
    by_cases hname : name' = name
    · subst hname
      rw [hfree] at h
      cases h
    · simp [hname, h]
  · simp [hn, h]

@[simp] theorem save_same (n : Nat) (name : Staged) (d : Bytes) : (s.save n name d).saved n name = some d := by
  simp [Site.save]

end Frames

section Floors

variable {L} {r : Run Bytes Digest} {s s' : Site Bytes Digest}

def FloorUp (s s' : Site Bytes Digest) : Prop :=
  (floorOf L s).revision ≤ (floorOf L s').revision ∧ (floorOf L s).time ≤ (floorOf L s').time

theorem Move.floorUp (h : Move L r s s') : FloorUp (L := L) s s' := by
  cases h with
  | archive | directory | save | replaceData | replaceSig => exact ⟨Nat.le_refl _, Nat.le_refl _⟩
  | «begin» _ _ _ _ _ _ hrevision htime => exact ⟨hrevision, htime⟩
  | finish plan p h => exact ⟨Nat.le_of_lt h.advances, h.time⟩

theorem Moves.floorUp (h : Moves L r s s') : FloorUp (L := L) s s' := by
  induction h with
  | refl => exact ⟨Nat.le_refl _, Nat.le_refl _⟩
  | tail _ hmove ih => exact ⟨Nat.le_trans ih.1 hmove.floorUp.1, Nat.le_trans ih.2 hmove.floorUp.2⟩

end Floors

section Uploads

variable {L} {r : Run Bytes Digest} {s s' : Site Bytes Digest}

def IsCatalog : Artifact Digest → Prop
  | .current | .archive _ => True
  | _ => False

def Once (L : Libraries Bytes Digest) (s : Site Bytes Digest) : Prop :=
  ∀ a d, (a, d) ∈ s.uploads → IsCatalog a → ∃ c, L.loads d = some c ∧ s.remote (.archive c.revision) = some d ∧
    ∀ n, a = .archive n → n = c.revision

theorem Once.kept (h : Once L s) (huploads : s'.uploads = s.uploads)
    (hremote : ∀ n d, s.remote (.archive n) = some d → s'.remote (.archive n) = some d) : Once L s' := by
  intro a d hmem hcatalog
  rw [huploads] at hmem
  obtain ⟨c, hloads, harchive, hn⟩ := h a d hmem hcatalog
  exact ⟨c, hloads, hremote _ _ harchive, hn⟩

theorem Once.put {a : Artifact Digest} {d : Bytes} (h : Once L s)
    (hremote : ∀ n v, s.remote (.archive n) = some v → (s.put a d).remote (.archive n) = some v)
    (hnew : IsCatalog a → ∃ c, L.loads d = some c ∧ (s.put a d).remote (.archive c.revision) = some d ∧
      ∀ n, a = .archive n → n = c.revision) : Once L (s.put a d) := by
  intro b v hmem hcatalog
  rw [put_uploads, List.mem_append, List.mem_singleton] at hmem
  rcases hmem with hmem | hmem
  · obtain ⟨c, hloads, harchive, hn⟩ := h b v hmem hcatalog
    exact ⟨c, hloads, hremote _ _ harchive, hn⟩
  · cases hmem
    exact hnew hcatalog

theorem Move.once (hL : Documented L) (h : Move L r s s') (honce : Once L s) : Once L s' := by
  cases h with
  | archive a d hfixed hfree hcatalog =>
      apply honce.put
      · intro n v hv
        exact put_kept hfree hv
      · intro hkind
        cases a with
        | archive n =>
            obtain ⟨c, rfl, rfl⟩ := hcatalog n rfl
            exact ⟨c, hL.loads_dumps c, put_same _ _, fun _ hn => (Artifact.archive.inj hn).symm⟩
        | current => exact absurd trivial hfixed
        | currentSig | archiveSig | evidence | evidenceSig => cases hkind
  | directory | save | «begin» | finish => exact honce.kept rfl fun _ _ h => h
  | replaceData plan' p h =>
      apply honce.put
      · intro n v hv
        rwa [put_other _ (by simp)]
      · intro _
        refine ⟨_, hL.loads_dumps _, ?_, by simp⟩
        rw [put_other _ (by simp), h.revision]
        exact h.archive
  | replaceSig =>
      apply honce.put
      · intro n v hv
        rwa [put_other _ (by simp)]
      · exact False.elim

theorem Moves.once (hL : Documented L) (h : Moves L r s s') (honce : Once L s) : Once L s' := by
  induction h with
  | refl => exact honce
  | tail _ hmove ih => exact hmove.once hL ih

def OnlyPending (L : Libraries Bytes Digest) (r : Run Bytes Digest) (p : Pending Digest) (s s' : Site Bytes Digest) :
    Prop :=
  (∃ plan, r.plan = some plan ∧ checksumOf L plan = p.planSha256) ∨
    ((floorOf L s').pending = some p ∧ ∃ new, s'.uploads = s.uploads ++ new ∧ ∀ u ∈ new, ¬ Fixed u.1)

theorem Move.onlyPending {p : Pending Digest} {s₀ : Site Bytes Digest} (h : Move L r s s')
    (hs : OnlyPending L r p s₀ s) : OnlyPending L r p s₀ s' := by
  rcases hs with hplan | ⟨hpending, new, huploads, hnew⟩
  · exact .inl hplan
  · cases h with
    | archive a d hfixed =>
        refine .inr ⟨hpending, new ++ [(a, d)], by simp [huploads], ?_⟩
        intro u hu
        rcases List.mem_append.mp hu with hu | hu
        · exact hnew u hu
        · rw [List.mem_singleton.mp hu]
          exact hfixed
    | directory | save => exact .inr ⟨hpending, new, huploads, hnew⟩
    | «begin» hidle =>
        rw [hidle] at hpending
        cases hpending
    | replaceData plan' p h | replaceSig plan' p h | finish plan' p h =>
        cases h.pending.symm.trans hpending
        exact .inl ⟨_, h.read, h.checksum⟩

theorem Moves.onlyPending {p : Pending Digest} (h : Moves L r s s') (hs : (floorOf L s).pending = some p) :
    OnlyPending L r p s s' := by
  induction h with
  | refl => exact .inr ⟨hs, [], by simp, by simp⟩
  | tail _ hmove ih => exact hmove.onlyPending ih

end Uploads

section Holding

variable {L} {r r' : Run Bytes Digest} {s s' : Site Bytes Digest} {plan : Plan Digest} {base : Option (Catalog Digest)}
  {pair : Pair Bytes}

/-- A pending plan with all that is needed to resume it, as the run left it that began it. -/
structure Held (L : Libraries Bytes Digest) (r : Run Bytes Digest) (plan : Plan Digest) (base : Option (Catalog Digest))
    (pair : Pair Bytes) (s : Site Bytes Digest) : Prop where
  floor : s.floorFile = some (pendingFloorOf L r plan)
  prepared : Prepared L r plan base pair
  archived : Archived L r plan s
  saved : Saved L plan pair s
  mixture : Mixture (s.remote .current, s.remote .currentSig) pair (some (dataOf L plan), some (signatureOf L plan))
  valid : floorValid L (pendingFloorOf L r plan)

theorem Held.pending (h : Held L r plan base pair s) : (floorOf L s).pending =
    some ⟨plan.catalog.revision, L.digest (dataOf L plan), checksumOf L plan⟩ := by
  rw [floorOf, h.floor]
  rfl

theorem reportArchived_kept {item : ReportRef Digest} (h : ReportArchived L r s item)
    (hkept : ∀ b v, ¬ Fixed b → s.remote b = some v → s'.remote b = some v) : ReportArchived L r s' item := by
  obtain ⟨v, sig, hread, hdata, hsig, hremote, hremoteSig⟩ := h
  exact ⟨v, sig, hread, hdata, hsig, hkept _ _ id hremote, hkept _ _ id hremoteSig⟩

theorem Archived.put {a : Artifact Digest} {d : Bytes} (h : Archived L r plan s)
    (hkept : ∀ b v, ¬ Fixed b → s.remote b = some v → (s.put a d).remote b = some v) : Archived L r plan (s.put a d) where
  reports item hitem := reportArchived_kept (h.reports item hitem) hkept
  data := hkept _ _ id h.data
  signature := hkept _ _ id h.signature

theorem Saved.setFloor {floor : Floor Digest} (h : Saved L plan pair s) : Saved L plan pair (s.setFloor floor) :=
  ⟨h.directory, h.catalog, h.catalogSig, h.base, h.baseSig⟩

theorem Saved.put {a : Artifact Digest} {d : Bytes} (h : Saved L plan pair s) : Saved L plan pair (s.put a d) :=
  ⟨h.directory, h.catalog, h.catalogSig, h.base, h.baseSig⟩

theorem Held.put {a : Artifact Digest} {d : Bytes} (h : Held L r plan base pair s)
    (hkept : ∀ b v, ¬ Fixed b → s.remote b = some v → (s.put a d).remote b = some v)
    (hmixture : Mixture ((s.put a d).remote .current, (s.put a d).remote .currentSig) pair
      (some (dataOf L plan), some (signatureOf L plan))) : Held L r plan base pair (s.put a d) :=
  ⟨h.floor, h.prepared, h.archived.put hkept, h.saved.put, hmixture, h.valid⟩

theorem put_fixed_kept {a b : Artifact Digest} {d v : Bytes} (ha : Fixed a) (hb : ¬ Fixed b) (h : s.remote b = some v) :
    (s.put a d).remote b = some v := by
  rw [put_other]
  · exact h
  · rintro rfl
    exact hb ha

theorem Move.held (h : Move L r' s s') (hheld : Held L r plan base pair s) :
    Held L r plan base pair s' ∨ (floorOf L s').pending = none := by
  cases h with
  | archive a d hfixed hfree =>
      refine .inl (hheld.put (fun b v _ hv => put_kept hfree hv) ?_)
      have hcurrent : Artifact.current ≠ a := by
        rintro rfl
        exact hfixed trivial
      have hsig : Artifact.currentSig ≠ a := by
        rintro rfl
        exact hfixed trivial
      rw [put_other _ hcurrent, put_other _ hsig]
      exact hheld.mixture
  | directory n =>
      refine .inl ⟨hheld.floor, hheld.prepared, ⟨hheld.archived.reports, hheld.archived.data, hheld.archived.signature⟩,
        ⟨?_, hheld.saved.catalog, hheld.saved.catalogSig, hheld.saved.base, hheld.saved.baseSig⟩, hheld.mixture,
        hheld.valid⟩
      by_cases hn : plan.catalog.revision = n
      · simp [hn]
      · simp [hn, hheld.saved.directory]
  | save hidle | «begin» hidle =>
      rw [hheld.pending] at hidle
      cases hidle
  | replaceData plan' p h =>
      cases h.pending.symm.trans hheld.pending
      have hdata := Option.some.inj (h.catalog.symm.trans hheld.saved.catalog)
      refine .inl (hheld.put (fun b v hb hv => put_fixed_kept trivial hb hv) ⟨.inr ?_, ?_⟩)
      · rw [hdata]
        exact put_same (s := s) .current _
      · have hother : (s.put .current (dataOf L plan')).remote .currentSig = s.remote .currentSig :=
          put_other _ (by simp)
        rw [hother]
        exact hheld.mixture.2
  | replaceSig plan' p h =>
      cases h.pending.symm.trans hheld.pending
      have hsig := Option.some.inj (h.catalogSig.symm.trans hheld.saved.catalogSig)
      refine .inl (hheld.put (fun b v hb hv => put_fixed_kept trivial hb hv) ⟨?_, .inr ?_⟩)
      · have hother : (s.put .currentSig (signatureOf L plan')).remote .current = s.remote .current :=
          put_other _ (by simp)
        rw [hother]
        exact hheld.mixture.1
      · rw [hsig]
        exact put_same (s := s) .currentSig _
  | finish => exact .inr rfl

theorem Move.begun (h : Move L r s s') (hidle : (floorOf L s).pending = none) :
    (floorOf L s').pending = none ∨ ∃ plan base pair, Held L r plan base pair s' := by
  cases h with
  | archive | directory | save | replaceData | replaceSig => exact .inl hidle
  | «begin» _ hprepared harchived hsaved hfixed hvalid =>
      exact .inr ⟨_, _, _, rfl, hprepared, ⟨harchived.reports, harchived.data, harchived.signature⟩, hsaved.setFloor,
        ⟨.inl (congrArg Prod.fst hfixed), .inl (congrArg Prod.snd hfixed)⟩, hvalid⟩
  | finish => exact .inl rfl

def Resumable (L : Libraries Bytes Digest) (runs : List (Run Bytes Digest)) (s : Site Bytes Digest) : Prop :=
  (floorOf L s).pending = none ∨ ∃ r ∈ runs, ∃ plan base pair, Held L r plan base pair s

theorem Moves.resumable {runs : List (Run Bytes Digest)} (h : Moves L r s s') (hs : Resumable L runs s) :
    Resumable L (runs ++ [r]) s' := by
  induction h with
  | refl =>
      rcases hs with hs | ⟨r', hr', hheld⟩
      · exact .inl hs
      · exact .inr ⟨r', List.mem_append_left _ hr', hheld⟩
  | tail _ hmove ih =>
      rcases ih with hidle | ⟨r', hr', plan, base, pair, hheld⟩
      · rcases hmove.begun hidle with hidle | hheld
        · exact .inl hidle
        · exact .inr ⟨r, by simp, hheld⟩
      · rcases hmove.held hheld with hheld | hidle
        · exact .inr ⟨r', hr', plan, base, pair, hheld⟩
        · exact .inl hidle

end Holding

end EtranProcessing.Publishing.CatalogMoves
