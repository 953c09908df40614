import EtranProcessing.Publishing.CatalogRuns

namespace EtranProcessing.Publishing.PendingPlan

set_option linter.unusedSectionVars false

open Relation Library.Calls Library.Interruption Documents CatalogPublisher CatalogMoves CatalogRuns

variable {Bytes Digest : Type} [DecidableEq Bytes] [DecidableEq Digest] {L : Libraries Bytes Digest}
  {r : Run Bytes Digest} {s : Site Bytes Digest} {plan : Plan Digest} {base : Option (Catalog Digest)}
  {pair : Pair Bytes} {now : Nat}

def again (r : Run Bytes Digest) (now : Nat) : Run Bytes Digest := { r with now := now, checkpointLater := r.checkpoint }

section Rebuilding

theorem foldlM_imp {α β : Type} {f f' : β → α → Option β} {l : List α}
    (h : ∀ a ∈ l, ∀ b b', f b a = some b' → f' b a = some b') (b b' : β) (hl : l.foldlM f b = some b') :
    l.foldlM f' b = some b' := by
  induction l generalizing b with
  | nil => exact hl
  | cons a l ih =>
      rw [List.foldlM_cons, Option.bind_eq_bind, Option.bind_eq_some_iff] at hl ⊢
      obtain ⟨c, hc, hrest⟩ := hl
      exact ⟨c, h a (by simp) b c hc, ih (fun a ha => h a (List.mem_cons_of_mem _ ha)) c hrest⟩

def FreshAt (L : Libraries Bytes Digest) (r : Run Bytes Digest) (now : Nat) (path : Text) : Prop :=
  ∀ data signature report, r.evidence path = some (data, signature) → L.report data = some report → fresh report now

theorem admitReport_later {g g' : Gathering Digest} {path : Text} {then_ : Nat}
    (h : admitReport L r then_ g path = some g') (hfresh : FreshAt L r now path) : admitReport L r now g path = some g' := by
  simp only [admitReport, readReport, Option.bind_eq_bind, Option.bind_eq_some_iff, guard_some, Option.pure_def,
    Option.some.injEq, Prod.exists] at h ⊢
  obtain ⟨data, signature, ⟨data', signature', hread, hfits, hsize, hpair⟩, hverify, hv, report, hreport, hversions, hok,
    hone, hsame, endpoints, henter, endpoints', henter', source, hsource, target, htarget, t, ht, hrest⟩ := h
  refine ⟨data, signature, ⟨data', signature', hread, hfits, hsize, hpair⟩, hverify, hv, report, hreport, hversions, hok,
    hone, hsame, endpoints, henter, endpoints', henter', source, hsource, target, htarget, t, ?_, hrest⟩
  cases hpair
  exact validateAcceptance_later ht (hfresh _ _ _ hread hreport)

theorem build_later {evidence : List Text} {issued then_ : Nat} {promote : Bool}
    (h : build L r evidence base pair issued then_ promote = some plan) (hfresh : ∀ path ∈ evidence, FreshAt L r now path)
    (hvalid : validateCatalog plan.catalog L.keyId now) :
    build L (again r now) evidence base pair issued now promote = some plan := by
  change build L r evidence base pair issued now promote = some plan
  simp only [build, Option.bind_eq_bind, Option.bind_eq_some_iff, guard_some, Option.pure_def, Option.some.injEq] at h ⊢
  obtain ⟨u, hcount, g, hg, releases, hreleases, edges, hedges, stable, hstable, reserved, hreserved, v, _, checkpoint,
    hcheckpoint, rfl⟩ := h
  refine ⟨u, hcount, g, ?_, releases, hreleases, edges, hedges, stable, hstable, reserved, hreserved, v, hvalid, checkpoint,
    hcheckpoint, rfl⟩
  exact foldlM_imp (fun path hpath b b' hb => admitReport_later hb (hfresh path hpath)) _ _ hg

theorem catalogOf_later {then_ : Nat} (h : catalogOf L pair then_ = some base) (hissued : ∀ b ∈ base, b.issuedAt ≤ now) :
    catalogOf L pair now = some base := by
  unfold catalogOf at h ⊢
  split at h
  next => exact h
  next data signature =>
    simp only [Option.bind_eq_bind, Option.bind_eq_some_iff, guard_some, Option.pure_def, Option.some.injEq] at h ⊢
    obtain ⟨u, hverify, b, hloads, v, huint, w, hvalid, rfl⟩ := h
    exact ⟨u, hverify, b, hloads, v, ⟨huint.1, hissued b rfl⟩, w, hvalid, rfl⟩
  next => cases h

end Rebuilding

section Resuming

theorem readFloor_ends {floor : Floor Digest} (hfile : s.floorFile = some floor) (hvalid : floorValid L floor) :
    Ends (readFloor L) s floor s := by
  apply Ends.mayRaise.bind
  apply Ends.look.bind
  rw [hfile]
  exact (Ends.check hvalid).bind (Ends.pure _)

variable {a : Artifact Digest} {d : Bytes}

theorem get_ends {limit : Nat} (h : ∀ d, s.remote a = some d → fits L d limit) :
    Ends (get L a limit) s (s.remote a) s := by
  apply Ends.mayRaise.bind
  apply Ends.look.bind
  cases hremote : s.remote a with
  | none => exact Ends.pure _
  | some d => exact (Ends.check (h d hremote)).bind (Ends.pure _)

theorem fixedPair_ends (hdata : ∀ d, s.remote .current = some d → fits L d 65535)
    (hsig : ∀ d, s.remote .currentSig = some d → fits L d 384) :
    Ends (fixedPair L) s (s.remote .current, s.remote .currentSig) s :=
  (get_ends hdata).bind ((get_ends hsig).bind (Ends.pure _))

theorem readSaved_ends {n limit : Nat} {name : Staged} (h : s.saved n name = some d) (hfits : fits L d limit) :
    Ends (readSaved L n name limit) s d s := by
  apply Ends.mayRaise.bind
  apply Ends.look.bind
  apply (Ends.found h).bind
  exact (Ends.check hfits).bind (Ends.pure _)

theorem protect_ends {n : Nat} {name : Staged} (h : s.saved n name = some d) : Ends (protect n name) s () s := by
  apply Ends.mayRaise.bind
  apply Ends.look.bind
  apply Ends.check
  rw [h]
  rfl

theorem protectDirectory_ends {n : Nat} (h : s.directory n = true) : Ends (protectDirectory n) s () s := by
  apply Ends.mayRaise.bind
  apply Ends.look.bind
  exact Ends.check h

theorem immutable_ends (h : s.remote a = some d) (hsize : 0 < L.size d) :
    Ends (immutable L a d) s () s := by
  have hget : Ends (get L a (L.size d)) s (some d) s := by
    rw [← h]
    apply get_ends
    intro v hv
    cases h.symm.trans hv
    exact ⟨hsize, Nat.le_refl _⟩
  apply hget.bind
  exact (Ends.check rfl).bind (hget.bind (Ends.check rfl))

theorem archiveReport_ends {item : ReportRef Digest} (h : ReportArchived L (again r now) s item) :
    Ends (archiveReport L (again r now) item) s () s := by
  obtain ⟨d, sig, hread, hdata, hsig, hremote, hremoteSig⟩ := h
  have hfits : fits L d 65535 ∧ fits L sig 384 := by
    simp only [readReport, Option.bind_eq_bind, Option.bind_eq_some_iff, guard_some, Option.pure_def, Option.some.injEq,
      Prod.exists] at hread
    obtain ⟨_, _, _, _, hfits, hpair⟩ := hread
    cases hpair
    exact hfits
  apply (Ends.found hread).bind
  apply (Ends.check ⟨hdata, hsig⟩).bind
  apply (immutable_ends hremote hfits.1.1).bind
  exact immutable_ends hremoteSig hfits.2.1

theorem savedBase_ends (h : Held L r plan base pair s) (htime : (floorOf L s).time ≤ now) :
    Ends (savedBase L plan ⟨plan.catalog.revision, L.digest (dataOf L plan), checksumOf L plan⟩ now) s (base, pair) s := by
  have hrevision := (build_facts h.prepared.built).1
  apply (Ends.check ⟨rfl, rfl⟩).bind
  apply (protectDirectory_ends h.saved.directory).bind
  apply (protect_ends h.saved.catalog).bind
  apply (protect_ends h.saved.catalogSig).bind
  rcases catalogOf_cases h.prepared.based with ⟨rfl, rfl⟩ | ⟨data, signature, b, rfl, rfl, hissued, hvalid⟩
  · have hzero : plan.baseRevision = 0 := hrevision
    rw [if_pos hzero]
    exact (Ends.found rfl).bind (Ends.pure _)
  · have hpos : 0 < b.revision := (uint_revision hvalid).1
    have hne : plan.baseRevision ≠ 0 := by
      rw [hrevision]
      exact Nat.pos_iff_ne_zero.mp hpos
    have hlater : r.now ≤ now := by
      have hfloor : (floorOf L s).time = if plan.baseRevision = 0 then 0 else r.now := by
        rw [floorOf, h.floor]
        rfl
      rw [if_neg hne] at hfloor
      omega
    rw [if_neg hne]
    have hdata := h.saved.base data rfl
    have hsig := h.saved.baseSig signature rfl
    apply (protect_ends hdata).bind
    apply (protect_ends hsig).bind
    apply (readSaved_ends hdata (h.prepared.fitsData data rfl)).bind
    apply (readSaved_ends hsig (h.prepared.fitsSig signature rfl)).bind
    have hbased : catalogOf L (some data, some signature) now = some (some b) := by
      apply catalogOf_later h.prepared.based
      rintro _ ⟨⟩
      exact Nat.le_trans hissued hlater
    exact (Ends.found hbased).bind (Ends.pure _)

theorem replace_ends {existing : Option Bytes} (h : s.remote a = existing) :
    ∃ s', Ends (replace a d existing) s () s' ∧ s'.remote a = some d ∧ ∀ b, b ≠ a → s'.remote b = s.remote b := by
  unfold replace
  split
  next hsame => exact ⟨s, Ends.pure _, h.trans hsame, fun _ _ => rfl⟩
  next => exact ⟨s.put a d, Ends.write _, put_same a d, fun _ hb => put_other d hb⟩

theorem fixedPair_mixture (hprepared : Prepared L r plan base pair)
    (hmixture : Mixture (s.remote .current, s.remote .currentSig) pair (some (dataOf L plan), some (signatureOf L plan)))
    (hdata : fits L (dataOf L plan) 65535) (hsig : fits L (signatureOf L plan) 384) :
    Ends (fixedPair L) s (s.remote .current, s.remote .currentSig) s := by
  apply fixedPair_ends
  · intro d hd
    rcases hmixture.1 with hold | hnew
    · exact hprepared.fitsData d (hold.symm.trans hd)
    · cases hnew.symm.trans hd
      exact hdata
  · intro d hd
    rcases hmixture.2 with hold | hnew
    · exact hprepared.fitsSig d (hold.symm.trans hd)
    · cases hnew.symm.trans hd
      exact hsig

theorem replaceFixed_ends (now : Nat) (hprepared : Prepared L r plan base pair)
    (hmixture : Mixture (s.remote .current, s.remote .currentSig) pair (some (dataOf L plan), some (signatureOf L plan)))
    (hdata : fits L (dataOf L plan) 65535) (hsig : fits L (signatureOf L plan) 384) :
    ∃ s', Ends (replaceFixed L (again r now) plan pair (dataOf L plan) (signatureOf L plan)) s () s' ∧
      s'.remote .current = some (dataOf L plan) ∧ s'.remote .currentSig = some (signatureOf L plan) := by
  have hcheckpoint : (again r now).checkpointLater = some plan.sourceCheckpoint := by
    have hbuilt := hprepared.built
    simp only [rebuild, build, Option.bind_eq_bind, Option.bind_eq_some_iff, Option.pure_def, Option.some.injEq] at hbuilt
    obtain ⟨_, _, _, _, _, _, _, _, _, _, _, _, _, _, checkpoint, hcheckpoint, hplan⟩ := hbuilt
    rw [← hplan]
    exact hcheckpoint
  obtain ⟨s₁, hends₁, hcurrent₁, hother₁⟩ := replace_ends (s := s) (a := .current) (d := dataOf L plan) rfl
  obtain ⟨s₂, hends₂, hsig₂, hother₂⟩ := replace_ends (s := s₁) (a := .currentSig) (d := signatureOf L plan)
    (hother₁ .currentSig (by simp))
  have hcurrent₂ : s₂.remote .current = some (dataOf L plan) := by
    rw [hother₂ .current (by simp)]
    exact hcurrent₁
  refine ⟨s₂, ?_, hcurrent₂, hsig₂⟩
  apply (fixedPair_mixture hprepared hmixture hdata hsig).bind
  apply (Ends.check hmixture).bind
  apply (Ends.check hcheckpoint).bind
  apply hends₁.bind
  apply hends₂.bind
  have hfinal : Ends (fixedPair L) s₂ (some (dataOf L plan), some (signatureOf L plan)) s₂ := by
    rw [← hcurrent₂, ← hsig₂]
    apply fixedPair_ends
    · intro d hd
      cases hcurrent₂.symm.trans hd
      exact hdata
    · intro d hd
      cases hsig₂.symm.trans hd
      exact hsig
  exact hfinal.bind (Ends.check rfl)

theorem resumes (hL : Documented L) (h : Held L r plan base pair s) (htime : (floorOf L s).time ≤ now)
    (hissued : plan.catalog.issuedAt ≤ now) (hexpires : now < plan.catalog.expiresAt)
    (hfresh : ∀ item ∈ plan.reports, FreshAt L r now item.path) :
    ∃ summary s', Ends (publish L (again r now)) s summary s' ∧ s'.remote .current = some (dataOf L plan) ∧
      s'.remote .currentSig = some (signatureOf L plan) ∧ (floorOf L s').pending = none := by
  have hvalid : validateCatalog plan.catalog L.keyId now := validateCatalog_later h.prepared.valid hissued hexpires
  have hdata : fits L (dataOf L plan) 65535 := hL.size_dumps _ _ hvalid.1
  have hsig : fits L (signatureOf L plan) 384 := hL.size_sign _
  have hfloor : floorOf L s = pendingFloorOf L r plan := by
    rw [floorOf, h.floor]
    rfl
  have hbuilt : rebuild L (again r now) plan base pair = some plan := by
    apply build_later h.prepared.built _ hvalid
    intro path hpath
    obtain ⟨item, hitem, rfl⟩ := List.mem_map.mp hpath
    exact hfresh item hitem
  obtain ⟨s', hreplaced, hcurrent, hcurrentSig⟩ := replaceFixed_ends now h.prepared h.mixture hdata hsig
  refine ⟨⟨plan.catalog.revision, L.digest (dataOf L plan), plan.catalog.stable⟩,
    s'.setFloor (publishedFloor L plan.catalog.revision now (dataOf L plan)), ?_, hcurrent, hcurrentSig, rfl⟩
  obtain ⟨hidentity, hreports, hpaths, huint, _⟩ := h.prepared.reviewable
  apply (Ends.found (a := plan) h.prepared.read).bind
  apply (Ends.check ⟨hidentity, hreports, hpaths, huint, hissued⟩).bind
  apply Ends.mayRaise.bind
  apply (readFloor_ends h.floor h.valid).bind
  rw [← hfloor]
  apply (Ends.check htime).bind
  have hancestry : Ends (ancestry L plan (floorOf L s) now) s (base, pair) s := by
    rw [ancestry, h.pending]
    exact savedBase_ends h htime
  apply hancestry.bind
  apply (Ends.found hbuilt).bind
  apply (Ends.check ⟨rfl, h.prepared.clean⟩).bind
  apply Ends.mayRaise.bind
  apply (Ends.check hvalid).bind
  have hseen : Ends (checkFixed L (floorOf L s) pair (dataOf L plan) (signatureOf L plan)) s () s := by
    apply (fixedPair_mixture h.prepared h.mixture hdata hsig).bind
    rw [h.pending]
    exact Ends.check ⟨rfl, h.mixture⟩
  apply hseen.bind
  apply (Ends.forM fun item hitem => archiveReport_ends (h.archived.reports item hitem)).bind
  apply (immutable_ends h.archived.data hdata.1).bind
  apply (immutable_ends h.archived.signature hsig.1).bind
  rw [h.pending]
  have hstaged : Ends (checkStaged L plan.catalog.revision (dataOf L plan) (signatureOf L plan)) s () s := by
    apply (readSaved_ends h.saved.catalog hdata).bind
    apply (readSaved_ends h.saved.catalogSig hsig).bind
    exact Ends.check ⟨rfl, rfl⟩
  apply hstaged.bind
  apply hreplaced.bind
  apply (Ends.check ⟨plan.catalog, hL.loads_dumps _, hvalid⟩).bind
  have hfinish : Ends (writeFloor (publishedFloor L plan.catalog.revision now (dataOf L plan))) s' ()
      (s'.setFloor (publishedFloor L plan.catalog.revision now (dataOf L plan))) := (Ends.write _).bind Ends.mayRaise
  exact hfinish.bind (Ends.pure _)

end Resuming

section Histories

def history (L : Libraries Bytes Digest) (runs : List (Run Bytes Digest × List Cut)) (s : Site Bytes Digest) :
    Site Bytes Digest :=
  runs.foldl (fun s x => siteAfter (publish L x.1) x.2 s) s

def Start (L : Libraries Bytes Digest) (s : Site Bytes Digest) : Prop := (floorOf L s).pending = none ∧ s.uploads = []

theorem run_moves (hL : Documented L) (r : Run Bytes Digest) (cuts : List Cut) (s : Site Bytes Digest) :
    Moves L r s (siteAfter (publish L r) cuts s) := (publish_moves hL r s).site cuts

theorem history_floorUp (hL : Documented L) (runs : List (Run Bytes Digest × List Cut)) (s : Site Bytes Digest) :
    FloorUp (L := L) s (history L runs s) := by
  induction runs generalizing s with
  | nil => exact ⟨Nat.le_refl _, Nat.le_refl _⟩
  | cons x runs ih =>
      have hfirst := Moves.floorUp (run_moves hL x.1 x.2 s)
      have hrest := ih (siteAfter (publish L x.1) x.2 s)
      exact ⟨Nat.le_trans hfirst.1 hrest.1, Nat.le_trans hfirst.2 hrest.2⟩

theorem history_once (hL : Documented L) (runs : List (Run Bytes Digest × List Cut)) (h : Once L s) :
    Once L (history L runs s) := by
  induction runs generalizing s with
  | nil => exact h
  | cons x runs ih => exact ih (Moves.once hL (run_moves hL x.1 x.2 s) h)

theorem history_resumable (hL : Documented L) (runs : List (Run Bytes Digest × List Cut))
    (before : List (Run Bytes Digest)) (h : Resumable L before s) : Resumable L (before ++ runs.map Prod.fst) (history L runs s) := by
  induction runs generalizing s before with
  | nil =>
      rw [List.map_nil, List.append_nil]
      exact h
  | cons x runs ih =>
      have hrest := ih _ (Moves.resumable (run_moves hL x.1 x.2 s) h)
      rw [List.append_assoc] at hrest
      exact hrest

/-- What survives an interruption of a publication. A pending plan can be resumed until it expires, as long as the
clock is not behind it and the acceptance reports it rests on are still fresh. -/
theorem publication_survives (hL : Documented L) (hstart : Start L s) (runs : List (Run Bytes Digest × List Cut)) :
    (∀ later, FloorUp (L := L) (history L runs s) (history L later (history L runs s))) ∧
    (∀ a a' d d', (a, d) ∈ (history L runs s).uploads → (a', d') ∈ (history L runs s).uploads → IsCatalog a → IsCatalog a' →
      ∃ c c', L.loads d = some c ∧ L.loads d' = some c' ∧ (c.revision = c'.revision → d = d')) ∧
    ∀ p, (floorOf L (history L runs s)).pending = some p →
      (∀ r cuts, OnlyPending L r p (history L runs s) (siteAfter (publish L r) cuts (history L runs s))) ∧
      ∃ r ∈ runs.map Prod.fst, ∃ plan, r.plan = some plan ∧
        p = ⟨plan.catalog.revision, L.digest (dataOf L plan), checksumOf L plan⟩ ∧
        ∀ now, (floorOf L (history L runs s)).time ≤ now → plan.catalog.issuedAt ≤ now → now < plan.catalog.expiresAt →
          (∀ item ∈ plan.reports, FreshAt L r now item.path) →
          ∃ summary s', Ends (publish L (again r now)) (history L runs s) summary s' ∧
            s'.remote .current = some (dataOf L plan) ∧ s'.remote .currentSig = some (signatureOf L plan) ∧
            (floorOf L s').pending = none := by
  have honce : Once L (history L runs s) := by
    apply history_once hL
    intro a d hmem
    rw [hstart.2] at hmem
    cases hmem
  refine ⟨fun later => history_floorUp hL later _, ?_, ?_⟩
  · intro a a' d d' hmem hmem' hcatalog hcatalog'
    obtain ⟨c, hloads, harchive, _⟩ := honce a d hmem hcatalog
    obtain ⟨c', hloads', harchive', _⟩ := honce a' d' hmem' hcatalog'
    refine ⟨c, c', hloads, hloads', ?_⟩
    intro hsame
    rw [hsame, harchive'] at harchive
    exact (Option.some.inj harchive).symm
  · intro p hp
    refine ⟨fun r cuts => Moves.onlyPending (run_moves hL r cuts _) hp, ?_⟩
    have hresumable := history_resumable hL runs [] (.inl hstart.1)
    rw [List.nil_append] at hresumable
    rcases hresumable with hidle | ⟨r, hr, plan, base, pair, hheld⟩
    · rw [hidle] at hp
      cases hp
    · refine ⟨r, hr, plan, hheld.prepared.read, ?_, ?_⟩
      · exact Option.some.inj (hp.symm.trans hheld.pending)
      · intro now htime hissued hexpires hfresh
        exact resumes hL hheld htime hissued hexpires hfresh

end Histories

section Stale

/-- Files by what they say. -/
inductive Content where
  | catalog (c : Catalog Nat)
  | report (r : Report Nat)
  | plan (p : Plan Nat)
  | signature (data : Content)
  deriving DecidableEq

def Content.digest : Content → Nat
  | .catalog c => 4 * c.revision + 1
  | .report r => 4 * r.runId + 2
  | .plan p => 4 * p.catalog.revision + 3
  | .signature data => 4 * (data.digest + 1)

def libraries : Libraries Content Nat where
  size
    | .signature _ => 384
    | _ => 900
  digest := Content.digest
  keyId := 7
  verify data signature := signature = .signature data
  sign := .signature
  dumps := .catalog
  loads
    | .catalog c => some c
    | _ => none
  report
    | .report r => some r
    | _ => none
  trialPlan _ := none
  canonical := .plan

theorem libraries_documented : Documented libraries where
  loads_dumps _ := rfl
  size_dumps _ _ _ := ⟨Nat.succ_pos _, (by decide : 900 ≤ 65535)⟩
  size_sign _ := ⟨Nat.succ_pos _, Nat.le_refl _⟩
  canonical_inj _ _ h := Content.plan.inj h

def issuedAt : Nat := 1700000000

def older : Endpoint Nat := ⟨"1.13.7".toList, 101, 102⟩

def newer : Endpoint Nat := ⟨"1.13.8".toList, 103, 104⟩

/-- A report that was ten days old when its plan was made. -/
def report : Report Nat where
  schema := 1
  kind := "l4tools-pipeline-compatibility".toList
  keyId := 7
  runId := 11
  terminalId := 773
  tenantId := 1
  arch := .x86
  platform := ⟨10, 0, 19045, .x64, 1⟩
  source := older
  target := newer
  producerName := "l4release".toList
  producerSchema := 1
  startedAt := issuedAt - 864100
  finishedAt := issuedAt - 864000
  contract := "communication-backwards-v1".toList
  reportSha256 := 105
  forward := ⟨12, 106, 102, 107, 108, "SUCCESS".toList, 0, newer, filetimeEpoch + (issuedAt - 864010) * 10000000⟩
  forcedRollback := ⟨13, 106, 108, 109, 110, "RESTORED".toList, 1237, older, filetimeEpoch + (issuedAt - 864005) * 10000000⟩

def reviewed : Plan Nat where
  schema := 1
  kind := .publication
  keyId := 7
  baseRevision := 0
  baseSha256 := none
  baseSignatureSha256 := none
  reports := [⟨"r".toList, (Content.report report).digest, (Content.signature (.report report)).digest⟩]
  catalog := {
    schema := 1
    keyId := 7
    revision := 1
    issuedAt := issuedAt
    expiresAt := issuedAt + ttl
    stable := none
    releases := [⟨older.version, 101, false⟩, ⟨newer.version, 103, false⟩]
    transitions := [⟨older.version, newer.version, .x86, "windows-nt-10.0.19045-x64-client".toList,
      (Content.report report).digest⟩] }
  sourceCheckpoint := ⟨"g".toList, true, 111⟩

/-- The first run of the plan: the source cannot be read any more once the plan is pending. -/
def firstRun : Run Content Nat where
  plan := some reviewed
  now := issuedAt
  evidence _ := some (.report report, .signature (.report report))
  evidenceLater _ := some (.report report, .signature (.report report))
  resolve path := path
  published version := if version = older.version then some ⟨older, older⟩ else some ⟨newer, newer⟩
  reservation := none
  trial _ := none
  checkpoint := some ⟨"g".toList, true, 111⟩
  checkpointLater := none

def emptySite : Site Content Nat := ⟨fun _ => none, none, fun _ => false, fun _ _ => none, []⟩

def pendingSite : Site Content Nat := history libraries [(firstRun, [])] emptySite

theorem emptySite_start : Start libraries emptySite := ⟨rfl, rfl⟩

theorem pendingSite_pending : (floorOf libraries pendingSite).pending =
    some ⟨1, (dataOf libraries reviewed).digest, checksumOf libraries reviewed⟩ := by decide +kernel

/-- The floor and the expiry of a pending plan do not say when it can be resumed: a first publication is refused at
a time before it was issued, and any at one where its evidence is more than two weeks old. -/
theorem resume_refused : Documented libraries ∧ Start libraries emptySite ∧
    (floorOf libraries pendingSite).pending ≠ none ∧ ∀ now ∈ [issuedAt - 1, issuedAt + 5 * 86400],
      (floorOf libraries pendingSite).time ≤ now ∧ now < reviewed.catalog.expiresAt ∧
        (publish libraries (again firstRun now) ⟨pendingSite, []⟩).1.isNone = true := by
  refine ⟨libraries_documented, emptySite_start, ?_, ?_⟩
  · rw [pendingSite_pending]
    exact Option.some_ne_none _
  · decide +kernel

theorem resumed_three_days_later : ∃ summary s', Ends (publish libraries (again firstRun (issuedAt + 3 * 86400))) pendingSite
    summary s' ∧ s'.remote .current = some (dataOf libraries reviewed) ∧
    s'.remote .currentSig = some (signatureOf libraries reviewed) ∧ (floorOf libraries s').pending = none := by
  obtain ⟨_, _, hpending⟩ := publication_survives libraries_documented emptySite_start [(firstRun, [])]
  obtain ⟨_, r, hr, plan, hread, _, hresume⟩ := hpending _ pendingSite_pending
  rw [List.map_singleton, List.mem_singleton] at hr
  subst hr
  cases hread
  apply hresume
  · change (floorOf libraries pendingSite).time ≤ _
    decide +kernel
  · decide
  · decide
  · rintro item _ _ _ _ ⟨⟩ ⟨⟩
    decide

end Stale

end EtranProcessing.Publishing.PendingPlan
