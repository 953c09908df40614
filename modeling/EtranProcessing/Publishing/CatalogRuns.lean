import EtranProcessing.Publishing.CatalogMoves

namespace EtranProcessing.Publishing.CatalogRuns

set_option linter.unusedSectionVars false

open Relation Library.Calls Library.Interruption Documents CatalogPublisher CatalogMoves

variable {Bytes Digest : Type} [DecidableEq Bytes] [DecidableEq Digest] {L : Libraries Bytes Digest}
  {r : Run Bytes Digest} {s s₀ : Site Bytes Digest}

section Reading

theorem initialFloor_valid : floorValid L (initialFloor L) := by simp [floorValid, initialFloor]

theorem readFloor_reads : Reads (readFloor L) s (fun floor => floor = floorOf L s ∧ floorValid L floor) := by
  apply Reads.mayRaise.then
  intro _ _
  apply Reads.look.then
  rintro _ rfl
  cases hfile : s.floorFile with
  | none => exact Reads.pure ⟨by simp [floorOf, hfile], initialFloor_valid⟩
  | some floor =>
      apply (Reads.check _).then
      intro _ hvalid
      exact Reads.pure ⟨by simp [floorOf, hfile], hvalid⟩

theorem get_reads (a : Artifact Digest) (limit : Nat) :
    Reads (get L a limit) s (fun o => o = s.remote a ∧ ∀ d ∈ o, fits L d limit) := by
  apply Reads.mayRaise.then
  intro _ _
  apply Reads.look.then
  rintro _ rfl
  cases hremote : s.remote a with
  | none => exact Reads.pure ⟨rfl, by simp⟩
  | some data =>
      apply (Reads.check _).then
      intro _ hfits
      refine Reads.pure ⟨rfl, ?_⟩
      rintro _ ⟨⟩
      exact hfits

theorem fixedPair_reads : Reads (fixedPair L) s (fun p => p = (s.remote .current, s.remote .currentSig) ∧
    (∀ d ∈ p.1, fits L d 65535) ∧ ∀ d ∈ p.2, fits L d 384) := by
  apply (get_reads .current 65535).then
  rintro _ ⟨rfl, hdata⟩
  apply (get_reads .currentSig 384).then
  rintro _ ⟨rfl, hsig⟩
  exact Reads.pure ⟨rfl, hdata, hsig⟩

theorem readSaved_reads (n : Nat) (name : Staged) (limit : Nat) :
    Reads (readSaved L n name limit) s (fun d => s.saved n name = some d ∧ fits L d limit) := by
  apply Reads.mayRaise.then
  intro _ _
  apply Reads.look.then
  rintro _ rfl
  apply (Reads.found _).then
  intro d hd
  apply (Reads.check _).then
  intro _ hfits
  exact Reads.pure ⟨hd, hfits⟩

theorem protect_reads (n : Nat) (name : Staged) : Reads (protect n name) s (fun _ => True) := by
  apply Reads.mayRaise.then
  intro _ _
  apply Reads.look.then
  rintro _ rfl
  exact (Reads.check _).imp fun _ _ => trivial

theorem protectDirectory_reads (n : Nat) : Reads (protectDirectory n) s (fun _ => s.directory n = true) := by
  apply Reads.mayRaise.then
  intro _ _
  apply Reads.look.then
  rintro _ rfl
  exact Reads.check _

/-- What is known of the base of a plan, and of the plan that is pending. -/
structure Based (L : Libraries Bytes Digest) (reviewed : Plan Digest) (floor : Floor Digest) (now : Nat)
    (s : Site Bytes Digest) (x : Option (Catalog Digest) × Pair Bytes) : Prop where
  based : catalogOf L x.2 now = some x.1
  fitsData : ∀ d ∈ x.2.1, fits L d 65535
  fitsSig : ∀ d ∈ x.2.2, fits L d 384
  idle : floor.pending = none → (s.remote .current, s.remote .currentSig) = x.2 ∧ floor.revision ≤ revisionOf x.1
  pending : ∀ p, floor.pending = some p → checksumOf L reviewed = p.planSha256 ∧ reviewed.catalog.revision = p.revision

theorem baseOf_reads (reviewed : Plan Digest) (floor : Floor Digest) (now : Nat) (hidle : floor.pending = none) :
    Reads (baseOf L floor now) s (Based L reviewed floor now s) := by
  apply (Reads.check _).then
  intro _ _
  apply fixedPair_reads.then
  rintro pair ⟨rfl, hdata, hsig⟩
  apply (Reads.found _).then
  intro catalog hcatalog
  apply (Reads.check _).then
  intro _ _
  have hbased (h : floor.revision ≤ revisionOf catalog) :
      Based L reviewed floor now s (catalog, (s.remote .current, s.remote .currentSig)) :=
    ⟨hcatalog, hdata, hsig, fun _ => ⟨rfl, h⟩, fun p hp => by rw [hidle] at hp; cases hp⟩
  cases catalog with
  | none =>
      apply (Reads.check _).then
      intro _ hzero
      exact Reads.pure (hbased (Nat.le_of_eq hzero))
  | some base =>
      apply (Reads.check _).then
      rintro _ ⟨hle, _⟩
      exact Reads.pure (hbased hle)

theorem savedBase_reads (reviewed : Plan Digest) (floor : Floor Digest) (p : Pending Digest) (now : Nat)
    (hpending : floor.pending = some p) :
    Reads (savedBase L reviewed p now) s (Based L reviewed floor now s) := by
  apply (Reads.check _).then
  rintro _ ⟨hsum, hrevision⟩
  have hbased {x : Option (Catalog Digest) × Pair Bytes} (h : catalogOf L x.2 now = some x.1)
      (hdata : ∀ d ∈ x.2.1, fits L d 65535) (hsig : ∀ d ∈ x.2.2, fits L d 384) : Based L reviewed floor now s x := by
    refine ⟨h, hdata, hsig, fun hidle => ?_, fun q hq => ?_⟩
    · rw [hpending] at hidle
      cases hidle
    · cases hpending.symm.trans hq
      exact ⟨hsum.symm, hrevision.symm⟩
  apply (protectDirectory_reads _).then
  intro _ _
  apply (protect_reads _ _).then
  intro _ _
  apply (protect_reads _ _).then
  intro _ _
  split
  next =>
    apply (Reads.found _).then
    intro base hbase
    exact Reads.pure (hbased hbase (by simp) (by simp))
  next =>
    apply (protect_reads _ _).then
    intro _ _
    apply (protect_reads _ _).then
    intro _ _
    apply (readSaved_reads _ _ _).then
    rintro data ⟨_, hdata⟩
    apply (readSaved_reads _ _ _).then
    rintro signature ⟨_, hsig⟩
    apply (Reads.found _).then
    intro base hbase
    exact Reads.pure (hbased hbase (by simpa using hdata) (by simpa using hsig))

theorem ancestry_reads (reviewed : Plan Digest) (floor : Floor Digest) (now : Nat) :
    Reads (ancestry L reviewed floor now) s (Based L reviewed floor now s) := by
  unfold ancestry
  cases hpending : floor.pending with
  | none => exact baseOf_reads reviewed floor now hpending
  | some p => exact savedBase_reads reviewed floor p now hpending

theorem checkFixed_reads (floor : Floor Digest) (pair : Pair Bytes) (data signature : Bytes) :
    Reads (checkFixed L floor pair data signature) s (fun _ => True) := by
  apply fixedPair_reads.then
  intro seen _
  cases floor.pending with
  | none | some p => exact (Reads.check _).imp fun _ _ => trivial

theorem checkStaged_reads (n : Nat) (data signature : Bytes) : Reads (checkStaged L n data signature) s
    (fun _ => s.saved n .catalog = some data ∧ s.saved n .catalogSig = some signature) := by
  apply (readSaved_reads _ _ _).then
  rintro savedData ⟨hdata, _⟩
  apply (readSaved_reads _ _ _).then
  rintro savedSig ⟨hsig, _⟩
  apply (Reads.check _).imp
  rintro _ ⟨rfl, rfl⟩
  exact ⟨hdata, hsig⟩

end Reading

section Planning

theorem guard_some {p : Prop} [Decidable p] {u : Unit} : (guard p : Option Unit) = some u ↔ p := by
  unfold guard
  by_cases h : p
  · simp [h, pure]
  · simp [h, failure, Alternative.failure]

theorem build_facts {evidence : List Text} {base : Option (Catalog Digest)} {pair : Pair Bytes} {issued now : Nat}
    {promote : Bool} {plan : Plan Digest} (h : build L r evidence base pair issued now promote = some plan) :
    plan.baseRevision = revisionOf base ∧ plan.baseSha256 = pair.1.map L.digest ∧
      revisionOf base < plan.catalog.revision := by
  simp only [build, Option.bind_eq_bind, Option.bind_eq_some_iff, Option.pure_def, Option.some.injEq] at h
  obtain ⟨_, _, _, _, _, _, _, _, _, _, reserved, _, _, _, _, _, rfl⟩ := h
  refine ⟨rfl, rfl, ?_⟩
  exact Nat.lt_succ_of_le (Nat.le_max_left _ _)

theorem catalogOf_cases {pair : Pair Bytes} {now : Nat} {base : Option (Catalog Digest)}
    (h : catalogOf L pair now = some base) : (pair = (none, none) ∧ base = none) ∨
      ∃ data signature b, pair = (some data, some signature) ∧ base = some b ∧ b.issuedAt ≤ now ∧
        validateCatalog b L.keyId b.issuedAt := by
  unfold catalogOf at h
  split at h
  next => exact .inl ⟨rfl, (Option.some.inj h).symm⟩
  next data signature =>
    simp only [Option.bind_eq_bind, Option.bind_eq_some_iff, guard_some, Option.pure_def, Option.some.injEq] at h
    obtain ⟨_, _, b, _, _, hissued, _, hvalid, rfl⟩ := h
    exact .inr ⟨data, signature, b, rfl, rfl, hissued.2, hvalid⟩
  next => cases h

theorem uint_revision {c : Catalog Digest} {keyId : Digest} {now : Nat} (h : validateCatalog c keyId now) :
    uint c.revision (2 ^ 64 - 1) := h.1.2.2.1

variable {plan : Plan Digest} {base : Option (Catalog Digest)} {pair : Pair Bytes}

theorem pendingFloor_valid (h : Prepared L r plan base pair) : floorValid L (pendingFloorOf L r plan) := by
  obtain ⟨hrevision, hsha, hadvances⟩ := build_facts h.built
  have hplan := uint_revision h.valid
  have hnow := h.valid.2.1
  refine ⟨⟨rfl, rfl⟩, ?_, ?_, ?_, ?_, ?_⟩
  · change plan.baseRevision < 2 ^ 64
    have := hplan.2
    omega
  · change (if plan.baseRevision = 0 then 0 else r.now) ≤ maxTime
    split
    · exact Nat.zero_le _
    · exact hnow.2
  · change plan.baseRevision ≠ 0 → plan.baseSha256 ≠ none ∧ 0 < if plan.baseRevision = 0 then 0 else r.now
    intro hne
    rw [if_neg hne, hsha]
    rcases catalogOf_cases h.based with ⟨_, rfl⟩ | ⟨data, signature, b, rfl, _, _, _⟩
    · exact absurd hrevision hne
    · exact ⟨by simp, hnow.1⟩
  · change plan.baseRevision = 0 → plan.baseSha256 = none ∧ (if plan.baseRevision = 0 then 0 else r.now) = 0
    intro hzero
    rw [if_pos hzero, hsha]
    rcases catalogOf_cases h.based with ⟨rfl, _⟩ | ⟨data, signature, b, _, rfl, _, hvalid⟩
    · exact ⟨rfl, rfl⟩
    · have hpos : 0 < b.revision := (uint_revision hvalid).1
      have hb : plan.baseRevision = b.revision := hrevision
      omega
  · rintro _ ⟨⟩
    refine ⟨hplan, ?_⟩
    change plan.baseRevision < plan.catalog.revision
    omega

theorem pendingFloor_time {floor : Floor Digest} (hvalid : floorValid L floor) (htime : floor.time ≤ r.now)
    (hrevision : floor.revision ≤ plan.baseRevision) : floor.time ≤ (pendingFloorOf L r plan).time := by
  change floor.time ≤ if plan.baseRevision = 0 then 0 else r.now
  split
  next hzero =>
    rw [(hvalid.2.2.2.2.1 (by omega)).2]
  next => exact htime

end Planning

section Archiving

/-- What a run has changed while it fills the archive. -/
structure Archiving (L : Libraries Bytes Digest) (r : Run Bytes Digest) (s₀ s : Site Bytes Digest) : Prop where
  moves : Moves L r s₀ s
  floorFile : s.floorFile = s₀.floorFile
  saved : s.saved = s₀.saved
  fixed : ∀ a, Fixed a → s.remote a = s₀.remote a

theorem Archiving.refl : Archiving L r s s := ⟨.refl, rfl, rfl, fun _ _ => rfl⟩

theorem immutable_archiving {a : Artifact Digest} {d : Bytes} (hfixed : ¬ Fixed a)
    (hcatalog : ∀ n, a = .archive n → ∃ c, d = L.dumps c ∧ c.revision = n) (h : Archiving L r s₀ s) :
    Surely (immutable L a d) s (fun _ s' => Archiving L r s₀ s' ∧ s'.remote a = some d ∧
      ∀ b v, s.remote b = some v → s'.remote b = some v) (Moves L r s₀) := by
  apply (get_reads a (L.size d)).bind h.moves
  rintro _ ⟨rfl, _⟩
  have hverify {s' : Site Bytes Digest} (h' : Archiving L r s₀ s')
      (hkept : ∀ b v, s.remote b = some v → s'.remote b = some v) :
      Surely (get L a (L.size d) >>= fun fetched => check (fetched = some d)) s' (fun _ s'' => Archiving L r s₀ s'' ∧
        s''.remote a = some d ∧ ∀ b v, s.remote b = some v → s''.remote b = some v) (Moves L r s₀) := by
    apply (get_reads a (L.size d)).bind h'.moves
    rintro _ ⟨rfl, _⟩
    exact Surely.check (fun hsame => ⟨h', hsame, hkept⟩) fun _ => h'.moves
  cases hremote : s.remote a with
  | none =>
      have hmove : Moves L r s₀ (s.put a d) := h.moves.tail (.archive a d hfixed hremote hcatalog)
      have hput : Archiving L r s₀ (s.put a d) := by
        refine ⟨hmove, h.floorFile, h.saved, fun b hb => ?_⟩
        rw [put_other]
        · exact h.fixed b hb
        · rintro rfl
          exact hfixed hb
      apply Surely.write_bind h.moves hmove
      exact hverify hput fun b v => put_kept hremote
  | some previous =>
      apply (Reads.check _).bind h.moves
      intro _ _
      exact hverify h fun b v hv => hv

theorem archiveReport_archiving (item : ReportRef Digest) (h : Archiving L r s₀ s) :
    Surely (archiveReport L r item) s (fun _ s' => Archiving L r s₀ s' ∧ ReportArchived L r s' item ∧
      ∀ b v, s.remote b = some v → s'.remote b = some v) (Moves L r s₀) := by
  apply (Reads.found _).bind h.moves
  rintro ⟨reportData, reportSig⟩ hread
  apply (Reads.check _).bind h.moves
  rintro _ ⟨hdata, hsig⟩
  apply Surely.bind (immutable_archiving id (by simp) h)
  rintro _ s₁ ⟨h₁, hevidence, hkept₁⟩
  apply Surely.imp (immutable_archiving id (by simp) h₁)
  rintro _ s₂ ⟨h₂, hevidenceSig, hkept₂⟩
  exact ⟨h₂, ⟨reportData, reportSig, hread, hdata, hsig, hkept₂ _ _ hevidence, hevidenceSig⟩,
    fun b v hv => hkept₂ b v (hkept₁ b v hv)⟩

theorem archive_archiving (plan : Plan Digest) {α : Type} {rest : Call (Cuttable (Site Bytes Digest)) α}
    {after : α → Site Bytes Digest → Prop}
    (hrest : ∀ s, Archiving L r s₀ s → Archived L r plan s → Surely rest s after (Moves L r s₀)) :
    Surely (plan.reports.forM (archiveReport L r) >>= fun _ =>
      immutable L (.archive plan.catalog.revision) (dataOf L plan) >>= fun _ =>
      immutable L (.archiveSig plan.catalog.revision) (signatureOf L plan) >>= fun _ => rest) s₀ after (Moves L r s₀) := by
  apply Surely.bind (Surely.forM (Archiving L r s₀) (fun item s => ReportArchived L r s item) Archiving.refl ?_)
  · rintro _ s₁ ⟨h₁, hreports⟩
    apply Surely.bind (immutable_archiving id ?_ h₁)
    · rintro _ s₂ ⟨h₂, hdata, hkept₂⟩
      apply Surely.bind (immutable_archiving id (by simp) h₂)
      rintro _ s₃ ⟨h₃, hsig, hkept₃⟩
      refine hrest s₃ h₃ ⟨fun item hitem => ?_, hkept₃ _ _ hdata, hsig⟩
      exact reportArchived_kept (hreports item hitem) fun b v _ hv => hkept₃ b v (hkept₂ b v hv)
    · intro n hn
      exact ⟨plan.catalog, rfl, Artifact.archive.inj hn⟩
  · intro item _ s hs
    apply Surely.imp (archiveReport_archiving item hs)
    rintro _ s' ⟨h', hitem, hkept⟩
    exact ⟨h', hitem, fun other _ hother => reportArchived_kept hother fun b v _ => hkept b v⟩

end Archiving

section Beginning

/-- What a run has changed while it stages the files of a plan. -/
structure Staging (L : Libraries Bytes Digest) (r : Run Bytes Digest) (n : Nat) (s₀ s₁ s : Site Bytes Digest) : Prop where
  moves : Moves L r s₀ s
  floorFile : s.floorFile = s₁.floorFile
  remote : s.remote = s₁.remote
  directory : s.directory n = true

variable {n : Nat} {s₁ : Site Bytes Digest}

theorem stage_staging (entry : Staged × Option Bytes) (hidle : (floorOf L s₁).pending = none)
    (h : Staging L r n s₀ s₁ s) : Surely (stage L n entry) s (fun _ s' => Staging L r n s₀ s₁ s' ∧
      (∀ d ∈ entry.2, s'.saved n entry.1 = some d) ∧
      ∀ name v, s.saved n name = some v → s'.saved n name = some v) (Moves L r s₀) := by
  obtain ⟨name, value⟩ := entry
  cases value with
  | none => exact Surely.pure ⟨h, by simp, fun _ _ hv => hv⟩
  | some value =>
      apply Reads.look.bind h.moves
      rintro _ rfl
      cases hsaved : s.saved n name with
      | some previous =>
          simp only
          apply (protect_reads _ _).bind h.moves
          intro _ _
          apply (readSaved_reads _ _ _).bind h.moves
          rintro data ⟨hdata, _⟩
          refine Surely.check ?_ fun _ => h.moves
          rintro rfl
          refine ⟨h, ?_, fun _ _ hv => hv⟩
          rintro _ ⟨⟩
          exact hdata
      | none =>
          have hnone : (floorOf L s).pending = none := by
            rw [floorOf, h.floorFile]
            exact hidle
          have hmoves : Moves L r s₀ (s.save n name value) := h.moves.tail (.save hnone hsaved)
          apply Surely.write_bind h.moves hmoves
          apply Surely.mayRaise hmoves
          refine ⟨⟨hmoves, h.floorFile, h.remote, h.directory⟩, ?_, fun _ _ => save_kept hsaved⟩
          rintro _ ⟨⟩
          exact save_same _ _ _

theorem beginPending_begins {plan : Plan Digest} {base : Option (Catalog Digest)} {pair : Pair Bytes}
    (hidle : (floorOf L s).pending = none) (hprepared : Prepared L r plan base pair) (harchived : Archived L r plan s)
    (hfixed : (s.remote .current, s.remote .currentSig) = pair)
    (hrevision : (floorOf L s).revision ≤ (pendingFloorOf L r plan).revision)
    (htime : (floorOf L s).time ≤ (pendingFloorOf L r plan).time) (hmoves : Moves L r s₀ s) :
    Surely (beginPending L plan pair r.now (dataOf L plan) (signatureOf L plan) (checksumOf L plan)) s
      (fun _ s' => Moves L r s₀ s' ∧ s'.floorFile = some (pendingFloorOf L r plan) ∧ Archived L r plan s' ∧
        Saved L plan pair s') (Moves L r s₀) := by
  have hdirectory := hmoves.tail (.directory plan.catalog.revision)
  apply Surely.write_bind hmoves hdirectory
  apply (protectDirectory_reads _).bind hdirectory
  intro _ hexists
  have hstart : Staging L r plan.catalog.revision s₀ s _ := ⟨hdirectory, rfl, rfl, hexists⟩
  apply Surely.bind (Surely.forM (Staging L r plan.catalog.revision s₀ s)
    (fun entry s' => ∀ d ∈ entry.2, s'.saved plan.catalog.revision entry.1 = some d) hstart ?_)
  · rintro _ s₁ ⟨h₁, hall⟩
    have harchived₁ : Archived L r plan s₁ := by
      refine ⟨fun item hitem => reportArchived_kept (harchived.reports item hitem) ?_, ?_, ?_⟩
      · intro b v _ hv
        rw [h₁.remote]
        exact hv
      · rw [h₁.remote]
        exact harchived.data
      · rw [h₁.remote]
        exact harchived.signature
    have hsaved : Saved L plan pair s₁ :=
      ⟨h₁.directory, hall (.catalog, some _) (by simp) _ rfl, hall (.catalogSig, some _) (by simp) _ rfl,
        hall (.base, pair.1) (by simp), hall (.baseSig, pair.2) (by simp)⟩
    have hfloor : floorOf L s₁ = floorOf L s := by rw [floorOf, floorOf, h₁.floorFile]
    have hbegin : Moves L r s₀ (s₁.setFloor (pendingFloorOf L r plan)) := by
      refine h₁.moves.tail (.begin ?_ hprepared harchived₁ hsaved ?_ (pendingFloor_valid hprepared) ?_ ?_)
      · rw [hfloor]
        exact hidle
      · rw [h₁.remote]
        exact hfixed
      · rw [hfloor]
        exact hrevision
      · rw [hfloor]
        exact htime
    apply Surely.write_bind h₁.moves hbegin
    apply Surely.mayRaise hbegin
    exact ⟨hbegin, rfl, ⟨harchived₁.reports, harchived₁.data, harchived₁.signature⟩, hsaved.setFloor⟩
  · intro entry _ s' h'
    apply Surely.imp (stage_staging entry hidle h')
    rintro _ s'' ⟨h'', hentry, hkept⟩
    exact ⟨h'', hentry, fun other _ hother d hd => hkept _ _ (hother d hd)⟩

end Beginning

section Publishing

variable {plan : Plan Digest} {p : Pending Digest}

theorem Entitled.put_fixed {a : Artifact Digest} {d : Bytes} (ha : Fixed a) (h : Entitled L r plan p s) :
    Entitled L r plan p (s.put a d) :=
  ⟨h.pending, h.read, h.checksum, h.revision, h.catalog, h.catalogSig, put_fixed_kept ha id h.archive, h.time, h.advances⟩

theorem replace_entitled {a : Artifact Digest} {wanted : Bytes} (existing : Option Bytes) (ha : Fixed a)
    (hmove : ∀ s, Entitled L r plan p s → Move L r s (s.put a wanted)) (hmoves : Moves L r s₀ s)
    (h : Entitled L r plan p s) : Surely (replace a wanted existing) s
      (fun _ s' => Moves L r s₀ s' ∧ Entitled L r plan p s') (Moves L r s₀) := by
  unfold replace
  split
  next => exact Surely.pure ⟨hmoves, h⟩
  next =>
    have hput := hmoves.tail (hmove s h)
    exact Surely.write hmoves hput ⟨hput, Entitled.put_fixed ha h⟩

theorem replaceFixed_entitled (pair : Pair Bytes) (hmoves : Moves L r s₀ s) (h : Entitled L r plan p s) :
    Surely (replaceFixed L r plan pair (dataOf L plan) (signatureOf L plan)) s (fun _ s' => Moves L r s₀ s' ∧
      Entitled L r plan p s' ∧ s'.remote .current = some (dataOf L plan) ∧
      s'.remote .currentSig = some (signatureOf L plan)) (Moves L r s₀) := by
  have hcurrent : Fixed (Artifact.current : Artifact Digest) := trivial
  have hcurrentSig : Fixed (Artifact.currentSig : Artifact Digest) := trivial
  apply fixedPair_reads.bind hmoves
  intro observed _
  apply (Reads.check _).bind hmoves
  intro _ _
  apply (Reads.check _).bind hmoves
  intro _ _
  apply Surely.bind (replace_entitled observed.1 hcurrent (fun _ => .replaceData plan p) hmoves h)
  rintro _ s₁ ⟨hmoves₁, h₁⟩
  apply Surely.bind (replace_entitled observed.2 hcurrentSig (fun _ => .replaceSig plan p) hmoves₁ h₁)
  rintro _ s₂ ⟨hmoves₂, h₂⟩
  apply fixedPair_reads.bind hmoves₂
  rintro _ ⟨rfl, _, _⟩
  refine Surely.check ?_ fun _ => hmoves₂
  intro hfinal
  exact ⟨hmoves₂, h₂, congrArg Prod.fst hfinal, congrArg Prod.snd hfinal⟩

theorem publish_moves (hL : Documented L) (r : Run Bytes Digest) (s : Site Bytes Digest) :
    Surely (publish L r) s (fun _ => Moves L r s) (Moves L r s) := by
  apply (Reads.found _).bind .refl
  intro reviewed hread
  apply (Reads.check _).bind .refl
  intro _ hreviewable
  apply Reads.mayRaise.bind .refl
  intro _ _
  apply readFloor_reads.bind .refl
  rintro floor ⟨rfl, hvalid⟩
  apply (Reads.check _).bind .refl
  intro _ htime
  apply (ancestry_reads reviewed (floorOf L s) r.now).bind .refl
  rintro ⟨base, pair⟩ hbased
  apply (Reads.found _).bind .refl
  intro actual hbuilt
  apply (Reads.check _).bind .refl
  rintro _ ⟨hsame, hclean⟩
  have heq := hL.canonical_inj _ _ hsame
  subst reviewed
  apply Reads.mayRaise.bind .refl
  intro _ _
  apply (Reads.check _).bind .refl
  intro _ hcatalog
  have hprepared : Prepared L r actual base pair :=
    ⟨hread, hreviewable, hbased.based, hbuilt, hclean, hcatalog, hbased.fitsData, hbased.fitsSig⟩
  have hfacts := build_facts hbuilt
  apply (checkFixed_reads _ _ _ _).bind .refl
  intro _ _
  apply archive_archiving actual
  intro s₁ h₁ harchived
  have hfloor : floorOf L s₁ = floorOf L s := by rw [floorOf, floorOf, h₁.floorFile]
  -- what is left once the plan is pending, begun here or before
  have hrest {s₂ : Site Bytes Digest} {p : Pending Digest} (hmoves : Moves L r s s₂) (hentitled : Entitled L r actual p s₂) :
      Surely (replaceFixed L r actual pair (dataOf L actual) (signatureOf L actual) >>= fun _ =>
        check (∃ value ∈ L.loads (dataOf L actual), validateCatalog value L.keyId r.now) >>= fun _ =>
        writeFloor (publishedFloor L actual.catalog.revision r.now (dataOf L actual)) >>= fun _ =>
        pure (⟨actual.catalog.revision, L.digest (dataOf L actual), actual.catalog.stable⟩ : Summary Digest)) s₂
        (fun _ => Moves L r s) (Moves L r s) := by
    apply Surely.bind (replaceFixed_entitled pair hmoves hentitled)
    rintro _ s₃ ⟨hmoves₃, hentitled₃, hdata, hsig⟩
    apply (Reads.check _).bind hmoves₃
    intro _ _
    have hfinish := hmoves₃.tail (.finish actual p hentitled₃ hdata hsig)
    rw [← hentitled.revision] at hfinish
    have hwrite : Surely (writeFloor (publishedFloor L actual.catalog.revision r.now (dataOf L actual))) s₃
        (fun _ => Moves L r s) (Moves L r s) := by
      apply Surely.write_bind hmoves₃ hfinish
      exact Surely.mayRaise hfinish hfinish
    exact Surely.bind hwrite fun _ _ hdone => Surely.pure hdone
  cases hpending : (floorOf L s).pending with
  | none =>
      obtain ⟨hfixed, hrevision⟩ := hbased.idle hpending
      rw [← hfacts.1] at hrevision
      have hfixed₁ : (s₁.remote .current, s₁.remote .currentSig) = pair := by
        rw [h₁.fixed .current trivial, h₁.fixed .currentSig trivial]
        exact hfixed
      have htime₁ : (floorOf L s).time ≤ (pendingFloorOf L r actual).time := pendingFloor_time hvalid htime hrevision
      rw [← hfloor] at hpending hrevision htime₁
      apply Surely.bind (beginPending_begins hpending hprepared harchived hfixed₁ hrevision htime₁ h₁.moves)
      rintro _ s₂ ⟨hmoves₂, hfloor₂, harchived₂, hsaved⟩
      have hfloorOf : floorOf L s₂ = pendingFloorOf L r actual := by rw [floorOf, hfloor₂]; rfl
      apply hrest hmoves₂ (p := ⟨actual.catalog.revision, L.digest (dataOf L actual), checksumOf L actual⟩)
      refine ⟨?_, hread, rfl, rfl, hsaved.catalog, hsaved.catalogSig, harchived₂.data, ?_, ?_⟩
      · rw [hfloorOf]
        rfl
      · rw [hfloorOf]
        change (if actual.baseRevision = 0 then 0 else r.now) ≤ r.now
        split
        · exact Nat.zero_le _
        · exact Nat.le_refl _
      · rw [hfloorOf]
        change actual.baseRevision < actual.catalog.revision
        rw [hfacts.1]
        exact hfacts.2.2
  | some p =>
      obtain ⟨hchecksum, hrevision⟩ := hbased.pending p hpending
      apply (checkStaged_reads _ _ _).bind h₁.moves
      rintro _ ⟨hdata, hsig⟩
      apply hrest h₁.moves (p := p)
      refine ⟨?_, hread, hchecksum, hrevision, ?_, ?_, ?_, ?_, ?_⟩
      · rw [hfloor]
        exact hpending
      · rw [← hrevision]
        exact hdata
      · rw [← hrevision]
        exact hsig
      · rw [← hrevision]
        exact harchived.data
      · rw [hfloor]
        exact htime
      · rw [hfloor]
        exact (hvalid.2.2.2.2.2 p hpending).2

end Publishing

end EtranProcessing.Publishing.CatalogRuns
