import EtranProcessing.Deployment.ConfigTransaction

namespace EtranProcessing.Deployment.ConfigRecovery

open Library.Runs Journal JournalFrames Records ConfigTransaction

section Codec

/-- The plans that prepare writes. -/
structure Encodable (p : ConfigPlan) : Prop where
  old : p.old.length ≤ configLimit
  candidate : p.candidate.length ≤ configLimit
  sdPos : p.sd ≠ []
  sdSmall : p.sd.length ≤ descriptorLimit
  absent : p.existed = false → p.old = []
  broker : p.publicBroker = true → p.existed = false ∧ p.path = brokerPath

theorem pathOf_bytes (path : Path) : pathOf path.bytes = some path := by
  unfold pathOf
  rw [dif_pos ⟨path.nonempty, path.small, path.zeroFree⟩]

def planHead (p : ConfigPlan) : Bytes :=
  storeU32 (if p.publicBroker = true then 2 else 1) ++ storeU32 (if p.existed = true then 1 else 0) ++
    storeU32 p.path.bytes.length ++ storeU32 p.old.length ++ storeU32 p.candidate.length ++ storeU32 p.sd.length

theorem length_planHead (p : ConfigPlan) : (planHead p).length = 24 := by
  simp [planHead]

theorem planHead_numbers {p : ConfigPlan} (h : Encodable p) (rest : Bytes) :
    get32 (planHead p ++ rest) = (if p.publicBroker = true then 2 else 1) ∧
      get32 ((planHead p ++ rest).drop 4) = (if p.existed = true then 1 else 0) ∧
      get32 ((planHead p ++ rest).drop 8) = p.path.bytes.length ∧
      get32 ((planHead p ++ rest).drop 12) = p.old.length ∧
      get32 ((planHead p ++ rest).drop 16) = p.candidate.length ∧
      get32 ((planHead p ++ rest).drop 20) = p.sd.length := by
  have hdrop : ∀ (front back : Bytes) (n : Nat), front.length = n → (front ++ back).drop n = back :=
    fun front back n hn => List.drop_left' hn
  have hold := h.old
  have hcandidate := h.candidate
  have hsd := h.sdSmall
  have hpath := p.path.small
  unfold configLimit at hold hcandidate
  unfold descriptorLimit at hsd
  unfold pathLimit at hpath
  unfold planHead
  refine ⟨?_, ?_, ?_, ?_, ?_, ?_⟩
  · simp only [List.append_assoc]
    refine get32_storeU32 ?_ _
    split <;> decide
  · simp only [List.append_assoc]
    rw [hdrop _ _ 4 (length_storeU32 _)]
    refine get32_storeU32 ?_ _
    split <;> decide
  · rw [List.append_assoc, List.append_assoc, List.append_assoc, List.append_assoc, hdrop _ _ 8 (by simp)]
    exact get32_storeU32 (by omega) _
  · rw [List.append_assoc, List.append_assoc, List.append_assoc, hdrop _ _ 12 (by simp)]
    exact get32_storeU32 (by omega) _
  · rw [List.append_assoc, List.append_assoc, hdrop _ _ 16 (by simp)]
    exact get32_storeU32 (by omega) _
  · rw [List.append_assoc, hdrop _ _ 20 (by simp)]
    exact get32_storeU32 (by omega) _

theorem planDecode_planEncode {p : ConfigPlan} (h : Encodable p) : planDecode (planEncode p) = some p := by
  have hhead := length_planHead p
  have hrecord : planEncode p = planHead p ++ (p.path.bytes ++ p.old ++ p.candidate ++ p.sd) := rfl
  obtain ⟨hversion, hexisted, hpath, hold, hcandidate, hsd⟩ :=
    planHead_numbers h (p.path.bytes ++ p.old ++ p.candidate ++ p.sd)
  rw [← hrecord] at hversion hexisted hpath hold hcandidate hsd
  have hrest : (planEncode p).drop 24 = p.path.bytes ++ (p.old ++ (p.candidate ++ p.sd)) := by
    rw [hrecord, List.drop_left' hhead]
    simp only [List.append_assoc]
  have hlength : (planEncode p).length =
      24 + p.path.bytes.length + p.old.length + p.candidate.length + p.sd.length := by
    rw [hrecord, List.length_append, hhead]
    simp only [List.length_append]
    omega
  have hsdPos : p.sd.length ≠ 0 := fun hzero => h.sdPos (List.length_eq_zero_iff.mp hzero)
  have hchecked : (if p.existed = true then 1 else 0) ≤ 1 ∧ p.old.length ≤ configLimit ∧
      p.candidate.length ≤ configLimit ∧ p.sd.length ≠ 0 ∧ p.sd.length ≤ descriptorLimit ∧
      24 + p.path.bytes.length + p.old.length + p.candidate.length + p.sd.length = (planEncode p).length ∧
      ((if p.existed = true then 1 else 0) = 1 ∨ p.old.length = 0) := by
    refine ⟨by split <;> decide, h.old, h.candidate, hsdPos, h.sdSmall, hlength.symm, ?_⟩
    cases he : p.existed with
    | true => exact .inl rfl
    | false => exact .inr (by rw [h.absent he]; rfl)
  unfold planDecode
  simp only [hversion, hexisted, hpath, hold, hcandidate, hsd, hrest, List.take_left, List.drop_left, pathOf_bytes]
  rw [if_neg (by rw [hlength]; split <;> omega), if_pos hchecked]
  have hadmitted : ¬ ((if p.publicBroker = true then 2 else 1) = 2 ∧
      ((if p.existed = true then 1 else 0) = 1 ∨ p.path ≠ brokerPath)) := by
    rintro ⟨hbroker, hrefused⟩
    have hpublic : p.publicBroker = true := by
      cases hb : p.publicBroker with
      | true => rfl
      | false => simp [hb] at hbroker
    obtain ⟨habsent, hplace⟩ := h.broker hpublic
    simp [habsent, hplace] at hrefused
  have hpublic : decide ((if p.publicBroker = true then 2 else 1) = 2) = p.publicBroker := by
    cases p.publicBroker <;> rfl
  have hpresent : decide ((if p.existed = true then 1 else 0) = 1) = p.existed := by
    cases p.existed <;> rfl
  rw [if_neg hadmitted, hpublic, hpresent]

end Codec

section Calls

variable {D : Type} {sys : System D}

/-- What a call does for a plan: it adds records, it changes at most the file of the plan,
from the one of its two states to the other, and it reports success only over the state
that it wants. -/
structure Effect (sys : System D) (s : World D) (plan : ConfigPlan) (forward : Bool) (r : Bool × World D) : Prop where
  policy : r.2.policy = s.policy
  records : s.log.records <+: r.2.log.records
  files : r.2.files = s.files ∨ (readFile sys (s.files plan.path) = some (plan.other forward) ∧
    plan.other forward ≠ plan.desired forward ∧ r.2.files = (changed sys s plan.path (plan.desired forward)).files)
  done : r.1 = true → r.2.log.poisoned = false ∧ readFile sys (r.2.files plan.path) = some (plan.desired forward)

theorem Effect.refused (s : World D) (plan : ConfigPlan) (forward : Bool) : Effect sys s plan forward (false, s) :=
  ⟨rfl, List.prefix_rfl, .inl rfl, by simp⟩

theorem append_records (j : RecordLog) (kind : UInt32) (bytes : Bytes) (fault : Option AppendFault) :
    j.records <+: (appendRecord j kind bytes fault).2.records := by
  rcases appendRecord_cases j kind bytes fault with ⟨_, hkept | hadded⟩ | ⟨hdone, _⟩
  · exact hkept ▸ List.prefix_rfl
  · rw [hadded]
    exact List.prefix_append _ _
  · rw [hdone]
    exact List.prefix_append _ _

theorem append_success {j : RecordLog} {kind : UInt32} {bytes : Bytes} {fault : Option AppendFault}
    (h : (appendRecord j kind bytes fault).1.isSome = true) : (appendRecord j kind bytes fault).2.poisoned = false := by
  rcases appendRecord_cases j kind bytes fault with ⟨hnone, _⟩ | ⟨hdone, _⟩
  · rw [hnone] at h
    cases h
  · rw [hdone]

theorem executeFinish_effect (s : World D) (plan : ConfigPlan) (forward : Bool) (intent : Bytes)
    (fault : Option Fault) :
    (executeFinish sys s plan forward intent fault).2.files = s.files ∧
      Effect sys s plan forward (executeFinish sys s plan forward intent fault) := by
  unfold executeFinish
  split
  next => exact ⟨rfl, Effect.refused s plan forward⟩
  next hread =>
    simp only [not_or, ne_eq, Decidable.not_not] at hread
    exact ⟨rfl, rfl, append_records _ _ _ _, .inl rfl, fun hdone => ⟨append_success hdone, hread.2⟩⟩

theorem executeChange_effect {s : World D} {plan : ConfigPlan} {forward done : Bool} {intent : Bytes}
    {fault : Option Fault} (h : done = false → readFile sys (s.files plan.path) = some (plan.other forward) ∧
      plan.other forward ≠ plan.desired forward) :
    Effect sys s plan forward (executeChange sys s plan forward done intent fault) := by
  unfold executeChange
  split
  next => exact (executeFinish_effect s plan forward intent fault).2
  next hchange =>
    obtain ⟨hother, hdifferent⟩ := h (by simpa using hchange)
    split
    next => exact Effect.refused s plan forward
    next => exact ⟨rfl, List.prefix_rfl, .inr ⟨hother, hdifferent, rfl⟩, by simp⟩
    next =>
      obtain ⟨hfiles, heffect⟩ := @executeFinish_effect D sys (changed sys s plan.path (plan.desired forward)) plan
        forward intent fault
      exact ⟨heffect.policy, heffect.records, .inr ⟨hother, hdifferent, hfiles⟩, heffect.done⟩

variable {publicBroker : Bool} {s : World D} {plan : ConfigPlan} {bytes sd : Bytes} {path : Path} {old : Snapshot} {sequence : Nat} {n : Nat}

theorem execute_effect (h : planAt sys s sequence = some plan)
    (forward : Bool) (fault : Option Fault) : Effect sys s plan forward (execute sys s sequence forward fault) := by
  have hrefused := @Effect.refused D sys s plan forward
  unfold execute
  rw [h]
  simp only
  split
  next => exact hrefused
  next =>
    cases hread : readFile sys (s.files plan.path) with
    | none => exact hrefused
    | some current =>
        simp only
        split
        next => exact hrefused
        next hknown =>
          split
          next => exact hrefused
          next =>
            have hrecords := append_records s.log recordConfigIntent (intentBytes sequence forward)
              (Fault.ofIntent fault)
            generalize appendRecord s.log recordConfigIntent (intentBytes sequence forward) (Fault.ofIntent fault) = r
              at hrecords
            split
            next => exact ⟨rfl, hrecords, .inl rfl, by simp⟩
            next =>
              have hother : decide (current = plan.desired forward) = false →
                  readFile sys (s.files plan.path) = some (plan.other forward) ∧
                    plan.other forward ≠ plan.desired forward := by
                intro hdone
                rw [hread]
                by_cases hc : current = plan.other forward
                · rw [← hc]
                  exact ⟨rfl, of_decide_eq_false hdone⟩
                · exact absurd ⟨hdone, hc⟩ hknown
              have heffect := @executeChange_effect D sys { s with log := r.2 } plan forward
                (decide (current = plan.desired forward)) (intentBytes sequence forward) fault hother
              exact ⟨heffect.policy, hrecords.trans heffect.records, heffect.files, heffect.done⟩

theorem execute_unplanned (h : planAt sys s sequence = none) (forward : Bool)
    (fault : Option Fault) : execute sys s sequence forward fault = (false, s) := by
  unfold execute
  rw [h]

theorem execute_foreign (h : planAt sys s sequence = some plan)
    (forward : Bool) (fault : Option Fault) (hother : readFile sys (s.files plan.path) ≠ some (plan.other forward)) :
    (execute sys s sequence forward fault).2.files = s.files := by
  rcases (execute_effect h forward fault).files with hkept | ⟨hread, _⟩
  · exact hkept
  · exact absurd hread hother

/-- What the code relies on: a descriptor that l4_store_security reads is well formed and
small, and a file that gets a saved descriptor has it. -/
structure Lawful (sys : System D) : Prop where
  reads : ∀ d sd, sys.security d = some sd → validSd sys sd ∧ sd.length ≤ descriptorLimit
  creates : ∀ sd, validSd sys sd → sd.length ≤ descriptorLimit → sys.security (sys.create sd) = some sd

theorem validSd_ne_nil {sd : Bytes} (h : validSd sys sd) : sd ≠ [] := by
  rintro rfl
  have hlength := h.1.1.1
  exact absurd hlength (by decide)

theorem readFile_sd (hlaw : Lawful sys) {f : Option (File D)}
    (h : readFile sys f = some (some (bytes, sd))) :
    bytes.length ≤ configLimit ∧ validSd sys sd ∧ sd.length ≤ descriptorLimit := by
  cases f with
  | none => cases h
  | some f =>
      simp only [readFile] at h
      split at h
      next hsize =>
        obtain ⟨sd', hsd, heq⟩ := Option.map_eq_some_iff.mp h
        cases heq
        obtain ⟨hvalid, hsmall⟩ := hlaw.reads _ _ hsd
        exact ⟨hsize, hvalid, hsmall⟩
      next => cases h

theorem savedSd_valid (hlaw : Lawful sys)
    (hread : readFile sys (s.files path) = some old) {sd : Bytes} (h : savedSd sys s path publicBroker old = some sd) :
    validSd sys sd ∧ sd.length ≤ descriptorLimit := by
  cases old with
  | some o =>
      obtain ⟨bytes, sd'⟩ := o
      cases h
      exact (readFile_sd hlaw hread).2
  | none =>
      obtain ⟨d, _, hd⟩ := Option.bind_eq_some_iff.mp h
      exact hlaw.reads d sd hd

def planOf (path : Path) (bytes : Bytes) (publicBroker : Bool) (old : Snapshot) (sd : Bytes) : ConfigPlan :=
  ⟨publicBroker, old.isSome, path, (old.map Prod.fst).getD [], bytes, sd⟩

/-- A preparation that wrote its record, confirmed or not: what it found and what it wrote. -/
structure Prepared (sys : System D) (s : World D) (path : Path) (bytes : Bytes) (publicBroker : Bool) (n : Nat)
    (old : Snapshot) (sd : Bytes) (s' : World D) : Prop where
  size : bytes.length ≤ configLimit
  read : readFile sys (s.files path) = some old
  saved : savedSd sys s path publicBroker old = some sd
  fresh : publicBroker = true → old = none
  number : n = s.log.records.length + 1
  records : s'.log.records = s.log.records ++ [(recordConfigPlan, planEncode (planOf path bytes publicBroker old sd))]
  files : s'.files = s.files

theorem prepare_cases {bytes : Bytes} {fault : Option PrepareFault}
    (h : (prepare sys s path bytes publicBroker fault).2.log.records ≠ s.log.records) :
    ∃ old sd, Prepared sys s path bytes publicBroker (s.log.records.length + 1) old sd
      (prepare sys s path bytes publicBroker fault).2 := by
  unfold prepare at h ⊢
  split at h
  next => exact absurd rfl h
  next hstart =>
    rw [if_neg hstart]
    simp only [not_or, Nat.not_lt] at hstart
    cases hread : readFile sys (s.files path) with
    | none =>
        rw [hread] at h
        exact absurd rfl h
    | some old =>
        simp only [hread] at h ⊢
        split at h
        next => exact absurd rfl h
        next hfresh =>
          rw [if_neg hfresh]
          cases hsaved : savedSd sys s path publicBroker old with
          | none =>
              rw [hsaved] at h
              exact absurd rfl h
          | some sd =>
              simp only [hsaved] at h ⊢
              have hnew : publicBroker = true → old = none := by
                intro hpublic
                by_cases hold : old = none
                · exact hold
                · exact absurd ⟨hpublic, hold⟩ hfresh
              rcases appendRecord_cases s.log recordConfigPlan
                (planEncode ⟨publicBroker, old.isSome, path, (old.map Prod.fst).getD [], bytes, sd⟩)
                (PrepareFault.ofAppend fault) with ⟨_, hkept | hadded⟩ | ⟨hdone, _⟩
              · exact absurd hkept h
              · exact ⟨old, sd, hstart.1, hread, hsaved, hnew, rfl, hadded, rfl⟩
              · rw [hdone]
                exact ⟨old, sd, hstart.1, hread, hsaved, hnew, rfl, rfl, rfl⟩

theorem Prepared.encodable (hlaw : Lawful sys) {s s' : World D}
    (h : Prepared sys s path bytes publicBroker n old sd s')
    (hbroker : publicBroker = true → path = brokerPath) : Encodable (planOf path bytes publicBroker old sd) := by
  obtain ⟨hvalid, hsmall⟩ := savedSd_valid hlaw h.read h.saved
  constructor
  case old =>
    cases hold : old with
    | none => exact Nat.zero_le _
    | some o =>
        obtain ⟨b, sd'⟩ := o
        exact (readFile_sd hlaw (hold ▸ h.read)).1
  case candidate => exact h.size
  case sdPos => exact validSd_ne_nil hvalid
  case sdSmall => exact hsmall
  case absent =>
    intro habsent
    cases hold : old with
    | none => rfl
    | some o => simp [planOf, hold] at habsent
  case broker =>
    intro hpublic
    refine ⟨?_, hbroker hpublic⟩
    simp [planOf, h.fresh hpublic]

theorem planOf_states {s : World D} {path : Path} {bytes sd : Bytes} {publicBroker : Bool} {old : Snapshot}
    (h : savedSd sys s path publicBroker old = some sd) :
    (planOf path bytes publicBroker old sd).original = old ∧
      (planOf path bytes publicBroker old sd).wanted = some (bytes, sd) := by
  refine ⟨?_, rfl⟩
  cases old with
  | none => rfl
  | some o =>
      obtain ⟨b, sd'⟩ := o
      cases h
      rfl

theorem planAt_prepared (hlaw : Lawful sys) {s s' : World D}
    (h : Prepared sys s path bytes publicBroker n old sd s')
    (hbroker : publicBroker = true → path = brokerPath) {v : World D} (hrecords : s'.log.records <+: v.log.records)
    (hlive : v.log.poisoned = false) : planAt sys v n = some (planOf path bytes publicBroker old sd) := by
  have hplace : v.log.records[n - 1]? =
      some (recordConfigPlan, planEncode (planOf path bytes publicBroker old sd)) := by
    obtain ⟨more, hmore⟩ := hrecords
    rw [← hmore, h.records, h.number, Nat.add_sub_cancel, List.append_assoc, List.getElem?_append_right (Nat.le_refl _)]
    simp
  have hfind : findRecord v.log recordConfigPlan n = some (planEncode (planOf path bytes publicBroker old sd)) := by
    have hpos : n ≠ 0 := by
      rw [h.number]
      exact Nat.succ_ne_zero _
    simp [findRecord, hlive, hpos, hplace]
  have hvalid : validSd sys (planOf path bytes publicBroker old sd).sd := (savedSd_valid hlaw h.read h.saved).1
  simp only [planAt, hfind, planDecode_planEncode (h.encodable hlaw hbroker), if_pos hvalid]

theorem planAt_poisoned {v : World D} (h : v.log.poisoned = true) (n : Nat) : planAt sys v n = none := by
  simp [planAt, findRecord, h]

theorem readFile_changed (hlaw : Lawful sys) (h : Encodable plan) (hvalid : validSd sys plan.sd)
    (s : World D) (forward : Bool) :
    readFile sys ((changed sys s plan.path (plan.desired forward)).files plan.path) = some (plan.desired forward) := by
  have hsecurity := hlaw.creates plan.sd hvalid h.sdSmall
  simp only [changed, Function.update_self]
  cases forward with
  | true => simp [ConfigPlan.desired, ConfigPlan.wanted, readFile, hsecurity, h.candidate]
  | false =>
      cases he : plan.existed with
      | true => simp [ConfigPlan.desired, ConfigPlan.original, he, readFile, hsecurity, h.old]
      | false => simp [ConfigPlan.desired, ConfigPlan.original, he, readFile]

theorem append_ready {j : RecordLog} (hlive : j.poisoned = false) {kind : UInt32} (hkind : kind ≠ 0) (n : Nat)
    (forward : Bool) : appendRecord j kind (intentBytes n forward) none =
      (some (j.records.length + 1), { j with records := j.records ++ [(kind, intentBytes n forward)] }) := by
  apply appendRecord_ready hlive
  refine ⟨hkind, ?_⟩
  simp [intentBytes, maxRecord]

theorem execute_succeeds (hlaw : Lawful sys)
    (hplan : planAt sys s n = some plan) (h : Encodable plan) (hvalid : validSd sys plan.sd)
    (hlive : s.log.poisoned = false) {forward : Bool} {current : Snapshot}
    (hread : readFile sys (s.files plan.path) = some current)
    (hstate : current = plan.desired forward ∨ current = plan.other forward)
    (hpolicy : current = none → filePolicy sys s plan.path plan.publicBroker = some plan.sd) :
    (execute sys s n forward none).1 = true := by
  have hintent := append_ready hlive (by decide : recordConfigIntent ≠ 0) n forward
  have hknown : ¬ (decide (current = plan.desired forward) = false ∧ current ≠ plan.other forward) := by
    rintro ⟨hdone, hother⟩
    rcases hstate with hdesired | hsame
    · exact of_decide_eq_false hdone hdesired
    · exact hother hsame
  have hallowed : ¬ (current = none ∧ filePolicy sys s plan.path plan.publicBroker ≠ some plan.sd) :=
    fun hrefused => hrefused.2 (hpolicy hrefused.1)
  have hfinish : ∀ v : World D, v.log.poisoned = false →
      readFile sys (v.files plan.path) = some (plan.desired forward) →
      (executeFinish sys v plan forward (intentBytes n forward) none).1 = true := by
    intro v hv hdesired
    simp [executeFinish, hdesired, Fault.ofFinish, append_ready hv (by decide : recordConfigDone ≠ 0) n forward]
  simp only [execute, hplan, hread, if_neg hknown, if_neg hallowed, Fault.ofIntent, hintent, reduceCtorEq, if_false]
  unfold executeChange
  split
  next hdone =>
    apply hfinish
    · exact hlive
    · rw [← of_decide_eq_true hdone]
      exact hread
  next =>
    apply hfinish
    · exact hlive
    · exact readFile_changed hlaw h hvalid _ forward

theorem step_records (s : World D) (e : Event D) : s.log.records <+: (step sys s e).log.records := by
  have hprepare : ∀ path bytes publicBroker fault,
      s.log.records <+: (prepare sys s path bytes publicBroker fault).2.log.records := by
    intro path bytes publicBroker fault
    unfold prepare
    split
    next => exact List.prefix_rfl
    next =>
      split
      next => exact List.prefix_rfl
      next =>
        split
        next => exact List.prefix_rfl
        next =>
          split
          next => exact List.prefix_rfl
          next => exact append_records _ _ _ _
  have hexecute : ∀ n forward fault, s.log.records <+: (execute sys s n forward fault).2.log.records := by
    intro n forward fault
    cases hplan : planAt sys s n with
    | none =>
        exact execute_unplanned hplan forward fault ▸ List.prefix_rfl
    | some plan => exact (execute_effect hplan forward fault).records
  cases e with
  | prepare path bytes fault => exact hprepare path bytes false fault
  | preparePublicBroker bytes fault => exact hprepare brokerPath bytes true fault
  | apply n fault => exact hexecute n true fault
  | rollback n fault => exact hexecute n false fault
  | touch path file | setPolicy path publicBroker d | reopen => exact List.prefix_rfl
  | append => exact append_records _ _ _ _

theorem run_records (events : List (Event D)) (s : World D) :
    s.log.records <+: (run (step sys) s events).log.records :=
  run_kept (p := fun t => s.log.records <+: t.log.records) (fun t e h => h.trans (step_records t e)) events s
    List.prefix_rfl

def Own (sys : System D) (n : Nat) (path : Path) (s : World D) (e : Event D) : Prop :=
  (step sys s e).files path = s.files path ∨ ∃ fault, e = .apply n fault ∨ e = .rollback n fault

theorem own_states (hlaw : Lawful sys) {s s' : World D}
    (h : Prepared sys s path bytes publicBroker n old sd s')
    (hbroker : publicBroker = true → path = brokerPath) (events : List (Event D)) (v : World D)
    (hrecords : s'.log.records <+: v.log.records) (hown : Along (step sys) (Own sys n path) v events)
    (hv : readFile sys (v.files path) = some old ∨ readFile sys (v.files path) = some (some (bytes, sd))) :
    readFile sys ((run (step sys) v events).files path) = some old ∨
      readFile sys ((run (step sys) v events).files path) = some (some (bytes, sd)) := by
  have hstates := @planOf_states D sys s path bytes sd publicBroker old h.saved
  have hcall : ∀ (w : World D) (forward : Bool) (fault : Option Fault), s'.log.records <+: w.log.records →
      (readFile sys (w.files path) = some old ∨ readFile sys (w.files path) = some (some (bytes, sd))) →
      readFile sys ((execute sys w n forward fault).2.files path) = some old ∨
        readFile sys ((execute sys w n forward fault).2.files path) = some (some (bytes, sd)) := by
    intro w forward fault hw hread
    cases hpoisoned : w.log.poisoned with
    | true =>
        rw [execute_unplanned (planAt_poisoned hpoisoned n)]
        exact hread
    | false =>
        have hplan := planAt_prepared hlaw h hbroker hw hpoisoned
        rcases (execute_effect hplan forward fault).files with hkept | ⟨_, _, hfiles⟩
        · rw [hkept]
          exact hread
        · have hdesired := readFile_changed hlaw (h.encodable hlaw hbroker)
            (savedSd_valid hlaw h.read h.saved).1 w forward
          rw [hfiles]
          cases forward with
          | true => exact .inr (hdesired.trans (congrArg some hstates.2))
          | false => exact .inl (hdesired.trans (congrArg some hstates.1))
  induction events generalizing v with
  | nil => exact hv
  | cons e events ih =>
      refine ih (step sys v e) (hrecords.trans (step_records v e)) hown.2 ?_
      rcases hown.1 with hkept | ⟨fault, rfl | rfl⟩
      · rw [hkept]
        exact hv
      · exact hcall v true fault hrecords hv
      · exact hcall v false fault hrecords hv

end Calls

section Example

def plainSystem : System Bytes where
  security d := if descriptorShape d ∧ d.length ≤ descriptorLimit then some d else none
  create sd := sd
  isValid _ := true
  descriptorLength := List.length

theorem plain_lawful : Lawful plainSystem where
  reads d sd h := by
    simp only [plainSystem] at h
    split at h
    next hread =>
      cases h
      exact ⟨⟨hread.1, rfl, rfl⟩, hread.2⟩
    next => cases h
  creates sd hvalid hsmall := if_pos ⟨hvalid.1, hsmall⟩

def systemOnly : Bytes :=
  [1, 0, 0x04, 0x80, 20, 0, 0, 0, 0, 0, 0, 0, 0, 0, 0, 0, 32, 0, 0, 0] ++ [1, 1, 0, 0, 0, 0, 0, 5, 18, 0, 0, 0] ++
    [2, 0, 28, 0, 1, 0, 0, 0] ++ [0, 0, 20, 0, 0xff, 0x01, 0x1f, 0] ++ [1, 1, 0, 0, 0, 0, 0, 5, 18, 0, 0, 0]

def oneFile : World Bytes := ⟨fun _ => some ⟨[1], systemOnly⟩, fun _ _ => none, ⟨[], false⟩⟩

end Example

end EtranProcessing.Deployment.ConfigRecovery
