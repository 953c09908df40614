import EtranProcessing.Proxy.PolicyLoop

namespace EtranProcessing.Proxy.OfflineGrace

open PolicyRecords PolicyStore PolicyLoop

set_option linter.unusedSectionVars false

variable {Cert : Type} [DecidableEq Cert] {s : Loop Cert} {m : Moment Cert} {e : Event Cert}

/-! ### What a look at the time does -/

theorem expire_eq (s : Loop Cert) (m : Moment Cert) : ∃ media https remaining,
    (remaining = s.remainingMs ∨ remaining = 0) ∧
      expire s m = { s with mediaAllowed := media, httpsAllowed := https, remainingMs := remaining } := by
  unfold expire
  split
  · exact ⟨_, _, _, .inl rfl, rfl⟩
  split
  · dsimp only [setMedia]
    split
    · exact ⟨_, _, _, .inr rfl, rfl⟩
    · exact ⟨_, _, _, .inl rfl, rfl⟩
  · exact ⟨_, _, _, .inl rfl, rfl⟩

theorem expire_record (s : Loop Cert) (m : Moment Cert) : (expire s m).record = s.record := by
  obtain ⟨_, _, _, _, h⟩ := expire_eq s m
  rw [h]

theorem expire_anchor (s : Loop Cert) (m : Moment Cert) : (expire s m).anchorTick = s.anchorTick := by
  obtain ⟨_, _, _, _, h⟩ := expire_eq s m
  rw [h]

theorem expire_stage (s : Loop Cert) (m : Moment Cert) : (expire s m).stage = s.stage := by
  obtain ⟨_, _, _, _, h⟩ := expire_eq s m
  rw [h]

theorem expire_identity (s : Loop Cert) (m : Moment Cert) : (expire s m).identityGeneration = s.identityGeneration := by
  obtain ⟨_, _, _, _, h⟩ := expire_eq s m
  rw [h]

theorem expire_remaining (s : Loop Cert) (m : Moment Cert) :
    (expire s m).remainingMs = s.remainingMs ∨ (expire s m).remainingMs = 0 := by
  obtain ⟨_, _, _, hremaining, h⟩ := expire_eq s m
  rw [h]
  exact hremaining

/-- What has to hold for media to be allowed with a record. -/
structure Admitted (s : Loop Cert) (m : Moment Cert) : Prop where
  storage : s.storageFailed = false
  certificate : identityValid s m = true
  undenied : undenied s.record = true
  utc : m.utc < s.record.offlineAllowedUntil
  utcAgain : m.utcAgain < s.record.offlineAllowedUntil
  ticks : m.tick - s.anchorTick < s.remainingMs

theorem admitted (hloaded : loaded s.record = true) (h : policyMediaAllowed s m = true) : Admitted s m := by
  unfold policyMediaAllowed expire at h
  rw [Bool.and_eq_true] at h
  obtain ⟨h, _⟩ := h
  split at h
  · simp [setMedia] at h
  next hstorage =>
    dsimp only at h
    split at h
    next hutc => simp [setMedia] at h
    next hutc =>
      simp only [setMedia, policyRecordAllowed, Bool.and_eq_true, decide_eq_true_eq] at h
      obtain ⟨⟨⟨hundenied, hagain⟩, hticks⟩, hvalid⟩ := h
      exact ⟨by simpa using hstorage, hvalid, hundenied, UInt64.not_le.mp hutc, hagain, hticks⟩

/-! ### What gives new time -/

/-- Where the time that is left comes from: an answer, or a record that was loaded at some time of the clock; and
whether that answer or record denies. -/
structure Grant where
  loadedAt : Option UInt64
  denied : Bool
  deriving DecidableEq

/-- The answers that are applied, the records that are loaded, and a new process. -/
def grants (s : Loop Cert) : Event Cert → Option Grant
  | .answer _ text =>
      match s.stage with
      | .asking c => if applies s c then (answered c text).map fun x => ⟨none, !x.1⟩ else none
      | _ => none
  | .identity details l _ _ =>
      if s.storageFailed then none
      else (changes s details).map fun sn => ⟨some l.now, !undenied (restore l.access s.copies sn l.restored)⟩
  | .restart _ => some ⟨none, false⟩
  | _ => none

structure Kept (s s' : Loop Cert) : Prop where
  record : s'.record = s.record
  anchor : s'.anchorTick = s.anchorTick
  remaining : s'.remainingMs = s.remainingMs ∨ s'.remainingMs = 0

theorem Kept.refl (s : Loop Cert) : Kept s s := ⟨rfl, rfl, .inl rfl⟩

theorem Kept.trans {s₁ s₂ s₃ : Loop Cert} (h : Kept s₁ s₂) (h' : Kept s₂ s₃) : Kept s₁ s₃ := by
  refine ⟨h'.record.trans h.record, h'.anchor.trans h.anchor, ?_⟩
  rcases h'.remaining with hsame | hzero
  · rcases h.remaining with hsame' | hzero'
    · exact .inl (hsame.trans hsame')
    · exact .inr (hsame.trans hzero')
  · exact .inr hzero

theorem expire_kept (s : Loop Cert) (m : Moment Cert) : Kept s (expire s m) :=
  ⟨expire_record s m, expire_anchor s m, expire_remaining s m⟩

theorem rotate_kept (s : Loop Cert) (cert : Option Cert) : Kept s (rotate s cert) := by
  unfold rotate
  split
  · exact Kept.refl s
  · exact ⟨rfl, rfl, .inl rfl⟩

theorem step_kept (h : grants s e = none) : Kept s (step s e) := by
  cases e with
  | ask m => exact expire_kept s m
  | look m =>
      unfold step
      dsimp only
      split
      · exact (expire_kept s m).trans ⟨rfl, rfl, .inl rfl⟩
      · exact Kept.refl s
  | save =>
      unfold step
      dsimp only
      split
      · split
        · exact ⟨rfl, rfl, .inl rfl⟩
        · exact ⟨rfl, rfl, .inl rfl⟩
      · exact Kept.refl s
  | settle =>
      unfold step
      dsimp only
      split
      · exact ⟨rfl, rfl, .inl rfl⟩
      · exact ⟨rfl, rfl, .inl rfl⟩
      · exact Kept.refl s
  | answer =>
      unfold grants at h
      unfold step
      dsimp only at h ⊢
      split
      next c hstage =>
        rw [hstage] at h
        dsimp only at h
        unfold answer
        split
        next happlies =>
          rw [if_pos happlies, Option.map_eq_none_iff] at h
          rw [h]
          exact ⟨rfl, rfl, .inl rfl⟩
        next => exact ⟨rfl, rfl, .inl rfl⟩
      next => exact Kept.refl s
  | store f tick | pause tick woken | lastSave f =>
      unfold step
      dsimp only
      split
      · exact ⟨rfl, rfl, .inl rfl⟩
      · exact Kept.refl s
  | identity details l m later =>
      unfold grants at h
      change Kept s (policyIdentity s details l m later)
      unfold policyIdentity
      dsimp only at h ⊢
      split
      next => exact Kept.refl s
      next hstorage =>
        rw [if_neg hstorage, Option.map_eq_none_iff] at h
        rw [h]
        exact (rotate_kept s _).trans (expire_kept _ later)
  | stop => exact ⟨rfl, rfl, .inl rfl⟩
  | restart storageFailed => cases h

/-! ### How much time there is -/

structure Bounded (s : Loop Cert) (g : Grant) : Prop where
  denied : undenied s.record = !g.denied
  answered : g.loadedAt = none → s.remainingMs ≤ graceMs
  loaded : ∀ now, g.loadedAt = some now → s.remainingMs.toNat ≤ (s.record.offlineAllowedUntil.toNat - now.toNat) * 1000

variable {s₁ : Loop Cert} {g : Grant} {t : UInt64}

theorem Bounded.kept {s' : Loop Cert} (h : Bounded s g) (hkept : Kept s s') : Bounded s' g := by
  have hle : s'.remainingMs ≤ s.remainingMs := by
    rcases hkept.remaining with hsame | hzero
    · rw [hsame]
      exact UInt64.le_refl _
    · rw [hzero, UInt64.le_iff_toNat_le]
      exact Nat.zero_le _
  refine ⟨?_, fun hnone => UInt64.le_trans hle (h.answered hnone), fun now hnow => ?_⟩
  · rw [hkept.record]
    exact h.denied
  · rw [hkept.record]
    exact Nat.le_trans (UInt64.le_iff_toNat_le.mp hle) (h.loaded now hnow)

theorem left_le {deadline now : UInt64} (h : now < deadline) :
    ((deadline - now) * 1000).toNat ≤ (deadline.toNat - now.toNat) * 1000 := by
  rw [UInt64.toNat_mul, UInt64.toNat_sub_of_le _ _ (UInt64.le_of_lt h)]
  exact Nat.mod_le _ _

theorem accept_bounded (s : Loop Cert) (m : Moment Cert) (allowed https : Bool) (facts : Facts) :
    Bounded (accept s m allowed https facts) ⟨none, !allowed⟩ := by
  refine ⟨?_, fun _ => UInt64.le_refl _, fun _ h => by cases h⟩
  change undenied (PolicyStore.accepted s.record allowed facts m.utc) = _
  simp [undenied, PolicyStore.accepted]

theorem load_bounded (s : Loop Cert) (sn : Sn) (l : Loading) (m : Moment Cert) :
    Bounded (load s sn l m) ⟨some l.now, !undenied (restore l.access s.copies sn l.restored)⟩ := by
  have hreload : Bounded (reload s sn l) ⟨some l.now, !undenied (restore l.access s.copies sn l.restored)⟩ := by
    refine ⟨?_, ?_, ?_⟩
    · rw [Bool.not_not]
      rfl
    · rintro ⟨⟩
    · rintro _ ⟨⟩
      dsimp only [reload]
      split
      next hlt => exact left_le hlt
      next => exact Nat.zero_le _
  exact hreload.kept (expire_kept _ m)

theorem start_bounded (storageFailed : Bool) (copies : Copies) :
    Bounded (Loop.start storageFailed copies : Loop Cert) ⟨none, false⟩ :=
  ⟨rfl, fun _ => UInt64.le_iff_toNat_le.mpr (Nat.zero_le _), fun _ h => by cases h⟩

theorem step_answer {c : Captured} (hstage : s.stage = .asking c) (m : Moment Cert) (text : Option (List Char)) :
    step s (.answer m text) = answer s c m text := by
  unfold step
  dsimp only
  rw [hstage]

theorem grants_answer {text : Option (List Char)} (h : grants s (.answer m text) = some g) :
    ∃ c, s.stage = .asking c ∧ applies s c = true ∧ ∃ x, answered c text = some x ∧ ⟨none, !x.1⟩ = g := by
  unfold grants at h
  dsimp only at h
  split at h
  next c hstage =>
    split at h
    next happlies =>
      obtain ⟨x, hx, hg⟩ := Option.map_eq_some_iff.mp h
      exact ⟨c, hstage, happlies, x, hx, hg⟩
    next => cases h
  next => cases h

theorem step_bounded (h : Bounded s g) : Bounded (step s e) ((grants s e).getD g) := by
  cases hgrants : grants s e with
  | none => exact h.kept (step_kept hgrants)
  | some g' =>
      rw [Option.getD_some]
      cases e with
      | answer m text =>
          obtain ⟨c, hstage, happlies, x, hx, rfl⟩ := grants_answer hgrants
          rw [step_answer hstage, answer, if_pos happlies, hx]
          exact accept_bounded s m x.1 x.2.1 x.2.2
      | identity details l m later =>
          unfold grants at hgrants
          change Bounded (policyIdentity s details l m later) g'
          unfold policyIdentity
          dsimp only at hgrants ⊢
          split at hgrants
          next => cases hgrants
          next hstorage =>
            obtain ⟨sn, hsn, rfl⟩ := Option.map_eq_some_iff.mp hgrants
            rw [if_neg hstorage, hsn]
            exact (load_bounded s sn l m).kept ((rotate_kept _ _).trans (expire_kept _ later))
      | restart storageFailed =>
          cases hgrants
          exact start_bounded storageFailed s.copies
      | ask | look | save | settle | store | pause | stop | lastSave => cases hgrants

def grantOf (s : Loop Cert) (g : Grant) : List (Event Cert) → Grant
  | [] => g
  | e :: events => grantOf (step s e) ((grants s e).getD g) events

theorem run_bounded (events : List (Event Cert)) (h : Bounded s g) :
    Bounded (run s events) (grantOf s g events) := by
  induction events generalizing s g with
  | nil => exact h
  | cons e events ih => exact ih (step_bounded h)

/-! ### An expiry that has been seen -/

/-- The time was over when the ticks were at `t`. -/
def Spent (s : Loop Cert) (t : UInt64) : Prop :=
  s.remainingMs = 0 ∨ (s.anchorTick ≤ t ∧ s.remainingMs ≤ t - s.anchorTick)

theorem Spent.kept {s' : Loop Cert} (h : Spent s t) (hkept : Kept s s') : Spent s' t := by
  rcases hkept.remaining with hsame | hzero
  · unfold Spent
    rw [hsame, hkept.anchor]
    exact h
  · exact .inl hzero

theorem Spent.denied (h : Spent s t) (hloaded : loaded s.record = true) (ht : t ≤ m.tick) :
    policyMediaAllowed s m = false := by
  cases hallowed : policyMediaAllowed s m with
  | false => rfl
  | true =>
      exfalso
      have hticks := (admitted hloaded hallowed).ticks
      rw [UInt64.lt_iff_toNat_lt] at hticks
      rcases h with hzero | ⟨hanchor, hremaining⟩
      · rw [hzero] at hticks
        exact Nat.not_lt_zero _ hticks
      · rw [UInt64.toNat_sub_of_le _ _ (UInt64.le_trans hanchor ht)] at hticks
        rw [UInt64.le_iff_toNat_le, UInt64.toNat_sub_of_le _ _ hanchor] at hremaining
        rw [UInt64.le_iff_toNat_le] at ht
        omega

structure Observed (s : Loop Cert) (m : Moment Cert) : Prop where
  loaded : loaded s.record = true
  storage : s.storageFailed = false
  expired : s.record.offlineAllowedUntil ≤ m.utc ∨ s.remainingMs ≤ m.tick - s.anchorTick

theorem observed_spent (h : Observed s m) (hanchor : s.anchorTick ≤ m.tick) : Spent (expire s m) m.tick := by
  rcases h.expired with hutc | hticks
  · left
    unfold expire
    rw [if_neg (by simp [h.storage]), if_pos h.loaded]
    dsimp only
    rw [if_pos hutc]
    rfl
  · exact Spent.kept (.inr ⟨hanchor, hticks⟩) (expire_kept s m)

/-- The calls of `expire_locked` in a step, each with the state that it finds. -/
def glances (s : Loop Cert) : Event Cert → List (Loop Cert × Moment Cert)
  | .ask m => [(s, m)]
  | .look m =>
      match s.stage with
      | .top => [(s, m)]
      | _ => []
  | .identity details l m later =>
      if s.storageFailed then []
      else
        match changes s details with
        | some sn => [(reload s sn l, m), (rotate (load s sn l m) (details.map Prod.fst), later)]
        | none => [(rotate s (details.map Prod.fst), later)]
  | _ => []

theorem step_look (hstage : s.stage = .top) (m : Moment Cert) : step s (.look m) = look s m := by
  unfold step
  dsimp only
  rw [hstage]

theorem glances_look {m' : Moment Cert} (h : (s₁, m) ∈ glances s (.look m')) :
    s.stage = .top ∧ s₁ = s ∧ m = m' := by
  unfold glances at h
  dsimp only at h
  split at h
  next hstage => exact ⟨hstage, Prod.mk.inj (List.mem_singleton.mp h)⟩
  next => cases h

theorem glance_kept (h : (s₁, m) ∈ glances s e) : Kept (expire s₁ m) (step s e) := by
  cases e with
  | ask m' =>
      obtain ⟨rfl, rfl⟩ := Prod.mk.inj (List.mem_singleton.mp h)
      exact Kept.refl _
  | look m' =>
      obtain ⟨hstage, rfl, rfl⟩ := glances_look h
      rw [step_look hstage]
      exact ⟨rfl, rfl, .inl rfl⟩
  | identity details l m' later =>
      unfold glances at h
      change Kept _ (policyIdentity s details l m' later)
      unfold policyIdentity
      dsimp only at h ⊢
      split at h
      next => cases h
      next hstorage =>
        rw [if_neg hstorage]
        cases hchanges : changes s details with
        | some sn =>
          rw [hchanges] at h
          rcases List.mem_cons.mp h with hfirst | hsecond
          · obtain ⟨rfl, rfl⟩ := Prod.mk.inj hfirst
            exact (rotate_kept _ _).trans (expire_kept _ later)
          · obtain ⟨rfl, rfl⟩ := Prod.mk.inj (List.mem_singleton.mp hsecond)
            exact Kept.refl _
        | none =>
          rw [hchanges] at h
          obtain ⟨rfl, rfl⟩ := Prod.mk.inj (List.mem_singleton.mp h)
          exact Kept.refl _
  | save | settle | answer | store | pause | stop | lastSave | restart => cases h

def Unrenewed (s : Loop Cert) : List (Event Cert) → Prop
  | [] => True
  | e :: events => grants s e = none ∧ Unrenewed (step s e) events

theorem run_kept {events : List (Event Cert)} (h : Unrenewed s events) : Kept s (run s events) := by
  induction events generalizing s with
  | nil => exact Kept.refl s
  | cons e events ih => exact (step_kept h.1).trans (ih h.2)

/-! ### The ticks of a run -/

def ticks : Event Cert → List UInt64
  | .ask m => [m.tick]
  | .look m => [m.tick]
  | .save _ tick => [tick]
  | .answer m _ => [m.tick]
  | .store _ tick => [tick]
  | .pause tick _ => [tick]
  | .identity _ l m later => [l.tick, m.tick, later.tick]
  | _ => []

theorem step_anchor (s : Loop Cert) (e : Event Cert) : (step s e).anchorTick = s.anchorTick ∨
    (step s e).anchorTick ∈ ticks e ∨ (step s e).anchorTick = 0 := by
  cases hgrants : grants s e with
  | none => exact .inl (step_kept hgrants).anchor
  | some g =>
      cases e with
      | answer =>
          unfold step
          dsimp only
          split
          next c _ =>
            unfold answer
            split
            next =>
              split
              next => exact .inr (.inl (by simp [accept, setMedia, ticks]))
              next => exact .inl rfl
            next => exact .inl rfl
          next => exact .inl rfl
      | identity details l m later =>
          change (policyIdentity s details l m later).anchorTick = _ ∨ (policyIdentity s details l m later).anchorTick ∈ _ ∨ _
          unfold policyIdentity
          dsimp only
          split
          next => exact .inl rfl
          next =>
            rw [expire_anchor, (rotate_kept _ _).anchor]
            split
            next sn _ =>
              right
              left
              rw [load, expire_anchor]
              simp [reload, ticks]
            next => exact .inl rfl
      | restart => exact .inr (.inr rfl)
      | ask | look | save | settle | store | pause | stop | lastSave => cases hgrants

theorem run_anchor {events : List (Event Cert)} (hs : ∀ u ∈ events.flatMap ticks ++ [t], s.anchorTick ≤ u)
    (h : (events.flatMap ticks ++ [t]).Pairwise (· ≤ ·)) : (run s events).anchorTick ≤ t := by
  induction events generalizing s with
  | nil => exact hs t (by simp)
  | cons e events ih =>
      rw [List.flatMap_cons, List.append_assoc] at hs h
      obtain ⟨_, hrest, hcross⟩ := List.pairwise_append.mp h
      apply ih (s := step s e) _ hrest
      intro u hu
      rcases step_anchor s e with hsame | hmem | hzero
      · rw [hsame]
        exact hs u (List.mem_append_right _ hu)
      · exact hcross _ hmem u hu
      · rw [hzero, UInt64.le_iff_toNat_le]
        exact Nat.zero_le _

theorem glance_ticks (h : (s₁, m) ∈ glances s e) (hs : ∀ u ∈ ticks e, s.anchorTick ≤ u)
    (hticks : (ticks e).Pairwise (· ≤ ·)) : m.tick ∈ ticks e ∧ s₁.anchorTick ≤ m.tick := by
  cases e with
  | ask m' =>
      obtain ⟨rfl, rfl⟩ := Prod.mk.inj (List.mem_singleton.mp h)
      have hmem : m.tick ∈ ticks (.ask m) := List.mem_singleton_self _
      exact ⟨hmem, hs _ hmem⟩
  | look m' =>
      obtain ⟨_, rfl, rfl⟩ := glances_look h
      have hmem : m.tick ∈ ticks (.look m) := List.mem_singleton_self _
      exact ⟨hmem, hs _ hmem⟩
  | identity details l m' later =>
      have hloaded : l.tick ≤ m'.tick ∧ l.tick ≤ later.tick := by simpa [ticks] using (List.pairwise_cons.mp hticks).1
      have hbefore : later.tick ∈ ticks (.identity details l m' later) := by simp [ticks]
      unfold glances at h
      dsimp only at h
      split at h
      next => cases h
      next =>
        split at h
        next sn _ =>
          rcases List.mem_cons.mp h with hfirst | hsecond
          · obtain ⟨rfl, rfl⟩ := Prod.mk.inj hfirst
            exact ⟨by simp [ticks], hloaded.1⟩
          · obtain ⟨rfl, rfl⟩ := Prod.mk.inj (List.mem_singleton.mp hsecond)
            refine ⟨hbefore, ?_⟩
            rw [(rotate_kept _ _).anchor, load, expire_anchor]
            exact hloaded.2
        next =>
          obtain ⟨rfl, rfl⟩ := Prod.mk.inj (List.mem_singleton.mp h)
          refine ⟨hbefore, ?_⟩
          rw [(rotate_kept _ _).anchor]
          exact hs _ hbefore
  | save | settle | answer | store | pause | stop | lastSave | restart => cases h

theorem run_append (s : Loop Cert) (events more : List (Event Cert)) :
    run s (events ++ more) = run (run s events) more := List.foldl_append

theorem expiry_stays {s s₁ : Loop Cert} {m m' : Moment Cert} {e : Event Cert} {before after : List (Event Cert)}
    (hanchor : s.anchorTick = 0) (hticks : ((before ++ e :: after).flatMap ticks ++ [m'.tick]).Pairwise (· ≤ ·))
    (hglance : (s₁, m) ∈ glances (run s before) e) (hseen : Observed s₁ m)
    (hafter : Unrenewed (step (run s before) e) after) : policyMediaAllowed (run s (before ++ e :: after)) m' = false := by
  rw [List.flatMap_append, List.flatMap_cons, List.append_assoc, List.append_assoc] at hticks
  have hzero (u : UInt64) : s.anchorTick ≤ u := by
    rw [hanchor, UInt64.le_iff_toNat_le]
    exact Nat.zero_le _
  have hcounted : ∀ u ∈ ticks e, (run s before).anchorTick ≤ u := by
    intro u hu
    apply run_anchor (fun v _ => hzero v)
    have hpart : [u].Sublist (ticks e ++ (after.flatMap ticks ++ [m'.tick])) :=
      (List.singleton_sublist.mpr hu).trans (List.sublist_append_left _ _)
    exact List.Pairwise.sublist ((List.Sublist.refl _).append hpart) hticks
  obtain ⟨_, hrest, _⟩ := List.pairwise_append.mp hticks
  obtain ⟨hhere, _, hlater⟩ := List.pairwise_append.mp hrest
  obtain ⟨hmem, hpast⟩ := glance_ticks hglance hcounted hhere
  have hkept : Kept (expire s₁ m) (run s (before ++ e :: after)) := by
    rw [run_append]
    exact (glance_kept hglance).trans (run_kept hafter)
  have hspent : Spent (run s (before ++ e :: after)) m.tick := (observed_spent hseen hpast).kept hkept
  apply hspent.denied
  · rw [hkept.record, expire_record]
    exact hseen.loaded
  · exact hlater _ hmem _ (List.mem_append_right _ (List.mem_singleton_self _))

/-! ### Whom the worker has asked for -/

def looked (s : Loop Cert) (identity : UInt64) : Event Cert → UInt64
  | .look _ =>
      match s.stage with
      | .top => s.identityGeneration
      | _ => identity
  | _ => identity

def asked (s : Loop Cert) (identity : UInt64) : List (Event Cert) → UInt64
  | [] => identity
  | e :: events => asked (step s e) (looked s identity e) events

def Stage.For (identity : UInt64) : Stage → Prop
  | .captured c => c.identity = identity
  | .saved c _ => c.identity = identity
  | .asking c => c.identity = identity
  | _ => True

theorem rotate_stage (s : Loop Cert) (cert : Option Cert) : (rotate s cert).stage = s.stage := by
  unfold rotate
  split
  · rfl
  · rfl

theorem identity_stage (s : Loop Cert) (details : Option (Cert × Sn)) (l : Loading) (m later : Moment Cert) :
    (policyIdentity s details l m later).stage = s.stage := by
  unfold policyIdentity
  split
  · rfl
  · rw [expire_stage, rotate_stage]
    split
    · rw [load, expire_stage]
      rfl
    · rfl

theorem step_asked {identity : UInt64} (h : Stage.For identity s.stage) :
    Stage.For (looked s identity e) (step s e).stage := by
  cases e with
  | ask m =>
      change Stage.For identity (expire s m).stage
      rw [expire_stage]
      exact h
  | look m =>
      by_cases hstage : s.stage = .top
      · have hlooked : looked s identity (.look m) = s.identityGeneration := by
          unfold looked
          dsimp only
          rw [hstage]
        rw [step_look hstage, hlooked]
        exact expire_identity s m
      · have hlooked : looked s identity (.look m) = identity := by
          unfold looked
          dsimp only
          split
          next h => exact absurd h hstage
          next => rfl
        have hstep : step s (.look m) = s := by
          unfold step
          dsimp only
          split
          next h => exact absurd h hstage
          next => rfl
        rw [hlooked, hstep]
        exact h
  | save =>
      unfold step
      dsimp only
      split
      next c hstage =>
        rw [hstage] at h
        split
        · exact h
        · exact h
      next => exact h
  | settle =>
      unfold step
      dsimp only
      split
      next c ok hstage =>
        rw [hstage] at h
        exact h
      next => trivial
      next => exact h
  | answer m text =>
      unfold step
      dsimp only
      split
      next c hstage =>
        unfold answer
        split
        · split
          · trivial
          · trivial
        · trivial
      next => exact h
  | store f tick | pause tick woken =>
      unfold step
      dsimp only
      split
      next => trivial
      next => exact h
  | identity details l m later =>
      change Stage.For identity (policyIdentity s details l m later).stage
      rw [identity_stage]
      exact h
  | stop => exact h
  | lastSave f =>
      unfold step
      dsimp only
      split
      · exact h
      · exact h
  | restart storageFailed =>
      cases storageFailed with
      | false => trivial
      | true => trivial

theorem run_asked {identity : UInt64} (events : List (Event Cert)) (h : Stage.For identity s.stage) :
    Stage.For (asked s identity events) (run s events).stage := by
  induction events generalizing s identity with
  | nil => exact h
  | cons e events ih => exact ih (step_asked h)

theorem answer_dropped {c : Captured} (hstage : s.stage = .asking c) (h : c.identity ≠ s.identityGeneration) (m : Moment Cert)
    (text : Option (List Char)) : step s (.answer m text) = { s with stage := .waiting c.poll } := by
  rw [step_answer hstage, answer, if_neg]
  simp [applies, h]

/-- The offline grace ends with the first of the two clocks, and only an answer, a record that is loaded or a new process
gives a new one. -/
theorem grace_not_stretched (storageFailed : Bool) (copies : Copies) (events : List (Event Cert)) :
    let start : Loop Cert := .start storageFailed copies
    let s := run start events
    let g := grantOf start ⟨none, false⟩ events
    (∀ m, loaded s.record = true → policyMediaAllowed s m = true →
      Admitted s m ∧ g.denied = false ∧ (g.loadedAt = none → s.remainingMs ≤ graceMs) ∧
        ∀ now, g.loadedAt = some now → s.remainingMs.toNat ≤ (s.record.offlineAllowedUntil.toNat - now.toNat) * 1000) ∧
    (∀ before e after s₁ m m', events = before ++ e :: after → (events.flatMap ticks ++ [m'.tick]).Pairwise (· ≤ ·) →
      (s₁, m) ∈ glances (run start before) e → Observed s₁ m → Unrenewed (step (run start before) e) after →
        policyMediaAllowed s m' = false) ∧
    ∀ c m text, s.stage = .asking c → asked start 0 events ≠ s.identityGeneration →
      step s (.answer m text) = { s with stage := .waiting c.poll } := by
  refine ⟨fun m hloaded hallowed => ?_, ?_, fun c m text hstage hother => ?_⟩
  · have hbounded := run_bounded events (@start_bounded Cert _ storageFailed copies)
    have hadmitted := admitted hloaded hallowed
    refine ⟨hadmitted, ?_, hbounded.answered, hbounded.loaded⟩
    have hdenied := hbounded.denied
    rw [hadmitted.undenied] at hdenied
    simpa using hdenied
  · rintro before e after s₁ m m' rfl hticks hglance hseen hafter
    exact expiry_stays rfl hticks hglance hseen hafter
  · have hstart : Stage.For 0 (Loop.start storageFailed copies : Loop Cert).stage := by
      cases storageFailed with
      | false => trivial
      | true => trivial
    have hasked := run_asked events hstart
    rw [hstage] at hasked
    exact answer_dropped hstage (fun h => hother (hasked.symm.trans h)) m text

/-! ### One terminal -/

def terminal : Sn := ⟨"773".toList, by decide⟩

def nothing : Copies := ⟨none, none, none⟩

def first : Loop Unit := .start false nothing

def moment (utc tick : UInt64) : Moment Unit := ⟨utc, utc, tick, fun _ => true⟩

def identified (utc tick : UInt64) : Event Unit :=
  .identity (some ((), terminal)) ⟨Access.all, utc, utc, tick⟩ (moment utc tick) (moment utc tick)

def saved : Event Unit := .lastSave ⟨.flushed, .flushed, true⟩

def removed (utc tick : UInt64) : Event Unit :=
  .identity none ⟨Access.all, utc, utc, tick⟩ (moment utc tick) (moment utc tick)

def overtaken : List (Event Unit) :=
  [identified 1700000000 5, .look (moment 1700000001 6), .save ⟨.flushed, .flushed, true⟩ 7, .settle, removed 1700000002 8]

theorem grace_of_terminal :
    (run first [identified 1700000000 5]).remainingMs.toNat ≤
      ((run first [identified 1700000000 5]).record.offlineAllowedUntil.toNat - (1700000000 : UInt64).toNat) * 1000 ∧
    policyMediaAllowed (run first [identified 1700000000 5, .ask (moment 1700259200 6), .ask (moment 1600000000 7)])
      (moment 1600000001 8) = false ∧
    step (run first overtaken) (.answer (moment 1700000003 9) none) = { run first overtaken with stage := .waiting true } :=
  ⟨((grace_not_stretched false nothing [identified 1700000000 5]).1 (moment 1700000001 6) (by decide +kernel)
      (by decide +kernel)).2.2.2 1700000000 (by decide +kernel),
    (grace_not_stretched false nothing
        [identified 1700000000 5, .ask (moment 1700259200 6), .ask (moment 1600000000 7)]).2.1
      [identified 1700000000 5] (.ask (moment 1700259200 6)) [.ask (moment 1600000000 7)] _ (moment 1700259200 6)
      (moment 1600000001 8) rfl (by decide +kernel) (List.mem_singleton_self _)
      ⟨by decide +kernel, by decide +kernel, .inl (by decide +kernel)⟩ ⟨rfl, trivial⟩,
    (grace_not_stretched false nothing overtaken).2.2
      ⟨(run first [identified 1700000000 5]).record, true, true, 1⟩ (moment 1700000003 9) none (by decide +kernel)
      (by decide +kernel)⟩

def denial : List Char :=
  "\x7b\"v\":1,\"sn\":\"773\",\"mqtt_rtp_allowed\":false,\"stop_facts\":[\"terminal_inactive\"]\x7d".toList

def noAnswer : Event Unit → Bool
  | .answer _ _ => false
  | _ => true

/-- After a restart with the clock set back more than 72 hours are left, an expiry that had been seen is forgotten, and
so is an answer that had denied and was not written. -/
theorem grace_stretched :
    (¬ ∀ events m, (events.flatMap ticks ++ [m.tick]).Pairwise (· ≤ ·) → loaded (run first events).record = true →
      policyMediaAllowed (run first events) m = true → (run first events).remainingMs ≤ graceMs) ∧
    (¬ ∀ before after m m', ((before ++ .ask m :: after).flatMap ticks ++ [m'.tick]).Pairwise (· ≤ ·) →
      Observed (run first before) m → after.all noAnswer = true →
      policyMediaAllowed (run first (before ++ .ask m :: after)) m' = false) ∧
    ¬ ∀ before after m text m', ((before ++ .answer m text :: after).flatMap ticks ++ [m'.tick]).Pairwise (· ≤ ·) →
      grants (run first before) (.answer m text) = some ⟨none, true⟩ → after.all noAnswer = true →
      loaded (run first (before ++ .answer m text :: after)).record = true →
      policyMediaAllowed (run first (before ++ .answer m text :: after)) m' = false := by
  refine ⟨fun h => ?_, fun h => ?_, fun h => ?_⟩
  · have hbound := h [identified 1700000000 5, saved, .restart false, identified 1600000000 6] (moment 1600000001 7)
      (by decide +kernel) (by decide +kernel) (by decide +kernel)
    exact absurd hbound (by decide +kernel)
  · have hdenied := h [identified 1700000000 5, saved] [.restart false, identified 1700000000 7] (moment 1700259200 6)
      (moment 1700000001 8) (by decide +kernel) ⟨by decide +kernel, by decide +kernel, .inl (by decide +kernel)⟩
      (by decide +kernel)
    exact absurd hdenied (by decide +kernel)
  · have hdenied := h
      [identified 1700000000 5, .look (moment 1700000001 6), .save ⟨.flushed, .flushed, true⟩ 7, .settle]
      [.restart false, identified 1700000003 9] (moment 1700000002 8) (some denial) (moment 1700000004 10)
      (by decide +kernel) (by decide +kernel) (by decide +kernel) (by decide +kernel)
    exact absurd hdenied (by decide +kernel)

end EtranProcessing.Proxy.OfflineGrace
