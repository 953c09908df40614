import EtranProcessing.Ingress.KeyframeArmed

namespace EtranProcessing.Ingress.KeyframeStarts

open State Clock JsonText Feedback Routes Stores Lifecycle MediaV2 Framing Control EventLoop Moves Settling
open LegacyPaths ModernPaths ConnectionPaths Refinement KeyframeArmed

theorem upsertRoute_calm {w w' : World} {sn : CString} {rtp rtcp : Int} (hup : upsertRoute w sn rtp rtcp = some w')
    (hfree : ¬ Owned w sn) : Calm w w' := by
  obtain rfl := upsertRoute_some hup
  exact ⟨.of_sessions rfl, retarget_kept rfl hfree⟩

theorem saveBoth_calm (w : World) (s : MediaSession) (renewedAt : Int) :
    Calm w (mediaRedisSaveRoute (mediaRedisSaveSession w s renewedAt) s) :=
  .of_quiet (saveBoth_quiet w s renewedAt)

section Requests

theorem renewRecord_calm (w : World) (i : Nat) (body : CString) (t : Int) (hi : i < w.sessions.length)
    (hl : live (session w i) = true) : Calm w (renewRecord w i body t).2 := by
  simp only [renewRecord]
  split
  · exact .refl w
  · split
    · exact .refl w
    · apply Calm.trans _ (saveBoth_calm _ _ _)
      exact touch_calm w hi hl hl (renewed_identity _ _ _)

theorem renewMediaSession_calm (w : World) (id body : CString) : Calm w (renewMediaSession w id body).2 := by
  have hadvance := Calm.of_quiet (advance_quiet w)
  simp only [renewMediaSession]
  cases hfind : findSessionById w id with
  | none => exact hadvance
  | some i =>
      dsimp only
      split
      · exact hadvance
      next hactive =>
        simp only [not_or, not_ne_iff] at hactive
        apply hadvance.trans
        exact renewRecord_calm (advance w) i body _ (findSessionById_some hfind).1 ((live_iff _).mpr (.inl hactive.1))

theorem renewMediaSessionForSn_calm (w : World) (body : CString) : Calm w (renewMediaSessionForSn w body).2 := by
  simp only [renewMediaSessionForSn]
  split
  · exact .refl w
  · exact renewMediaSession_calm w _ body

theorem stopMediaSessionForSn_calm (w : World) (body : CString) (hr : Ready w) :
    Calm w (stopMediaSessionForSn w body).2 := by
  simp only [stopMediaSessionForSn]
  split
  · exact .refl w
  · cases hown : findActiveSessionForSn w (jsonGetString body "sn" 128) with
    | none => exact .refl w
    | some i =>
        dsimp only
        split
        · exact .refl w
        · exact stopMediaSession_calm w _ _ ((hr.covered i (findActiveSessionForSn_some hown).2.1).harmless hr.sane)

theorem getMediaSessionHealth_calm (w : World) (id : CString) (hr : Ready w) : Calm w (getMediaSessionHealth w id).2 := by
  simp only [getMediaSessionHealth]
  split
  · exact .refl w
  · exact expireAdvanced_calm w _ hr

theorem mvRenewed_calm (w : World) (i : Nat) (s : MediaSession) (t : Int) (hi : i < w.sessions.length)
    (hl : live (session w i) = true) (hs : SameIdentity (session w i) s) (hst : live s = true) :
    Calm w (mvRenewed w i s t).2 := by
  simp only [mvRenewed]
  apply Calm.trans _ (Calm.of_quiet (mvPersist_quiet _ _))
  exact touch_calm w hi hl hst (hs.trans (renewed_identity _ _ _))

theorem mvRenew_calm (w : World) (i : Nat) (deadline : Int) (hi : i < w.sessions.length) :
    Calm w (mvRenew w i deadline).2 := by
  simp only [mvRenew]
  apply (Calm.of_quiet (advance_quiet w)).trans
  split
  · exact .refl _
  next hlive =>
    have hl : live (session (advance w) i) = true := by simpa using hlive
    split
    · obtain ⟨hclock, hcase⟩ := Lease.renew_cases (advance w) (session (advance w) i) deadline
      have hq := Quiet.of_clockOnly hclock
      generalize mediaV3RenewDeadline (advance w) (session (advance w) i) deadline = answer at hq hcase ⊢
      obtain ⟨accepted, w₁⟩ := answer
      have hq₁ : Quiet (advance w) w₁ := hq
      have hi₁ : i < w₁.sessions.length := by rw [hq₁.sessions]; exact hi
      have hl₁ : live (session w₁ i) = true := by rw [hq₁.session_eq]; exact hl
      obtain rfl | ⟨rfl, _⟩ | ⟨d, ttl, rfl, _⟩ := hcase
      · exact .of_quiet hq₁
      · refine (Calm.of_quiet hq₁).trans (mvRenewed_calm w₁ i _ _ hi₁ hl₁ ?_ hl)
        rw [hq₁.session_eq]
        exact .refl _
      · refine (Calm.of_quiet hq₁).trans (mvRenewed_calm w₁ i _ _ hi₁ hl₁ ?_ hl)
        rw [hq₁.session_eq]
        constructor <;> rfl
    · split
      · exact .refl _
      · exact mvRenewed_calm (advance w) i _ _ hi hl (renewed_identity _ _ _) hl

theorem modern_harmless {w : World} (hs : Sane (registry w)) {i : Nat} (hm : modern (session w i) = true) :
    Harmless w (session w i).sessionId := by
  intro k hfind hstate j hjk hl hmj hsn
  obtain ⟨-, hid, hne⟩ := findSessionById_some hfind
  by_cases hki : k = i
  · rcases modern_state hs (i := i) hm with hlive | hstopped
    · rw [hki] at hjk hsn
      exact hjk (owner_unique hs hlive hl hmj hsn.symm).symm
    · rw [hki] at hstate
      exact hstate hstopped
  · have hlegacy := ((hs.pair hki).id hid (hid ▸ hne)).2
    change modern (session w i) = false at hlegacy
    rw [hm] at hlegacy
    cases hlegacy

theorem mvUpdate_calm (w : World) (r : MediaUpdate) (negotiated : Bool) (hr : Ready w) :
    Calm w (mvUpdate w r negotiated).2 := by
  simp only [mvUpdate]
  cases hfind : findSessionById w r.sessionId with
  | none => exact .refl w
  | some i =>
      dsimp only
      split
      · exact .refl w
      next hident =>
        split
        · exact .refl w
        · have hmod : modern (session w i) = true := by
            simp only [mvIdentity, Bool.not_eq_false, Bool.and_eq_true] at hident
            exact hident.1.1.1.1.1.1
          have hcalm := expireAdvanced_calm w i hr
          have hpath : Path anything (registry w) (registry (expireMediaSession (advance w) i (now w))) :=
            expireMediaSession_path (advance w) i (now w)
          have hset : Settles w (expireMediaSession (advance w) i (now w)) :=
            (advance_quiet w).settles.trans (expireMediaSession_settles (advance w) i (now w))
          apply hcalm.trans
          have hs := hpath.sane hr.sane
          generalize expireMediaSession (advance w) i (now w) = w₁ at hs hset ⊢
          have hmod₁ : modern (session w₁ i) = true := by
            rw [(hset.identity i).modern_eq]
            exact hmod
          have hi₁ : i < w₁.sessions.length := by
            rw [hset.length]
            exact (findSessionById_some hfind).1
          cases r.kind with
          | stop reason =>
              dsimp only
              apply Calm.trans _ (Calm.of_quiet (mvPersist_quiet _ _))
              exact stopMediaSession_calm w₁ _ reason (modern_harmless hs hmod₁)
          | renew deadline => exact mvRenew_calm w₁ i deadline hi₁
          | health => exact .of_quiet (mvHealth_quiet w₁ _)

end Requests

section Legacy

/-- What a legacy start finds: its device is free of contract 2 and 3 sessions,
and so are the devices of the records under its id that are not STOPPED. -/
structure Enters (w : World) (r : StartRequest) : Prop where
  armed : Armed w
  legible : Legible r
  free : ¬ Owned w r.fields.sn
  named : ∀ k, (session w k).sessionId = r.fields.sessionId → (session w k).state ≠ .stopped →
    ¬ Owned w (session w k).sn

variable {r : StartRequest} {i : Nat} {w w' : World}

theorem Vacates.owned (h : Vacates w i w') {sn : CString} (ho : Owned w' sn) : Owned w sn := by
  obtain ⟨j, hl, hm, hsn⟩ := ho
  have he := h.live j hl
  rw [he] at hl hm hsn
  exact ⟨j, hl, hm, hsn⟩

theorem Vacates.armed (h : Vacates w i w') (ha : Armed w) : Armed w' := by
  intro c hc hp ho
  rw [h.clients] at hc
  exact ha c hc hp (Vacates.owned h ho)

theorem Enters.vacates (h : Enters w r) (hv : Vacates w i w') :
    Enters w' r where
  armed := Vacates.armed hv h.armed
  legible := h.legible
  free ho := h.free (Vacates.owned hv ho)
  named k hid hstate ho := by
    rcases hv.slot k with he | he
    · rw [he] at hid hstate ho
      exact h.named k hid hstate (Vacates.owned hv ho)
    · rw [he] at hid
      exact h.legible.sessionId.1 hid.symm

variable {w : World}

theorem owned_of_set {t : MediaSession} (hi : i < w.sessions.length)
    (ht : modern t = false ∨ live t = false) {sn : CString} (ho : Owned (setSession w i t) sn) : Owned w sn := by
  obtain ⟨j, hl, hm, hsn⟩ := ho
  rw [session_setSession w i t hi] at hl hm hsn
  by_cases hj : j = i
  · rw [hj, Function.update_self] at hl hm
    rcases ht with hlegacy | hdead
    · rw [hm] at hlegacy
      cases hlegacy
    · rw [hl] at hdead
      cases hdead
  · rw [Function.update_of_ne hj] at hl hm hsn
    exact ⟨j, hl, hm, hsn⟩

theorem armed_set {t : MediaSession} (hi : i < w.sessions.length)
    (ht : modern t = false ∨ live t = false) (ha : Armed w) : Armed (setSession w i t) :=
  fun c hc hp ho => ha c hc hp (owned_of_set hi ht ho)

/-- A slot with a legacy record for the device, in a world that may be entered
but for that slot. -/
structure Seated (w : World) (i : Nat) (r : StartRequest) : Prop where
  armed : Armed w
  bound : i < w.sessions.length
  legacy : modern (session w i) = false
  sn : (session w i).sn = r.fields.sn
  sessionId : (session w i).sessionId = r.fields.sessionId
  free : ¬ Owned w r.fields.sn
  named : ∀ k, k ≠ i → (session w k).sessionId = r.fields.sessionId → (session w k).state ≠ .stopped →
    ¬ Owned w (session w k).sn

theorem Seated.harmless (h : Seated w i r) :
    Harmless w (session w i).sessionId := by
  intro k hfind hstate j hjk hl hm hsn
  obtain ⟨-, hid, -⟩ := findSessionById_some hfind
  have howned : Owned w (session w k).sn := ⟨j, hl, hm, hsn⟩
  by_cases hki : k = i
  · rw [hki, h.sn] at howned
    exact h.free howned
  · exact h.named k hki (hid.trans h.sessionId) hstate howned

theorem Seated.calm (h : Seated w i r) (hc : Calm w w')
    (hlen : w'.sessions.length = w.sessions.length) (hslots : ∀ k, k ≠ i → session w' k = session w k) :
    Seated w' i r where
  armed := hc.armed h.armed
  bound := hlen ▸ h.bound
  legacy := (hc.wanes.identity i).modern_eq.trans h.legacy
  sn := (hc.wanes.identity i).sn.trans h.sn
  sessionId := (hc.wanes.identity i).sessionId.trans h.sessionId
  free ho := h.free (hc.wanes.owned ho)
  named k hki hid hstate ho := by
    rw [hslots k hki] at hid hstate ho
    exact h.named k hki hid hstate (hc.wanes.owned ho)

theorem Seated.quiet (h : Seated w i r) (hq : Quiet w w') : Seated w' i r :=
  h.calm (.of_quiet hq) (by rw [hq.sessions]) fun k _ => by rw [hq.session_eq]

theorem Enters.seats (h : Enters w r) (hi : i < w.sessions.length)
    (slot : MediaSession) (hslot : modern slot = false) (rtp rtcp createdAt : Int) :
    Seated (setSession w i (startRecord slot r rtp rtcp createdAt)) i r := by
  have hlegacy : modern (startRecord slot r rtp rtcp createdAt) = false := hslot
  have hset := session_setSession w i (startRecord slot r rtp rtcp createdAt) hi
  refine ⟨armed_set hi (.inl hlegacy) h.armed, ?_, ?_, ?_, ?_, ?_, ?_⟩
  · simpa [setSession] using hi
  · rw [hset, Function.update_self]
    exact hlegacy
  · rw [hset, Function.update_self]
    exact safeStrcpy_of_lt h.legible.sn.2
  · rw [hset, Function.update_self]
    exact safeStrcpy_of_lt h.legible.sessionId.2
  · exact fun ho => h.free (owned_of_set hi (.inl hlegacy) ho)
  · intro k hki hid hstate ho
    rw [hset, Function.update_of_ne hki] at hid hstate ho
    exact h.named k hid hstate (owned_of_set hi (.inl hlegacy) ho)

theorem startFailed_armed (h : Seated w i r) (reason : CString) :
    Armed (startFailed w i reason) :=
  armed_set (w := w) h.bound (.inr rfl) h.armed

theorem startChecked_armed (h : Seated w i r) :
    Armed (startChecked w i).2 := by
  have hexpired : Armed (expireMediaSession (advance w) i (now w)) := by
    have hadvanced := h.quiet (advance_quiet w)
    exact (expireMediaSession_harmless (advance w) i (now w) fun _ => hadvanced.harmless).armed hadvanced.armed
  simp only [startChecked]
  split
  · exact hexpired
  · exact (saveBoth_calm _ _ _).armed hexpired

theorem startActivate_armed (h : Seated w i r)
    (hl : live (session w i) = true) : Armed (startActivate w i r).2 := by
  have hadvanced := h.quiet (advance_quiet w)
  simp only [startActivate]
  apply startChecked_armed (r := r)
  apply Seated.quiet _ (countStarted_quiet _)
  apply hadvanced.calm
  · exact touch_calm (advance w) hadvanced.bound hl rfl (activated_identity _ _ _)
  · exact List.length_set
  · intro k hki
    rw [session_setSession (advance w) i _ hadvanced.bound, Function.update_of_ne hki]

theorem startSlot_armed (w : World) (r : StartRequest) (rtp rtcp : Int) (h : Enters w r) (hs : Sane (registry w)) :
    Armed (startSlot w r rtp rtcp).2 := by
  simp only [startSlot]
  cases halloc : allocateSessionSlot w with
  | none => exact h.armed
  | some slot =>
      obtain ⟨i, w₁⟩ := slot
      have hv := allocateSessionSlot_spec halloc
      have henters := h.vacates hv
      have hadvanced : Enters (advance w₁) r := ⟨henters.armed, henters.legible, henters.free, henters.named⟩
      have hsane : Sane (registry w₁) := (hv.path (p := anything) fun _ => trivial).sane hs
      have hzero : session w₁ i = {} := (hsane.record i).zero hv.vacant
      have hempty : modern (session w₁ i) = false := by rw [hzero]; rfl
      have hseated := hadvanced.seats (i := i) hv.lt (session w₁ i) hempty rtp rtcp (now w₁)
      have hlive : live (session (setSession (advance w₁) i (startRecord (session w₁ i) r rtp rtcp (now w₁))) i) = true := by
        rw [session_setSession (advance w₁) i _ hv.lt, Function.update_self]
        rfl
      dsimp only
      generalize startRecord (session w₁ i) r rtp rtcp (now w₁) = t at hseated hlive ⊢
      have hq := janusMountpointEnsure_quiet (setSession (advance w₁) i t) t.mountpointId rtp rtcp r.fields.pin
      generalize janusMountpointEnsure (setSession (advance w₁) i t) t.mountpointId rtp rtcp r.fields.pin = answer at hq ⊢
      obtain ⟨outcome, w₂⟩ := answer
      have hq₁ : Quiet (setSession (advance w₁) i t) w₂ := hq
      have hseated₂ := hseated.quiet hq₁
      cases outcome with
      | ready =>
          dsimp only
          cases hup : upsertRoute w₂ r.fields.sn rtp rtcp with
          | none => exact startFailed_armed (hseated₂.quiet (janusSend_quiet _ _)) _
          | some w₃ =>
              have hsessions : w₃.sessions = w₂.sessions := by rw [upsertRoute_some hup]
              have hslots : session w₃ = session w₂ := by
                funext k
                simp only [session, hsessions]
              apply startActivate_armed (r := r)
              · apply hseated₂.calm (upsertRoute_calm hup hseated₂.free) (by rw [hsessions])
                exact fun k _ => by rw [hslots]
              · rw [hslots, hq₁.session_eq]
                exact hlive
      | unavailable | conflict => exact startFailed_armed hseated₂ _

theorem startPorts_armed (w : World) (r : StartRequest) (h : Enters w r) (hs : Sane (registry w)) :
    Armed (startPorts w r).2 := by
  simp only [startPorts]
  split
  · cases allocatePortPair w with
    | none => exact h.armed
    | some pair => exact startSlot_armed w r pair.1 pair.2 h hs
  · exact startSlot_armed w r _ _ h hs

/-- The records under an id that are not STOPPED take no device from a contract
2 or 3 session. -/
def Unclaimed (w : World) (id : CString) : Prop :=
  ∀ k, (session w k).sessionId = id → (session w k).state ≠ .stopped → ¬ Owned w (session w k).sn

theorem Wanes.unclaimed (h : Wanes w w') {id : CString} (hu : Unclaimed w id) : Unclaimed w' id := by
  intro k hid hstate ho
  rw [(h.identity k).sessionId] at hid
  rw [(h.identity k).sn] at ho
  apply hu k hid _ (h.owned ho)
  by_cases hl : live (session w' k) = true
  · rcases (live_iff _).mp (h.live k hl) with hactive | hstarting
    · simp [hactive]
    · simp [hstarting]
  · rwa [← h.rest k (by simpa using hl) hstate]

theorem startFresh_armed (w : World) (r : StartRequest) (hr : Ready w) (ha : Armed w) (hlegible : Legible r)
    (hu : Unclaimed w r.fields.sessionId) : Armed (startFresh w r).2 := by
  have hcalm := expireOptional_calm w (findActiveSessionForSn w r.fields.sn) r.requestAt hr
  have hpath := expireOptional_path (p := anything) w (findActiveSessionForSn w r.fields.sn) r.requestAt
  have hs := hpath.sane hr.sane
  have ha₁ := hcalm.armed ha
  have hu₁ := Wanes.unclaimed hcalm.wanes hu
  simp only [startFresh]
  generalize expireOptional w (findActiveSessionForSn w r.fields.sn) r.requestAt = w₁ at hs ha₁ hu₁ ⊢
  cases hown : findActiveSessionForSn w₁ r.fields.sn with
  | none =>
      apply startPorts_armed w₁ r _ hs
      refine ⟨ha₁, hlegible, ?_, hu₁⟩
      rintro ⟨j, hl, -, hsn⟩
      exact findActiveSessionForSn_none hlegible.sn.1 hown j hl hsn
  | some i =>
      dsimp only
      split
      · exact ha₁
      next hid =>
        obtain ⟨-, hl, hsn, -⟩ := findActiveSessionForSn_some hown
        apply startPorts_armed w₁ r _ hs
        refine ⟨ha₁, hlegible, ?_, hu₁⟩
        have hfree := hu₁ i (not_ne_iff.mp hid) (by rcases (live_iff _).mp hl with h | h <;> simp [h])
        rwa [hsn] at hfree

theorem startExisting_calm (w : World) (i : Nat) (r : StartRequest) (hs : Sane (registry w)) (hi : i < w.sessions.length)
    (hl : live (session w i) = true) (hm : modern (session w i) = false) : Calm w (startExisting w i r).2 := by
  have hfree : ¬ Owned w (session w i).sn := by
    rintro ⟨j, hlj, hmj, hsn⟩
    rw [owner_unique hs hl hlj hmj hsn.symm, hmj] at hm
    cases hm
  simp only [startExisting]
  split
  · exact .refl w
  · have hq := janusMountpointEnsure_quiet w (session w i).mountpointId (session w i).rtpPort (session w i).rtcpPort
      (session w i).pin
    generalize janusMountpointEnsure w (session w i).mountpointId (session w i).rtpPort (session w i).rtcpPort
      (session w i).pin = answer at hq ⊢
    obtain ⟨outcome, w₁⟩ := answer
    have hq₁ : Quiet w w₁ := hq
    cases outcome with
    | conflict => exact .of_quiet hq₁
    | unavailable => exact .of_quiet hq₁
    | ready =>
        dsimp only
        have hsame := renewal_identity r hl
        generalize (if r.leaseBound then renewed (session w i) r.ttlSec r.requestAt else session w i) = s at hsame ⊢
        have hi₁ : i < w₁.sessions.length := by rw [hq₁.sessions]; exact hi
        rw [← hq₁.session_eq] at hl hsame
        have htouched := touch_calm w₁ hi₁ hl hsame.2 hsame.1
        apply (Calm.of_quiet hq₁).trans
        apply htouched.trans
        apply Calm.trans _ (saveBoth_calm _ _ _)
        cases hup : upsertRoute (setSession w₁ i s) s.sn s.rtpPort s.rtcpPort with
        | none => exact .refl _
        | some w₂ =>
            apply upsertRoute_calm hup
            intro ho
            have hbefore := (Calm.of_quiet hq₁).wanes.owned (htouched.wanes.owned ho)
            rw [hsame.1.sn, hq₁.session_eq] at hbefore
            exact hfree hbefore

def SparedAll (w : World) (id : CString) : Prop := ∀ k, (session w k).sessionId = id → ¬ Exposed w k

theorem startLookup_armed (w : World) (r : StartRequest) (hr : Ready w) (ha : Armed w) (hlegible : Legible r)
    (hspared : SparedAll w r.fields.sessionId) : Armed (startLookup w r).2 := by
  simp only [startLookup]
  cases hfind : findSessionById w r.fields.sessionId with
  | none =>
      apply startFresh_armed w r hr ha hlegible
      exact fun k hid => absurd hid (findSessionById_none hlegible.sessionId.1 hfind k)
  | some i =>
      obtain ⟨hi, hid, hne⟩ := findSessionById_some hfind
      have hcalm := expireMediaSession_calm w i r.requestAt hr
      have hpath := expireMediaSession_path (p := anything) w i r.requestAt
      have hset := expireMediaSession_settles w i r.requestAt
      have hr₁ := hcalm.ready hpath hr
      have ha₁ := hcalm.armed ha
      dsimp only
      generalize expireMediaSession w i r.requestAt = w₁ at hcalm hr₁ ha₁ hset ⊢
      have hid₁ : (session w₁ i).sessionId = r.fields.sessionId := (hset.identity i).sessionId.trans hid
      split
      · exact ha₁
      next hlegacy =>
        have hm : modern (session w₁ i) = false := by simpa using hlegacy
        split
        next hl => exact (startExisting_calm w₁ i r hr₁.sane (hset.length ▸ hi) hl hm).armed ha₁
        next hdead =>
          split
          · split <;> exact ha₁
          · apply startFresh_armed w₁ r hr₁ ha₁ hlegible
            intro k hk hstate ho
            by_cases hl : live (session w₁ k) = true
            · obtain ⟨j, hlj, hmj, hsn⟩ := ho
              have hki : k ≠ i := fun h => hdead (h ▸ hl)
              have hmk := ((hr₁.sane.pair hki).id (hk.trans hid₁.symm) (hk ▸ hne)).1
              change modern (session w₁ k) = false at hmk
              rw [owner_unique hr₁.sane hl hlj hmj hsn.symm, hmj] at hmk
              cases hmk
            · have hl' : live (session w₁ k) = false := by simpa using hl
              have he := hcalm.wanes.rest k hl' hstate
              rw [he] at hk hl' hstate ho
              exact hspared k hk ⟨hl', hstate, hcalm.wanes.owned ho⟩

theorem handleMediaSessionStart_armed (w : World) (body : CString) (hr : Ready w) (ha : Armed w)
    (hspared : SparedAll w (jsonGetString body "session_id" 64)) : Armed (handleMediaSessionStart w body).2 := by
  simp only [handleMediaSessionStart]
  split
  · exact ha
  · split
    · exact ha
    next hnamed =>
      rw [not_or] at hnamed
      split
      · exact ha
      · refine startLookup_armed (advance w) _ ⟨hr.sane, hr.covered⟩ ha ?_ ?_
        · constructor
          · exact ⟨hnamed.1, jsonGetString_length body "session_id" 64 (by decide)⟩
          · exact ⟨hnamed.2, jsonGetString_length body "sn" 128 (by decide)⟩
        · exact hspared

end Legacy

section Modern

/-- What a contract 2 or 3 start finds: nobody has its id, and its device is free. -/
structure Arrives (w : World) (c : MediaSession) : Prop where
  armed : Armed w
  named : c.sessionId ≠ []
  fresh : ∀ j, (session w j).sessionId ≠ c.sessionId
  device : ∀ j, live (session w j) = true → (session w j).sn ≠ c.sn

variable {c : MediaSession} {w : World}

theorem Arrives.quiet {w w' : World} (h : Arrives w c) (hq : Quiet w w') : Arrives w' c where
  armed := (Calm.of_quiet hq).armed h.armed
  named := h.named
  fresh j := by
    rw [hq.session_eq]
    exact h.fresh j
  device j := by
    rw [hq.session_eq]
    exact h.device j

theorem Arrives.vacates {w w' : World} {i : Nat} (h : Arrives w c) (hv : Vacates w i w') :
    Arrives w' c where
  armed := Vacates.armed hv h.armed
  named := h.named
  fresh j hid := by
    rcases hv.slot j with he | he
    · exact h.fresh j (he ▸ hid)
    · rw [he] at hid
      exact h.named hid.symm
  device j hl := by
    have he := hv.live j hl
    rw [he] at hl ⊢
    exact h.device j hl

theorem Arrives.same {c d : MediaSession} (h : Arrives w c) (hid : d.sessionId = c.sessionId)
    (hsn : d.sn = c.sn) : Arrives w d :=
  ⟨h.armed, hid ▸ h.named, hid ▸ h.fresh, hsn ▸ h.device⟩

theorem takeOver_armed (ha : Armed w) (c : MediaSession) : Armed (takeOver w c) := by
  simp only [takeOver]
  split
  · have hkept : Kept w (mediaRevokeCameraClients w c.sn) := by
      apply kept_map (f := fun d => if d.sn = c.sn then { d with cameraRouteRevoked := true } else d) rfl
      intro d _
      split
      · exact ⟨rfl, rfl, fun hr => absurd hr (by simp), rfl⟩
      · exact .refl d
    exact hkept.armed (fun _ ho => ho) ha
  · exact ha

theorem takeOver_arrives (h : Arrives w c) : Arrives (takeOver w c) c := by
  have hsession : session (takeOver w c) = session w := (takeOver_spec w c).session_eq
  refine ⟨takeOver_armed h.armed c, h.named, ?_, ?_⟩
  · rw [hsession]
    exact h.fresh
  · rw [hsession]
    exact h.device

theorem seated_armed {w w₁ : World} {i : Nat} (h : Arrives w c) (hi : i < w.sessions.length)
    (hup : upsertRoute w c.sn c.rtpPort c.rtcpPort = some w₁) : Armed (limitKeyframes (setSession w₁ i c) c.sn) := by
  have hfree : ¬ Owned w c.sn := fun ⟨j, hl, _, hsn⟩ => h.device j hl hsn
  have hcalm := upsertRoute_calm hup hfree
  have hlen : i < w₁.sessions.length := by
    rw [upsertRoute_some hup]
    exact hi
  intro d hd hp ho
  obtain ⟨b, hb, rfl⟩ := List.mem_map.mp hd
  split at hp
  next hsn => rw [if_pos hsn]
  next hsn =>
    rw [if_neg hsn] at ho ⊢
    obtain ⟨j, hl, hm, hj⟩ := ho
    apply hcalm.armed h.armed b hb hp
    rw [show session (limitKeyframes (setSession w₁ i c) c.sn) = session (setSession w₁ i c) from rfl,
      session_setSession w₁ i c hlen] at hl hm hj
    by_cases hji : j = i
    · rw [hji, Function.update_self] at hj
      exact absurd hj.symm hsn
    · rw [Function.update_of_ne hji] at hl hm hj
      exact ⟨j, hl, hm, hj⟩

theorem mvChecked_armed {i : Nat} (ha : Armed w) (h : Harmless w (session w i).sessionId) :
    Armed (mvChecked w i).2 := by
  have hexpired : Armed (expireMediaSession (advance w) i (now w)) :=
    (expireMediaSession_harmless (advance w) i (now w) fun _ => h).armed ha
  simp only [mvChecked]
  split
  · exact hexpired
  · exact (Calm.of_quiet ((mvPersist_quiet _ _).trans (countStarted_quiet _))).armed hexpired

theorem mvCommit_armed (w : World) (i : Nat) (c : MediaSession) (h : Arrives w c) (hi : i < w.sessions.length) :
    Armed (mvCommit w i c).2 := by
  have hsame := fenced_request c w.nextEpoch
  have harrives := takeOver_arrives (h.same hsame.sessionId hsame.sn)
  have htake := takeOver_spec w (fenced c w.nextEpoch)
  simp only [mvCommit]
  generalize fenced c w.nextEpoch = d at harrives htake ⊢
  generalize takeOver w d = w₁ at harrives htake ⊢
  have hi₁ : i < w₁.sessions.length := by rw [htake.sessions]; exact hi
  cases hup : upsertRoute w₁ d.sn d.rtpPort d.rtcpPort with
  | none => exact (Calm.of_quiet (janusSend_quiet _ _)).armed harrives.armed
  | some w₂ =>
      dsimp only
      have hlen : i < w₂.sessions.length := by
        rw [upsertRoute_some hup]
        exact hi₁
      have hslots : session w₂ = session w₁ := by
        funext k
        simp only [session, upsertRoute_some hup]
      have hset : session (limitKeyframes (setSession w₂ i d) d.sn) = Function.update (session w₁) i d := by
        rw [← hslots]
        exact session_setSession w₂ i d hlen
      apply mvChecked_armed (seated_armed harrives hi₁ hup)
      rw [hset, Function.update_self]
      intro k hfind hstate j hjk hl hm hsn
      obtain ⟨-, hid, -⟩ := findSessionById_some hfind
      rw [hset] at hid hl hsn
      by_cases hki : k = i
      · rw [hki] at hjk hsn
        rw [Function.update_of_ne hjk] at hl hsn
        rw [Function.update_self] at hsn
        exact harrives.device j hl hsn
      · rw [Function.update_of_ne hki] at hid
        exact harrives.fresh k hid

theorem mvReadBack_armed (w : World) (i : Nat) (c : MediaSession) (h : Arrives w c) (hi : i < w.sessions.length) :
    Armed (mvReadBack w i c).2 := by
  have hq := mvEnsure_quiet w c
  simp only [mvReadBack]
  generalize mvEnsure w c = answer at hq ⊢
  obtain ⟨outcome, w₁⟩ := answer
  have hq₁ : Quiet w w₁ := hq
  have h₁ := h.quiet hq₁
  cases outcome with
  | ready =>
      apply mvCommit_armed w₁ i c h₁
      rw [hq₁.sessions]
      exact hi
  | unavailable | conflict => exact (Calm.of_quiet (janusSend_quiet _ _)).armed h₁.armed

theorem mvCreate_armed (w : World) (i : Nat) (c : MediaSession) (t : Track) (h : Arrives w c)
    (hi : i < w.sessions.length) : Armed (mvCreate w i c t).2 := by
  have hq := janusSend_quiet w (.info c.mountpointId)
  simp only [mvCreate]
  split
  · exact (h.quiet hq).armed
  · split
    · exact (h.quiet hq).armed
    · have hq₂ := hq.trans (janusCreateFormat_quiet (janusSend w (.info c.mountpointId)) c.mountpointId c.rtpPort
        c.rtcpPort c.pin t.codec t.payloadType (safeStrcpy 256 (mvFmtp t)))
      generalize janusCreateFormat (janusSend w (.info c.mountpointId)) c.mountpointId c.rtpPort c.rtcpPort c.pin t.codec
        t.payloadType (safeStrcpy 256 (mvFmtp t)) = answer at hq₂ ⊢
      obtain ⟨created, w₂⟩ := answer
      have hq₁ : Quiet w w₂ := hq₂
      cases created with
      | false => exact (h.quiet hq₁).armed
      | true =>
          apply mvReadBack_armed w₂ i c (h.quiet hq₁)
          rw [hq₁.sessions]
          exact hi

theorem mvAllocate_armed (w : World) (c : MediaSession) (r : MediaStart) (t : Int) (h : Arrives w c) :
    Armed (mvAllocate w c r t).2 := by
  simp only [mvAllocate]
  cases allocatePortPair w with
  | none => exact h.armed
  | some pair =>
      dsimp only
      cases hslot : allocateSessionSlot w with
      | none => exact h.armed
      | some slot =>
          obtain ⟨i, w₁⟩ := slot
          have hv := allocateSessionSlot_spec hslot
          have h₁ := h.vacates hv
          dsimp only
          split
          · exact h₁.armed
          · have hq : Quiet w₁ (nextRouteGeneration w₁) := by constructor <;> rfl
            exact mvCreate_armed _ i _ _ ((h₁.quiet hq).same rfl rfl) hv.lt

theorem mvPin_armed (w : World) (c : MediaSession) (r : MediaStart) (t : Int) (h : Arrives w c) :
    Armed (mvPin w c r t).2 := by
  simp only [mvPin]
  split
  · exact mvAllocate_armed w c r t h
  · split
    · exact (h.quiet (advance_quiet w)).armed
    · exact mvAllocate_armed (advance w) _ r t ((h.quiet (advance_quiet w)).same rfl rfl)

theorem mvAdmit_armed (w : World) (c : MediaSession) (r : MediaStart) (t : Int) (hr : Ready w) (ha : Armed w)
    (hc : Vacant w c) : Armed (mvAdmit w c r t).2 := by
  have hcalm := expireOptional_calm w (findActiveSessionForSn w c.sn) t hr
  have hset := expireOptional_settles w (findActiveSessionForSn w c.sn) t
  have ha₁ := hcalm.armed ha
  simp only [mvAdmit]
  generalize expireOptional w (findActiveSessionForSn w c.sn) t = w₁ at ha₁ hset ⊢
  split
  · exact ha₁
  next hnone =>
    split
    · exact ha₁
    · apply mvPin_armed w₁ c r t
      refine ⟨ha₁, hc.candidate.named.1, ?_, ?_⟩
      · intro j
        rw [(hset.identity j).sessionId]
        exact hc.fresh j
      · exact findActiveSessionForSn_none hc.candidate.sn.1 (by simpa using hnone)

theorem mvFresh_armed (w : World) (c : MediaSession) (r : MediaStart) (t : Int) (hr : Ready w) (ha : Armed w)
    (hc : Vacant w c) : Armed (mvFresh w c r t).2 := by
  simp only [mvFresh]
  split
  · obtain ⟨hclock, hcase⟩ := Lease.begin_cases w c r.leaseExpiresAt
    have hq := Quiet.of_clockOnly hclock
    generalize mediaV3BeginDeadline w c r.leaseExpiresAt = answer at hq hcase ⊢
    obtain ⟨accepted, w₁⟩ := answer
    have hq₁ : Quiet w w₁ := hq
    have hcalm := Calm.of_quiet hq₁
    obtain rfl | ⟨d, rfl, _, _⟩ := hcase
    · exact hcalm.armed ha
    · have hc₁ := (hc.quiet hq₁).same (d := { c with issuerExpiryUtc := r.leaseExpiresAt, monotonicDeadlineMs := d })
        (by constructor <;> rfl) hc.candidate.pin
      exact mvAdmit_armed w₁ _ r t (hcalm.ready hq₁.path hr) (hcalm.armed ha) hc₁
  · exact mvAdmit_armed w c r t hr ha hc

theorem mvReplay_calm (w : World) (i : Nat) (c : MediaSession) (r : MediaStart) (t : Int) (hr : Ready w) :
    Calm w (mvReplay w i c r t).2 := by
  simp only [mvReplay]
  split
  · exact .refl w
  · apply (expireMediaSession_calm w i t hr).trans
    generalize expireMediaSession w i t = w₁
    split
    · have hq := mvEnsure_quiet w₁ (session w₁ i)
      generalize mvEnsure w₁ (session w₁ i) = answer at hq ⊢
      obtain ⟨outcome, w₂⟩ := answer
      have hq₁ : Quiet w₁ w₂ := hq
      cases outcome <;> exact .of_quiet hq₁
    · exact .refl w₁

theorem mediaV2Start_armed (w : World) (negotiated : Bool) (r : AdmittedStart) (hr : Ready w) (ha : Armed w) :
    Armed (mediaV2Start w negotiated r.1).2 := by
  simp only [mediaV2Start]
  split
  · exact ha
  · simp only [mvStart]
    cases hfill : mvFill (advance w) r.1 with
    | none => exact ha
    | some c =>
        have hcandidate : Candidate c := mvFill_some hfill ▸ filled_candidate r.2
        have hready : Ready (advance w) := ⟨hr.sane, hr.covered⟩
        dsimp only
        split
        · exact ha
        · split
          · exact ha
          · cases hfind : findSessionById (advance w) c.sessionId with
            | some i => exact (mvReplay_calm (advance w) i c r.1 _ hready).armed ha
            | none =>
                apply mvFresh_armed (advance w) c r.1 _ hready ha
                exact ⟨hr.sane, hcandidate, findSessionById_none hcandidate.named.1 hfind⟩

end Modern

end EtranProcessing.Ingress.KeyframeStarts
