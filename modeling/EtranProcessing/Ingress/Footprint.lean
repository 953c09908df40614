import EtranProcessing.Ingress.Reconcile

namespace EtranProcessing.Ingress.Footprint

open Library.Tables
open State Clock JsonText Routes Stores Lifecycle Moves Settling LegacyPaths Refinement Teardown

structure Untouched (kept : Nat → Prop) (id : CString) (w w' : World) : Prop where
  record : ∀ j, kept j → session w' j = session w j
  stored : redisGet w' (.session id) = redisGet w (.session id)

variable {kept : Nat → Prop} {id : CString}

theorem Untouched.refl (w : World) : Untouched kept id w w := ⟨fun _ _ => rfl, rfl⟩

theorem Untouched.trans {u v w : World} (h : Untouched kept id u v) (h' : Untouched kept id v w) :
    Untouched kept id u w :=
  ⟨fun j hj => (h'.record j hj).trans (h.record j hj), h'.stored.trans h.stored⟩

theorem Untouched.of_eq {w w' : World} (hs : w'.sessions = w.sessions) (hr : w'.redis = w.redis) :
    Untouched kept id w w' :=
  ⟨fun _ _ => by simp only [session, hs], by simp only [redisGet, hr]⟩

theorem Untouched.of_clock {w w' : World} (h : ClockOnly w w') : Untouched kept id w w' := by
  obtain ⟨_, _, _, rfl⟩ := h
  exact .of_eq rfl rfl

variable {w : World} {i : Nat} {s : MediaSession} {other : CString}

theorem setSession_untouched (w : World) (t : MediaSession) (hi : ¬ kept i) :
    Untouched kept id w (setSession w i t) := by
  refine ⟨fun j hj => ?_, rfl⟩
  have hij : i ≠ j := by
    rintro rfl
    exact hi hj
  simp [session, setSession, hij]

theorem redisSetEx_untouched (w : World) {key : RedisKey} (value : RedisValue) (ttl : Int) (hk : key ≠ .session id) :
    Untouched kept id w (redisSetEx w key value ttl) := by
  refine ⟨fun _ _ => rfl, ?_⟩
  simp only [redisGet, redisSetEx]
  cases w.redis with
  | none => rfl
  | some store =>
      simp only [Option.map_some, Option.bind_some, List.find?_cons, beq_eq_false_iff_ne.mpr hk]
      rw [find?_of_other_key (fun entry : RedisKey × RedisValue × Int => entry.1) store hk]

theorem redisDel_untouched (w : World) {key : RedisKey} (hk : key ≠ .session id) :
    Untouched kept id w (redisDel w key) := by
  refine ⟨fun _ _ => rfl, ?_⟩
  simp only [redisGet, redisDel]
  cases w.redis with
  | none => rfl
  | some store =>
      simp only [Option.map_some, Option.bind_some]
      rw [find?_of_other_key (fun entry : RedisKey × RedisValue × Int => entry.1) store hk]

theorem mediaRedisSaveRoute_untouched (w : World) (s : MediaSession) :
    Untouched kept id w (mediaRedisSaveRoute w s) := by
  simp only [mediaRedisSaveRoute]
  split
  · exact .refl w
  · exact redisSetEx_untouched _ _ _ (by simp)

theorem mediaRedisSaveSession_untouched (w : World) (renewedAt : Int) (hs : s.sessionId ≠ id) :
    Untouched kept id w (mediaRedisSaveSession w s renewedAt) := by
  have hkey : RedisKey.session s.sessionId ≠ .session id := by simpa using hs
  simp only [mediaRedisSaveSession]
  split
  · exact .refl w
  · have hfirst : Untouched kept id w
        (redisSetEx w (.session s.sessionId) (.text (legacyRecord s renewedAt)) (mediaRedisTtlFor s.ttlSec)) :=
      redisSetEx_untouched w _ _ hkey
    refine hfirst.trans (.trans ?_ (redisSetEx_untouched _ _ _ (by simp)))
    split
    · exact .refl _
    · exact redisSetEx_untouched _ _ _ (by simp)

theorem saveBoth_untouched (w : World) (renewedAt : Int) (hs : s.sessionId ≠ id) :
    Untouched kept id w (mediaRedisSaveRoute (mediaRedisSaveSession w s renewedAt) s) :=
  (mediaRedisSaveSession_untouched w renewedAt hs).trans (mediaRedisSaveRoute_untouched _ s)

theorem mediaRedisDropSession_untouched (w : World) (hs : s.sessionId ≠ id) :
    Untouched kept id w (mediaRedisDropSession w s) := by
  have hkey : RedisKey.session s.sessionId ≠ .session id := by simpa using hs
  have hfirst : Untouched kept id w (if s.sessionId = [] then w else redisDel w (.session s.sessionId)) := by
    split
    · exact .refl w
    · exact redisDel_untouched w hkey
  have hdevice (u : World) :
      Untouched kept id u (if s.sn = [] then u else redisDel (redisDel u (.sessionBySn s.sn)) (.route s.sn)) := by
    split
    · exact .refl u
    · have hbySn : Untouched kept id u (redisDel u (.sessionBySn s.sn)) := redisDel_untouched u (by simp)
      exact hbySn.trans (redisDel_untouched _ (by simp))
  exact (hfirst.trans (hdevice _)).trans (redisDel_untouched _ (by simp))

theorem mvPersist_untouched (w : World) (hs : s.sessionId ≠ id) :
    Untouched kept id w (mvPersist w s) := by
  have hkey : RedisKey.session s.sessionId ≠ .session id := by simpa using hs
  simp only [mvPersist]
  split
  next request _ _ =>
    have hfirst : Untouched kept id w (redisSetEx w (.session s.sessionId) (.record (persistedSession w s request))
        (mediaRedisTtlFor s.ttlSec)) := redisSetEx_untouched w _ _ hkey
    apply hfirst.trans
    split
    · refine .trans ?_ (mediaRedisSaveRoute_untouched _ s)
      refine .trans ?_ (redisSetEx_untouched _ _ _ (by simp))
      exact redisSetEx_untouched _ _ _ (by simp)
    · exact .refl _
  · exact .refl w

theorem teardown_untouched (w : World) {k : Nat} (reason : CString) (hk : ¬ kept k)
    (hid : (session w k).sessionId ≠ id) : Untouched kept id w (teardown w k reason) := by
  have hs : (harvest (advance w) (session w k)).sessionId ≠ id := by
    rw [(harvest_identity _ _).sessionId]
    exact hid
  have hcount (u : World) : Untouched kept id u (countStopped u) := .of_eq rfl rfl
  have hsend (u : World) (mid : Nat) : Untouched kept id u (janusDestroyMountpoint u mid) := .of_eq rfl rfl
  have hroute (u : World) (sn : CString) : Untouched kept id u (deleteRoute u (.outside sn)).2 := by
    rw [deleteRoute_outside]
    exact .of_eq rfl rfl
  simp only [teardown]
  refine .trans ?_ (hcount _)
  refine .trans ?_ (mvPersist_untouched _ hs)
  refine .trans ?_ (mediaRedisDropSession_untouched _ hs)
  refine .trans ?_ (setSession_untouched _ _ hk)
  refine .trans ?_ (hsend _ _)
  refine .trans ?_ (hroute _ _)
  refine .trans ?_ (setSession_untouched _ _ hk)
  exact .of_clock (advance_clockOnly w)

def Named (kept : Nat → Prop) (id : CString) (w : World) : Prop := ∀ j, kept j → (session w j).sessionId = id

theorem Untouched.named {w w' : World} (h : Untouched kept id w w') (hw : Named kept id w) : Named kept id w' := by
  intro j hj
  rw [h.record j hj]
  exact hw j hj

theorem Named.not_kept (h : Named kept id w) {k : Nat} (hk : (session w k).sessionId ≠ id) : ¬ kept k :=
  fun hj => hk (h k hj)

theorem found_other {k : Nat} (hfind : findSessionById w other = some k)
    (hne : other ≠ id) : (session w k).sessionId ≠ id := by
  rw [(findSessionById_some hfind).2.1]
  exact hne

theorem stopMediaSession_untouched (h : Named kept id w) (reason : CString)
    (hne : other ≠ id) : Untouched kept id w (stopMediaSession w other reason).2 := by
  simp only [stopMediaSession]
  cases hfind : findSessionById w other with
  | none => exact .refl w
  | some k =>
      have hid := found_other hfind hne
      dsimp only
      split
      · exact .refl w
      · exact teardown_untouched w reason (h.not_kept hid) hid

theorem expireMediaSession_untouched (h : Named kept id w) (t : Int)
    (hi : (session w i).sessionId ≠ id) : Untouched kept id w (expireMediaSession w i t) := by
  rcases expireMediaSession_spec w i t with ⟨_, hclock⟩ | ⟨_, w₁, hclock, hstop⟩
  · exact .of_clock hclock
  · rw [hstop]
    have hfirst : Untouched kept id w w₁ := .of_clock hclock
    exact hfirst.trans (stopMediaSession_untouched (hfirst.named h) _ hi)

theorem renewRecord_untouched (h : Named kept id w) (body : CString) (t : Int)
    (hi : (session w i).sessionId ≠ id) : Untouched kept id w (renewRecord w i body t).2 := by
  simp only [renewRecord]
  split
  · exact .refl w
  · split
    · exact .refl w
    · exact (setSession_untouched w _ (h.not_kept hi)).trans (saveBoth_untouched _ _ hi)

theorem renewMediaSession_untouched (h : Named kept id w) (body : CString)
    (hne : other ≠ id) : Untouched kept id w (renewMediaSession w other body).2 := by
  have hclock : Untouched kept id w (advance w) := .of_clock (advance_clockOnly w)
  simp only [renewMediaSession]
  cases hfind : findSessionById w other with
  | none => exact hclock
  | some i =>
      have hid : (session (advance w) i).sessionId ≠ id := found_other hfind hne
      dsimp only
      split
      · exact hclock
      · exact hclock.trans (renewRecord_untouched (hclock.named h) body _ hid)

theorem getMediaSessionHealth_untouched (h : Named kept id w) (hne : other ≠ id) :
    Untouched kept id w (getMediaSessionHealth w other).2 := by
  have hclock : Untouched kept id w (advance w) := .of_clock (advance_clockOnly w)
  simp only [getMediaSessionHealth]
  cases hfind : findSessionById w other with
  | none => exact .refl w
  | some i =>
      have hid : (session (advance w) i).sessionId ≠ id := found_other hfind hne
      exact hclock.trans (expireMediaSession_untouched (hclock.named h) _ hid)

theorem janusMountpointEnsure_untouched (w : World) (mid : Nat) (rtp rtcp : Int) (pin : CString) :
    Untouched kept id w (janusMountpointEnsure w mid rtp rtcp pin).2 := by
  refine .of_eq (janusMountpointEnsure_quiet w mid rtp rtcp pin).sessions ?_
  simp only [janusMountpointEnsure, janusEnsureFormat]
  split
  · rfl
  · split
    · split <;> rfl
    · rfl

theorem upsertRoute_untouched {w w' : World} {sn : CString} {rtp rtcp : Int} (h : upsertRoute w sn rtp rtcp = some w') :
    Untouched kept id w w' := by
  rw [upsertRoute_some h]
  exact .of_eq rfl rfl

theorem startExisting_untouched (h : Named kept id w) (r : StartRequest)
    (hi : (session w i).sessionId ≠ id) : Untouched kept id w (startExisting w i r).2 := by
  simp only [startExisting]
  split
  · exact .refl w
  · have hjanus : Untouched kept id w (janusMountpointEnsure w (session w i).mountpointId (session w i).rtpPort
        (session w i).rtcpPort (session w i).pin).2 := janusMountpointEnsure_untouched w _ _ _ _
    generalize janusMountpointEnsure w (session w i).mountpointId (session w i).rtpPort (session w i).rtcpPort
      (session w i).pin = answer at hjanus ⊢
    obtain ⟨found, w₁⟩ := answer
    have hfirst : Untouched kept id w w₁ := hjanus
    cases found with
    | conflict => exact hfirst
    | unavailable => exact hfirst
    | ready =>
        have hid : (if r.leaseBound then renewed (session w i) r.ttlSec r.requestAt else session w i).sessionId ≠ id := by
          split
          · exact hi
          · exact hi
        dsimp only
        generalize (if r.leaseBound then renewed (session w i) r.ttlSec r.requestAt else session w i) = s at hid ⊢
        refine hfirst.trans ((setSession_untouched w₁ s (h.not_kept hi)).trans ?_)
        refine .trans ?_ (saveBoth_untouched _ _ hid)
        cases hup : upsertRoute (setSession w₁ i s) s.sn s.rtpPort s.rtcpPort with
        | none => exact .refl _
        | some w₂ => exact upsertRoute_untouched hup

theorem startChecked_untouched (h : Named kept id w) (hi : (session w i).sessionId ≠ id) :
    Untouched kept id w (startChecked w i).2 := by
  have hclock : Untouched kept id w (advance w) := .of_clock (advance_clockOnly w)
  have hexp := hclock.trans (expireMediaSession_untouched (hclock.named h) (now w) (i := i) hi)
  have hid : (session (expireMediaSession (advance w) i (now w)) i).sessionId ≠ id := by
    rw [((expireMediaSession_settles (advance w) i (now w)).identity i).sessionId]
    exact hi
  simp only [startChecked]
  split
  · exact hexp
  · exact hexp.trans (saveBoth_untouched _ _ hid)

theorem startActivate_untouched (h : Named kept id w) (r : StartRequest)
    (hlt : i < w.sessions.length) (hi : (session w i).sessionId ≠ id) :
    Untouched kept id w (startActivate w i r).2 := by
  have hclock : Untouched kept id w (advance w) := .of_clock (advance_clockOnly w)
  simp only [startActivate]
  generalize (if r.leaseBound then r.requestAt else now w) = renewedAt
  have hset : Untouched kept id w (countStarted (setSession (advance w) i (activated (session w i) (now w) renewedAt))) :=
    (hclock.trans (setSession_untouched _ _ (h.not_kept hi))).trans (.of_eq rfl rfl)
  refine hset.trans (startChecked_untouched (hset.named h) ?_)
  have hrecord := session_setSession (advance w) i (activated (session w i) (now w) renewedAt) hlt
  change (session (setSession (advance w) i _) i).sessionId ≠ id
  rw [hrecord, Function.update_self]
  exact hi

theorem startFailed_untouched (reason : CString) (hi : ¬ kept i) :
    Untouched kept id w (startFailed w i reason) :=
  (setSession_untouched w _ hi).trans (.of_eq rfl rfl)

theorem startSlot_untouched (h : Named kept id w) {r : StartRequest} (rtp rtcp : Int) (hr : Legible r)
    (hne : r.fields.sessionId ≠ id) (hslot : ∀ i w₁, allocateSessionSlot w = some (i, w₁) → ¬ kept i) :
    Untouched kept id w (startSlot w r rtp rtcp).2 := by
  simp only [startSlot]
  cases halloc : allocateSessionSlot w with
  | none => exact .refl w
  | some slot =>
      obtain ⟨i, w₁⟩ := slot
      have hi := hslot i w₁ halloc
      have hvac := allocateSessionSlot_spec halloc
      have hcleared : Untouched kept id w w₁ := by
        refine ⟨fun j hj => ?_, by simp only [redisGet, hvac.redis]⟩
        have hij : j ≠ i := fun he => hi (he ▸ hj)
        rcases hvac.slots with hs | ⟨_, hs⟩
        · rw [hs]
        · rw [hs, Function.update_of_ne hij]
      dsimp only
      have hid : (startRecord (session w₁ i) r rtp rtcp (now w₁)).sessionId ≠ id := by
        simpa only [startRecord, safeStrcpy_of_lt hr.sessionId.2] using hne
      generalize startRecord (session w₁ i) r rtp rtcp (now w₁) = s at hid ⊢
      have hwritten : Untouched kept id w (setSession (advance w₁) i s) :=
        (hcleared.trans (.of_clock (advance_clockOnly w₁))).trans (setSession_untouched _ _ hi)
      have hrecord : session (setSession (advance w₁) i s) i = s := by
        rw [session_setSession (advance w₁) i s hvac.lt]
        simp
      have hlt : i < (setSession (advance w₁) i s).sessions.length := by
        simp only [setSession, List.length_set]
        exact hvac.lt
      generalize setSession (advance w₁) i s = w₂ at hwritten hrecord hlt ⊢
      have hjanus : Untouched kept id w₂ (janusMountpointEnsure w₂ s.mountpointId rtp rtcp r.fields.pin).2 :=
        janusMountpointEnsure_untouched w₂ _ _ _ _
      have hquiet := janusMountpointEnsure_quiet w₂ s.mountpointId rtp rtcp r.fields.pin
      generalize janusMountpointEnsure w₂ s.mountpointId rtp rtcp r.fields.pin = answer at hjanus hquiet ⊢
      obtain ⟨found, w₃⟩ := answer
      have hsofar : Untouched kept id w w₃ := hwritten.trans hjanus
      cases found with
      | conflict | unavailable => exact hsofar.trans (startFailed_untouched _ hi)
      | ready =>
          dsimp only
          cases hup : upsertRoute w₃ r.fields.sn rtp rtcp with
          | none =>
              have hsend : Untouched kept id w₃ (janusDestroyMountpoint w₃ s.mountpointId) := .of_eq rfl rfl
              exact (hsofar.trans hsend).trans (startFailed_untouched _ hi)
          | some w₄ =>
              have hrouted := hsofar.trans (upsertRoute_untouched hup)
              have hsessions : w₄.sessions = w₂.sessions := by
                rw [upsertRoute_some hup]
                exact hquiet.sessions
              refine hrouted.trans (startActivate_untouched (hrouted.named h) r (by rw [hsessions]; exact hlt) ?_)
              have hsame : session w₄ i = s := by
                rw [← hrecord]
                simp only [session, hsessions]
              rw [hsame]
              exact hid

theorem startPorts_untouched (h : Named kept id w) {r : StartRequest} (hr : Legible r)
    (hne : r.fields.sessionId ≠ id) (hslot : ∀ i w₁, allocateSessionSlot w = some (i, w₁) → ¬ kept i) :
    Untouched kept id w (startPorts w r).2 := by
  simp only [startPorts]
  split
  · split
    · exact .refl w
    · exact startSlot_untouched h _ _ hr hne hslot
  · exact startSlot_untouched h _ _ hr hne hslot

theorem reconcileRoutes_untouched (t : Int) (fuel i : Nat) (w : World) :
    Untouched kept id w (reconcileRoutes t fuel i w) := by
  induction fuel generalizing i w with
  | zero => exact .refl w
  | succ fuel ih =>
      simp only [reconcileRoutes]
      split
      next hi =>
        split
        · have hdelete : Untouched kept id w (countOrphanRoute (deleteRoute w (.entry i)).2) := by
            rw [deleteRoute_entry w i hi]
            exact .of_eq rfl rfl
          exact hdelete.trans (ih _ _)
        · exact ih _ _
      · exact .refl w

theorem reconcileResources_untouched (w : World) :
    Untouched kept id w (reconcileResources w).2 := by
  have hclock : Untouched kept id w (advance w) := .of_clock (advance_clockOnly w)
  have hmounts : Untouched kept id (advance w) (Lifecycle.reconcileMountpoints (now w) (advance w)) := by
    obtain ⟨_, _, _, hw, _⟩ := Reconcile.reconcileMountpoints_swept (now w) (advance w)
    rw [hw]
    exact .of_eq rfl rfl
  exact (hclock.trans hmounts).trans (reconcileRoutes_untouched _ _ _ _)

end EtranProcessing.Ingress.Footprint
