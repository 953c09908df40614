import EtranProcessing.Ingress.KeyframeStarts
import EtranProcessing.Ingress.Publishers

namespace EtranProcessing.Ingress.KeyframeRuns

open Library.Runs
open State Clock JsonText Feedback Routes Stores Lifecycle MediaV2 Framing Control EventLoop Moves Settling
open ConnectionPaths Refinement KeyframeArmed KeyframeStarts Restart CameraFence SessionTable Isolation Publishers

section Reconcile

theorem eraseP_drop {α : Type} {p : α → Bool} {a : α} : ∀ {l : List α} {i : Nat}, l[i]? = some a → p a = true →
    (l.eraseP p).drop i = l.drop (i + 1) := by
  intro l
  induction l with
  | nil =>
      intro i h
      simp at h
  | cons b l ih =>
      intro i h ha
      by_cases hb : p b = true
      · rw [List.eraseP_cons_of_pos hb]
        rfl
      · rw [List.eraseP_cons_of_neg hb]
        cases i with
        | zero =>
            cases h
            exact absurd ha hb
        | succ i => exact ih h ha

theorem notified {routes : List RouteEntry} {i : Nat} {a : RouteEntry} (h : routes[i]? = some a) :
    deref (shifted routes a.sn) (.entry i) = ((routes.drop (i + 1)).head?.getD a).sn := by
  have hi := (List.getElem?_eq_some_iff.mp h).1
  have hdrop := eraseP_drop (p := fun r : RouteEntry => r.sn == a.sn) h (by simp)
  have hlength : (routes.eraseP fun r => r.sn == a.sn).length = routes.length - 1 := by
    apply List.length_eraseP_of_mem (List.mem_of_getElem? h)
    simp
  rw [deref, shifted, List.getD_eq_getElem?_getD]
  by_cases hlast : i + 1 < routes.length
  · have hhead : (routes.eraseP fun r => r.sn == a.sn)[i]? = (routes.drop (i + 1)).head? := by
      rw [← hdrop, List.head?_drop]
    have hsome : (routes.drop (i + 1)).head? = some routes[i + 1] := by
      rw [List.head?_drop, List.getElem?_eq_getElem hlast]
    rw [List.getElem?_append_left (by omega), hhead, hsome]
    rfl
  · have hempty : routes.drop (i + 1) = [] := List.drop_eq_nil_of_le (by omega)
    have hgetLast : routes.getLast? = some a := by
      rw [List.getLast?_eq_getElem?, ← h]
      congr 1
      omega
    rw [List.getElem?_append_right (by omega), hlength, hgetLast, hempty]
    have hzero : i - (routes.length - 1) = 0 := by omega
    rw [hzero]
    rfl

def Apart (w : World) (routes : List RouteEntry) (t : Int) : Prop :=
  routes.IsChain fun a b => orphanRoute w a t = true → ¬ Owned w b.sn

theorem orphanRoute_eq {w w' : World} (hsessions : w'.sessions = w.sessions) (hredis : w'.redis = w.redis)
    {f : IngressClient → IngressClient} (hclients : w'.clients = w.clients.map f)
    (hf : ∀ c, (f c).sn = c.sn ∧ (f c).lastRtpTime = c.lastRtpTime) (r : RouteEntry) (t : Int) :
    orphanRoute w' r t = orphanRoute w r t := by
  have hfresh : rtpIsFreshForSn w' r.sn t = rtpIsFreshForSn w r.sn t := by
    simp only [rtpIsFreshForSn, hclients, List.any_map]
    congr 2
    funext c
    simp only [Function.comp, (hf c).1, (hf c).2]
  simp only [orphanRoute, hasActiveSn, mediaRedisOwnsSn, redisGet, hsessions, hredis, hfresh]

theorem updateTargets_heard (rtp rtcp : Int) (c : IngressClient) :
    (updateTargets rtp rtcp c).lastRtpTime = c.lastRtpTime := by
  simp only [updateTargets, resetFeedback]
  split <;> split <;> rfl

theorem retarget_heard (sn : CString) (c : IngressClient) :
    (if c.sn = sn then updateTargets 0 0 c else c).sn = c.sn ∧
      (if c.sn = sn then updateTargets 0 0 c else c).lastRtpTime = c.lastRtpTime := by
  split
  · exact ⟨updateTargets_sn 0 0 c, updateTargets_heard 0 0 c⟩
  · exact ⟨rfl, rfl⟩

theorem owned_sessions {w w' : World} (h : w'.sessions = w.sessions) (sn : CString) : Owned w' sn ↔ Owned w sn :=
  ⟨(Wanes.of_sessions h).owned, (Wanes.of_sessions h.symm).owned⟩

theorem orphan_free {w : World} {r : RouteEntry} {t : Int} (h : orphanRoute w r t = true) : ¬ Owned w r.sn := by
  simp only [orphanRoute, Bool.and_eq_true, Bool.not_eq_true'] at h
  rintro ⟨j, hl, -, hsn⟩
  exact hasActiveSn_false h.1.1.2 j hl hsn

theorem reconcileRoutes_calm (t : Int) (fuel i : Nat) (w : World) (h : Apart w (w.routes.drop i) t) :
    Calm w (reconcileRoutes t fuel i w) := by
  induction fuel generalizing i w with
  | zero => exact .refl w
  | succ fuel ih =>
      simp only [reconcileRoutes]
      split
      next hi =>
        have hdelete := deleteRoute_entry w i hi
        have hget : w.routes.getD i ⟨[], 0, 0, false⟩ = w.routes[i] := by
          rw [List.getD_eq_getElem?_getD, List.getElem?_eq_getElem hi]
          rfl
        have hentry : w.routes[i]? = some w.routes[i] := List.getElem?_eq_getElem hi
        have hcons : w.routes.drop i = w.routes[i] :: w.routes.drop (i + 1) := List.drop_eq_getElem_cons hi
        rw [hget] at hdelete ⊢
        generalize w.routes[i] = a at hdelete hentry hcons ⊢
        rw [hcons] at h
        split
        next horphan =>
          have hfree : ¬ Owned w (deref (shifted w.routes a.sn) (.entry i)) := by
            rw [notified hentry]
            cases hrest : w.routes.drop (i + 1) with
            | nil => exact orphan_free horphan
            | cons =>
                rw [Apart, hrest, List.isChain_cons_cons] at h
                exact h.1 horphan
          rw [hdelete]
          generalize deref (shifted w.routes a.sn) (.entry i) = sn at hfree ⊢
          have hdrop : (dropEntry a.sn w.routes).drop i = w.routes.drop (i + 1) :=
            eraseP_drop (p := fun r : RouteEntry => r.sn == a.sn) hentry (by simp)
          generalize hnext : countOrphanRoute { w with
            routes := dropEntry a.sn w.routes, clients := retarget sn 0 0 w.clients } = w₁
          have hsessions : w₁.sessions = w.sessions := by rw [← hnext]; rfl
          have hclients : w₁.clients = retarget sn 0 0 w.clients := by rw [← hnext]; rfl
          have hroutes : w₁.routes = dropEntry a.sn w.routes := by rw [← hnext]; rfl
          have hredis : w₁.redis = w.redis := by rw [← hnext]; rfl
          have hcalm : Calm w w₁ :=
            ⟨.of_sessions hsessions, retarget_kept hclients fun ho => hfree ((owned_sessions hsessions sn).mp ho)⟩
          apply hcalm.trans
          apply ih
          rw [hroutes, hdrop]
          apply List.IsChain.imp _ (List.IsChain.of_cons h)
          intro b c hb horphan'
          rw [orphanRoute_eq hsessions hredis hclients (retarget_heard sn)] at horphan'
          rw [owned_sessions hsessions]
          exact hb horphan'
        · exact ih (i + 1) w (List.IsChain.of_cons h)
      · exact .refl w

theorem reconcileMountpoints_redis (t : Int) (w : World) : (reconcileMountpoints t w).redis = w.redis := by
  have hturn : ∀ w mid, (reconcileMountpoint t w mid).redis = w.redis := by
    intro w mid
    simp only [reconcileMountpoint]
    split
    · rfl
    · split <;> split <;> rfl
  have hfold : ∀ (ids : List Nat) (w : World), (ids.foldl (reconcileMountpoint t) w).redis = w.redis := by
    intro ids
    induction ids with
    | nil => exact fun w => rfl
    | cons mid ids ih => exact fun w => (ih _).trans (hturn w mid)
  have hlist : (janusListMountpoints w).2.redis = w.redis := rfl
  simp only [reconcileMountpoints]
  generalize janusListMountpoints w = answer at hlist ⊢
  obtain ⟨ids, w₁⟩ := answer
  cases ids with
  | none => exact hlist
  | some ids => exact (hfold ids w₁).trans hlist

theorem reconcileResources_calm (w : World) (h : Apart w w.routes (now w)) : Calm w (reconcileResources w).2 := by
  have hq : Quiet w (reconcileMountpoints (now w) (advance w)) :=
    (advance_quiet w).trans (reconcileMountpoints_quiet (now w) (advance w))
  have hredis : (reconcileMountpoints (now w) (advance w)).redis = w.redis := reconcileMountpoints_redis (now w) (advance w)
  simp only [reconcileResources]
  generalize reconcileMountpoints (now w) (advance w) = w₁ at hq hredis ⊢
  apply (Calm.of_quiet hq).trans
  apply reconcileRoutes_calm
  rw [List.drop_zero, hq.routes]
  apply List.IsChain.imp _ h
  intro a b hab horphan
  rw [orphanRoute_eq hq.sessions hredis (f := id) (by simp [hq.clients]) fun c => ⟨rfl, rfl⟩] at horphan
  rw [owned_sessions hq.sessions]
  exact hab horphan

end Reconcile

section Steps

/-- What a step has to spare: the routes of the devices with live sessions of
contract 2 or 3, by hand, through a record that is no longer live, or past an
orphan. -/
def Spares (w : World) : Event → Prop
  | .putRoute sn rtp rtcp => sn = [] ∨ rtp ≤ 0 ∨ rtcp ≤ 0 ∨ ¬ Owned w sn
  | .deleteRoute sn => findRoute w sn = none ∨ ¬ Owned w sn
  | .reconcile => Apart w w.routes (now w)
  | .v1 method path body =>
      match endpoint method path with
      | .start => SparedAll w (jsonGetString body "session_id" 64)
      | .stop id => Spared w id
      | .reconcile => Apart w w.routes (now w)
      | _ => True
  | _ => True

theorem serve_armed (w : World) (method : Method) (path body : CString) (hr : Ready w) (ha : Armed w)
    (h : Spares w (.v1 method path body)) : Armed (serve w body (endpoint method path)).2 := by
  simp only [Spares] at h
  cases hend : endpoint method path with
  | start =>
      rw [hend] at h
      exact handleMediaSessionStart_armed w body hr ha h
  | stopBySn => exact (stopMediaSessionForSn_calm w body hr).armed ha
  | renewBySn => exact (renewMediaSessionForSn_calm w body).armed ha
  | renew id => exact (renewMediaSession_calm w id body).armed ha
  | health id => exact (getMediaSessionHealth_calm w id hr).armed ha
  | stop id =>
      rw [hend] at h
      exact (stopMediaSession_calm w id _ (Spared.harmless h hr.sane)).armed ha
  | reconcile =>
      rw [hend] at h
      exact (reconcileResources_calm w h).armed ha
  | metrics => exact (Calm.of_quiet (advance_quiet w)).armed ha
  | unknown => exact ha

theorem handlePutRoute_armed (w : World) (sn : CString) (rtp rtcp : Int) (ha : Armed w)
    (h : Spares w (.putRoute sn rtp rtcp)) : Armed (handlePutRoute w sn rtp rtcp).2 := by
  simp only [handlePutRoute]
  split
  · exact ha
  next hvalid =>
    simp only [not_or] at hvalid
    have hfree : ¬ Owned w sn := by
      rcases h with h | h | h | h
      · exact absurd h hvalid.1
      · exact absurd h hvalid.2.1
      · exact absurd h hvalid.2.2
      · exact h
    cases hup : upsertRoute w sn rtp rtcp with
    | none => exact ha
    | some w' => exact (upsertRoute_calm hup hfree).armed ha

theorem handleDeleteRoute_armed (w : World) (sn : CString) (ha : Armed w) (h : Spares w (.deleteRoute sn)) :
    Armed (handleDeleteRoute w sn).2 := by
  have hdeleted : Armed (deleteRoute w (.outside sn)).2 := by
    rw [deleteRoute_outside]
    have hclients : dropTargets (registry w) sn = w.clients ∨ ¬ Owned w sn := by
      rcases h with habsent | hfree
      · left
        have hnone : (lookupRoute (registry w).routes sn).isSome = false := by
          rw [show lookupRoute (registry w).routes sn = none from habsent]
          rfl
        simp only [dropTargets, hnone]
        rfl
      · exact .inr hfree
    rcases hclients with hsame | hfree
    · rw [hsame]
      exact ha
    · have hkept : Kept w { w with routes := dropEntry sn w.routes, clients := dropTargets (registry w) sn } :=
        dropTargets_kept rfl hfree
      exact hkept.armed (fun _ ho => ho) ha
  simp only [handleDeleteRoute]
  generalize deleteRoute w (.outside sn) = answer at hdeleted ⊢
  obtain ⟨found, w₁⟩ := answer
  cases found <;> exact hdeleted

/-- No live record's id leads a stop to an exposed record, and the step spares
the owned devices. -/
def Careful (w : World) (e : Event) : Prop := Covered w ∧ Spares w e

theorem step_armed (w : World) (e : Event) (hs : Sane (registry w)) (h : Careful w e) (ha : Armed w) :
    Armed (step w e) := by
  have hr : Ready w := ⟨hs, h.1⟩
  have hg : Good w := ⟨hr, ha⟩
  cases e with
  | accept => exact addIngressClient_armed w ha
  | readable e recvs =>
      have hgood := ifCurrent_good w e (fun w hg => ifCurrent_good w e (recvLoop_good e recvs) hg) hg
      exact hgood.armed
  | writable e sends => exact (ifCurrent_good w e (fun w hg => flushFeedback_good w e sends hg) hg).armed
  | feedback e reads sends => exact (ifCurrent_good w e (fun w hg => receiveFeedback_good w e reads sends hg) hg).armed
  | hangup e =>
      apply Good.armed
      exact ifCurrent_good w e (fun w hg => (removeIngressClient_calm w e).good (removeIngressClient_path w e) hg) hg
  | idleSweep => exact (idleSweep_good (advance w) _ ⟨⟨hs, h.1⟩, ha⟩).armed
  | expirySweep => exact (expirySweep_good (advance w) _ ⟨⟨hs, h.1⟩, ha⟩).armed
  | reconcile => exact (reconcileResources_calm w h.2).armed ha
  | v1 method path body =>
      simp only [step, handleV1Request]
      split
      · exact ha
      · exact serve_armed w method path body hr ha h.2
  | start negotiated request => exact mediaV2Start_armed w negotiated request hr ha
  | update negotiated request => exact (mvUpdate_calm w request negotiated hr).armed ha
  | putRoute sn rtp rtcp => exact handlePutRoute_armed w sn rtp rtcp ha h.2
  | deleteRoute sn => exact handleDeleteRoute_armed w sn ha h.2
  | probe evidence => exact ha
  | store redis => exact ha

end Steps

theorem run_armed {w : World} (events : List Event) (hs : Sane (registry w)) (ha : Armed w)
    (h : Along step Careful w events) : Armed (run w events) := by
  induction events generalizing w with
  | nil => exact ha
  | cons e events ih =>
      have hs' := (step_path (p := anything) w e hs (permits_anything w e)).sane hs
      exact ih hs' (step_armed w e hs h.1 ha) h.2

/-- The keyframe limiter is armed for the publishers of contract 2 and 3
sessions in every run whose steps spare their routes. -/
theorem limiter_stays_armed {w : World} (h : Started w) {events : List Event} (hsteps : Along step Careful w events)
    (c : IngressClient) (hc : c ∈ (run w events).clients) (hframing : c.state = .framing)
    (hrevoked : c.cameraRouteRevoked = false) (i : Nat) (hlive : live (session (run w events) i) = true)
    (hmodern : modern (session (run w events) i) = true) (hsn : (session (run w events) i).sn = c.sn) :
    c.keyframeFeedbackIntervalMs = 500 := by
  have hempty : Armed w := by
    intro d hd
    rw [started_clients h] at hd
    cases hd
  exact run_armed events h.sane hempty hsteps c hc ⟨hframing, hrevoked⟩ ⟨i, hlive, hmodern, hsn⟩

theorem covered_of_settled {w : World} (h : (w.sessions.all fun s => live s || s.state == .stopped) = true) :
    Covered w := by
  intro i _ k hfind ⟨hdead, hstate, _⟩
  have hk := (findSessionById_some hfind).1
  have hentry : session w k = w.sessions[k] := by
    rw [session, List.getD_eq_getElem?_getD, List.getElem?_eq_getElem hk]
    rfl
  have hsettled := List.all_eq_true.mp h _ (List.getElem_mem hk)
  rw [hentry] at hdead hstate
  simp [hdead, hstate] at hsettled

def publishedDoor : List Event :=
  [.start false ⟨desktopRequest, desktopRequest_admitted⟩, .accept, .readable 1 [hello (bytes "door")]]

theorem limiter_stays_armed_door :
    ∃ c ∈ (run goodJanus publishedDoor).clients, c.state = .framing ∧ c.cameraRouteRevoked = false ∧
      c.keyframeFeedbackIntervalMs = 500 := by
  have hclient : ∃ c ∈ (run goodJanus publishedDoor).clients, c.state = .framing ∧ c.cameraRouteRevoked = false ∧
      (session (run goodJanus publishedDoor) 0).sn = c.sn := by decide +kernel
  obtain ⟨c, hc, hframing, hrevoked, hsn⟩ := hclient
  refine ⟨c, hc, hframing, hrevoked, ?_⟩
  apply limiter_stays_armed (Initial.started (initial_sample _)) _ c hc hframing hrevoked 0 _ _ hsn
  · refine ⟨⟨covered_of_settled ?_, trivial⟩, ⟨covered_of_settled ?_, trivial⟩, ⟨covered_of_settled ?_, trivial⟩, trivial⟩
    · decide +kernel
    · decide +kernel
    · decide +kernel
  · decide +kernel
  · decide +kernel

/-- A route of the door set by hand takes the limiter away. -/
theorem edited_route_disarms :
    ∃ c ∈ (run goodJanus (publishedDoor ++ [.putRoute (bytes "door") 5000 5001])).clients,
      c.state = .framing ∧ c.cameraRouteRevoked = false ∧ c.keyframeFeedbackIntervalMs = 0 ∧
      live (session (run goodJanus (publishedDoor ++ [.putRoute (bytes "door") 5000 5001])) 0) = true ∧
      modern (session (run goodJanus (publishedDoor ++ [.putRoute (bytes "door") 5000 5001])) 0) = true ∧
      (session (run goodJanus (publishedDoor ++ [.putRoute (bytes "door") 5000 5001])) 0).sn = c.sn := by
  decide +kernel

end EtranProcessing.Ingress.KeyframeRuns
