import EtranProcessing.Ingress.ConnectionPaths

namespace EtranProcessing.Ingress.Refinement

open Relation Library.Tables Library.Runs
open State JsonText Routes Stores Lifecycle MediaV2 Framing Control EventLoop Moves Settling
open LegacyPaths ModernPaths ConnectionPaths

theorem janusListMountpoints_quiet (w : World) : Quiet w (janusListMountpoints w).2 := janusSend_quiet w .list

theorem reconcileMountpoint_quiet (t : Int) (w : World) (mid : Nat) : Quiet w (reconcileMountpoint t w mid) := by
  simp only [reconcileMountpoint]
  split
  · exact .refl w
  · split
    · split
      · exact .refl w
      · constructor <;> rfl
    · split
      · exact .refl w
      · constructor <;> rfl

theorem reconcileMountpoints_quiet (t : Int) (w : World) : Quiet w (reconcileMountpoints t w) := by
  have hfold : ∀ (ids : List Nat) (w : World), Quiet w (ids.foldl (reconcileMountpoint t) w) := by
    intro ids
    induction ids with
    | nil => exact fun w => .refl w
    | cons mid ids ih => exact fun w => (reconcileMountpoint_quiet t w mid).trans (ih _)
  simp only [reconcileMountpoints]
  have hq := janusListMountpoints_quiet w
  generalize janusListMountpoints w = answer at hq ⊢
  obtain ⟨ids, w₁⟩ := answer
  have hq₁ : Quiet w w₁ := hq
  cases ids with
  | none => exact hq₁
  | some ids => exact hq₁.trans (hfold ids w₁)

theorem lookupRoute_mem {routes : List RouteEntry} {e : RouteEntry} (he : e ∈ routes) :
    (lookupRoute routes e.sn).isSome = true := by
  simp only [lookupRoute, List.find?_isSome]
  exact ⟨e, he, by simp⟩

theorem getD_mem_routes {routes : List RouteEntry} {i : Nat} (hi : i < routes.length) (d : RouteEntry) :
    routes.getD i d ∈ routes := by
  simp [hi]

theorem deleteRoute_entry (w : World) (i : Nat) (hi : i < w.routes.length) :
    (deleteRoute w (.entry i)).2 = { w with
      routes := dropEntry (w.routes.getD i ⟨[], 0, 0, false⟩).sn w.routes
      clients := retarget (deref (shifted w.routes (w.routes.getD i ⟨[], 0, 0, false⟩).sn) (.entry i)) 0 0 w.clients } := by
  have hsome : (findRoute w (deref w.routes (.entry i))).isSome = true := lookupRoute_mem (getD_mem_routes hi _)
  simp only [deleteRoute]
  rw [if_pos hsome]
  rfl

variable {p : Policy} {w : World}

theorem hasActiveSn_false {sn : CString} (h : hasActiveSn w sn = false) (j : Nat)
    (hl : live (session w j) = true) : (session w j).sn ≠ sn := by
  by_cases hj : j < w.sessions.length
  · simp only [hasActiveSn, List.any_eq_false, Bool.and_eq_true, beq_iff_eq, not_and] at h
    exact h (session w j) (by simp [session, hj]) hl
  · simp [session, Nat.le_of_not_lt hj, live] at hl

theorem reconcileRoutes_path (t : Int) (fuel i : Nat) (w : World) :
    Path p (registry w) (registry (reconcileRoutes t fuel i w)) := by
  induction fuel generalizing i w with
  | zero => exact .refl
  | succ fuel ih =>
      simp only [reconcileRoutes]
      split
      next hi =>
        split
        next horphan =>
          refine .trans ?_ (ih i _)
          simp only [orphanRoute, Bool.and_eq_true, Bool.not_eq_true'] at horphan
          rw [deleteRoute_entry w i hi]
          refine .single (Move.orphan _ _ (getD_mem_routes hi _) horphan.1.1.1 fun j hl => ?_)
          exact hasActiveSn_false horphan.1.1.2 j hl
        · exact ih (i + 1) w
      · exact .refl

theorem reconcileResources_path (w : World) :
    Path p (registry w) (registry (reconcileResources w).2) := by
  simp only [reconcileResources]
  refine (Quiet.path ?_).trans (reconcileRoutes_path _ _ 0 _)
  exact (advance_quiet w).trans (reconcileMountpoints_quiet _ _)

def RetriesFailed (w : World) : Event → Prop
  | .v1 method path body => ∃ i, endpoint method path = .start ∧
      findSessionById w (jsonGetString body "session_id" 64) = some i ∧ (session w i).state = .failed
  | _ => False

/-- A stop by id that resolves to a FAILED record while another session of the
same device is live. -/
def StopsStale (w : World) : Event → Prop
  | .v1 method path _ => ∃ id i, endpoint method path = .stop id ∧ findSessionById w id = some i ∧
      (session w i).state = .failed ∧ ∃ k, live (session w k) = true ∧ (session w k).sn = (session w i).sn
  | _ => False

def BringsPorts : Event → Prop
  | .v1 method path body => endpoint method path = .start ∧ 0 < jsonGetInt body "rtp_port" 0 ∧
      0 < jsonGetInt body "rtcp_port" 0
  | _ => False

def EditsRoutes : Event → Prop
  | .putRoute .. => True
  | .deleteRoute _ => True
  | _ => False

def Starts : Event → Prop
  | .v1 method path _ => endpoint method path = .start
  | .start .. => True
  | _ => False

def Reads : Event → Prop
  | .readable .. => True
  | _ => False

/-- The policy allows whatever the event does. -/
structure Permits (p : Policy) (w : World) (e : Event) : Prop where
  retry : RetriesFailed w e → p.retry
  staleStop : StopsStale w e → p.staleStop
  chosenPorts : BringsPorts e → p.chosenPorts
  manual : EditsRoutes e → p.manual
  evict : Starts e → ∀ i, Evicts w i → p.evict i
  hello : Reads e → p.hello

theorem permits_anything (w : World) (e : Event) : Permits anything w e :=
  ⟨fun _ => trivial, fun _ => trivial, fun _ => trivial, fun _ => trivial, fun _ _ _ => trivial, fun _ => trivial⟩

theorem failed_of_named {r : Registry} (h : Sane r) {i : Nat} (hn : (r.slots i).sessionId ≠ [])
    (hl : live (r.slots i) = false) (hst : (r.slots i).state ≠ .stopped) : (r.slots i).state = .failed := by
  have h1 := (h.record i).named hn
  have h2 := (h.record i).settled
  have h3 : ¬ live (r.slots i) = true := by simp [hl]
  rw [live_iff, not_or] at h3
  cases hstate : (r.slots i).state <;> simp_all

theorem stopById_path (w : World) (method : Method) (path body id : CString) (hs : Sane (registry w))
    (hend : endpoint method path = .stop id) (hp : Permits p w (.v1 method path body)) (reason : CString) :
    Path p (registry w) (registry (stopMediaSession w id reason).2) := by
  apply stopMediaSession_path w id reason
  intro i hi hst
  obtain ⟨_, hid, hne⟩ := findSessionById_some hi
  by_cases hl : live (session w i) = true
  · exact .inr (.inl ⟨i, hl, hid⟩)
  · have hdead : live (session w i) = false := by simpa using hl
    have hfailed : (session w i).state = .failed := failed_of_named hs (i := i) (hid ▸ hne) hdead hst
    by_cases hk : ∃ k, live (session w k) = true ∧ (session w k).sn = (session w i).sn
    · exact .inl (hp.staleStop ⟨id, i, hend, hi, hfailed, hk⟩)
    · right
      right
      intro k hlk hsn
      exact hk ⟨k, hlk, hsn⟩

theorem serve_path (w : World) (method : Method) (path body : CString) (hs : Sane (registry w))
    (hp : Permits p w (.v1 method path body)) :
    Path p (registry w) (registry (serve w body (endpoint method path)).2) := by
  cases hend : endpoint method path with
  | start =>
      refine handleMediaSessionStart_path w body hs (fun i hi hf => hp.retry ⟨i, hend, hi, hf⟩) (fun h1 h2 => ?_)
        (hp.evict hend)
      exact hp.chosenPorts ⟨hend, h1, h2⟩
  | stopBySn => exact stopMediaSessionForSn_path w body
  | renewBySn => exact renewMediaSessionForSn_path w body
  | renew id => exact renewMediaSession_path w id body
  | health id => exact getMediaSessionHealth_path w id
  | stop id => exact stopById_path w method path body id hs hend hp _
  | reconcile => exact reconcileResources_path w
  | metrics => exact (advance_quiet w).path
  | unknown => exact .refl

theorem handleV1Request_path (w : World) (method : Method) (path body : CString) (hs : Sane (registry w))
    (hp : Permits p w (.v1 method path body)) :
    Path p (registry w) (registry (handleV1Request w method path body).2) := by
  simp only [handleV1Request]
  split
  · exact .refl
  · exact serve_path w method path body hs hp

theorem handlePutRoute_path (w : World) (sn : CString) (rtp rtcp : Int) (hp : p.manual) :
    Path p (registry w) (registry (handlePutRoute w sn rtp rtcp).2) := by
  simp only [handlePutRoute]
  split
  · exact .refl
  · cases hup : upsertRoute w sn rtp rtcp with
    | none => exact .refl
    | some w' =>
        obtain rfl := upsertRoute_some hup
        exact .single (Move.put sn rtp rtcp hp)

theorem handleDeleteRoute_path (w : World) (sn : CString) (hp : p.manual) :
    Path p (registry w) (registry (handleDeleteRoute w sn).2) := by
  have hdel := deleteRoute_outside w sn
  have hpath : Path p (registry w) (registry (deleteRoute w (.outside sn)).2) := by
    rw [hdel]
    exact .single (Move.drop sn hp)
  simp only [handleDeleteRoute]
  generalize deleteRoute w (.outside sn) = answer at hpath ⊢
  obtain ⟨found, w₁⟩ := answer
  cases found <;> exact hpath

theorem step_path (w : World) (e : Event) (hs : Sane (registry w)) (hp : Permits p w e) :
    Path p (registry w) (registry (step w e)) := by
  cases e with
  | accept => exact addIngressClient_path w
  | readable e recvs => exact ifCurrent_path w e _ hs fun w hs => processIngressData_path (hp.hello trivial) w e recvs hs
  | writable e sends => exact ifCurrent_path w e _ hs fun w hs => flushFeedback_path w e sends hs
  | feedback e reads sends => exact ifCurrent_path w e _ hs fun w hs => receiveFeedback_path w e reads sends hs
  | hangup e => exact ifCurrent_path w e _ hs fun w _ => removeIngressClient_path w e
  | idleSweep => exact idleSweep_path (advance w) _ hs
  | expirySweep => exact expirySweep_path (advance w) _ hs
  | reconcile => exact reconcileResources_path w
  | v1 method path body => exact handleV1Request_path w method path body hs hp
  | start negotiated request => exact mediaV2Start_path w negotiated request hs (hp.evict trivial)
  | update negotiated request => exact mvUpdate_path w request negotiated hs
  | putRoute sn rtp rtcp => exact handlePutRoute_path w sn rtp rtcp (hp.manual trivial)
  | deleteRoute sn => exact handleDeleteRoute_path w sn (hp.manual trivial)
  | probe evidence => exact .refl
  | store redis => exact .refl

theorem initial_sane (h : Initial w) : Sane (registry w) := by
  have hslots : ∀ i, (registry w).slots i = {} := by
    intro i
    simp [registry, session, h.sessions]
  constructor
  · intro i
    rw [hslots]
    exact wellFormed_empty
  · intro i j _
    simp only [Function.onFun, hslots]
    exact compatible_empty _
  · constructor <;> simp [registry, h.clients]

theorem run_moves (hs : Sane (registry w)) (events : List Event)
    (hp : Along step (Permits p) w events) : Path p (registry w) (registry (run w events)) :=
  run_path Sane.move (fun w e hs hp => step_path w e hs hp) events w hs hp

theorem run_sane (h : Initial w) (events : List Event) : Sane (registry (run w events)) := by
  have hp : Along step (Permits anything) w events := along_of_forall permits_anything events w
  exact (run_moves (initial_sane h) events hp).sane (initial_sane h)

end EtranProcessing.Ingress.Refinement
