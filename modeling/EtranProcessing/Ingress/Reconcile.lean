import EtranProcessing.Ingress.Teardown

namespace EtranProcessing.Ingress.Reconcile

open Library.Tables
open State Feedback Routes Stores Lifecycle Framing EventLoop Moves Settling Refinement SessionTable Teardown

/-- The serial numbers that the loop over a table notifies: the pointer to an
orphan reads the next entry once the table is shifted, and the orphan itself
only at the end of the table. -/
def notices (orphan : RouteEntry → Bool) : List RouteEntry → List CString
  | [] => []
  | [e] => if orphan e then [e.sn] else []
  | e :: f :: rest => (if orphan e then [f.sn] else []) ++ notices orphan (f :: rest)

def notify (sns : List CString) (clients : List IngressClient) : List IngressClient :=
  sns.foldl (fun clients sn => retarget sn 0 0 clients) clients

theorem shifted_entry (routes : List RouteEntry) {i : Nat} (hi : i < routes.length) :
    deref (shifted routes routes[i].sn) (.entry i) = ((routes.drop (i + 1)).head?.getD routes[i]).sn := by
  have hmem : routes[i] ∈ routes := List.getElem_mem hi
  have hdrop : (routes.eraseP fun r => r.sn == routes[i].sn).drop i = routes.drop (i + 1) :=
    drop_eraseP routes hi (by simp)
  have hlen : (routes.eraseP fun r => r.sn == routes[i].sn).length = routes.length - 1 :=
    List.length_eraseP_of_mem hmem (by simp)
  have hshift : (shifted routes routes[i].sn)[i]? = (routes.drop (i + 1) ++ routes.getLast?.toList).head? := by
    rw [← List.head?_drop, shifted, List.drop_append_of_le_length (by omega), hdrop]
  simp only [deref, List.getD_eq_getElem?_getD, hshift]
  cases hrest : routes.drop (i + 1) with
  | cons => rfl
  | nil =>
      have hend : routes.length ≤ i + 1 := List.drop_eq_nil_iff.mp hrest
      have hlast : routes.getLast? = some routes[i] := by
        rw [List.getLast?_eq_getElem?, show routes.length - 1 = i by omega, List.getElem?_eq_getElem hi]
      rw [hlast]
      rfl

theorem notices_cons (orphan : RouteEntry → Bool) (e : RouteEntry) (rest : List RouteEntry) :
    notices orphan (e :: rest) = (if orphan e then [(rest.head?.getD e).sn] else []) ++ notices orphan rest := by
  cases rest with
  | nil => simp [notices]
  | cons => rfl

theorem updateTargets_lastRtpTime (rtp rtcp : Int) (c : IngressClient) :
    (updateTargets rtp rtcp c).lastRtpTime = c.lastRtpTime := by
  have hreset : (resetFeedback c).lastRtpTime = c.lastRtpTime := by
    simp only [resetFeedback]
    split <;> rfl
  simp only [updateTargets]
  split <;> exact hreset

theorem rtpIsFreshForSn_retarget (w : World) (sn : CString) (rtp rtcp : Int) (other : CString) (t : Int) :
    rtpIsFreshForSn { w with clients := retarget sn rtp rtcp w.clients } other t = rtpIsFreshForSn w other t := by
  simp only [rtpIsFreshForSn, retarget, List.any_map]
  congr 2
  funext c
  by_cases hc : c.sn = sn
  · simp [hc, updateTargets_sn, updateTargets_lastRtpTime]
  · simp [hc]

theorem orphanRoute_retarget (w : World) (routes : List RouteEntry) (sn : CString) (rtp rtcp : Int) (metrics : Metrics)
    (e : RouteEntry) (t : Int) :
    orphanRoute { w with routes := routes, clients := retarget sn rtp rtcp w.clients, metrics := metrics } e t =
      orphanRoute w e t := by
  have hfresh := rtpIsFreshForSn_retarget w sn rtp rtcp e.sn t
  simp only [orphanRoute, hasActiveSn, mediaRedisOwnsSn, redisGet] at hfresh ⊢
  rw [← hfresh]
  rfl

theorem reconcileRoutes_spec (t : Int) (fuel i : Nat) (w : World) (hfuel : w.routes.length ≤ fuel + i) :
    (reconcileRoutes t fuel i w).clients =
      notify (notices (fun e => orphanRoute w e t) (w.routes.drop i)) w.clients ∧
    (reconcileRoutes t fuel i w).janus = w.janus ∧
    ∀ sn, hasActiveSn w sn = true → ((reconcileRoutes t fuel i w).routes.filter fun e => e.sn == sn) =
      w.routes.filter fun e => e.sn == sn := by
  induction fuel generalizing i w with
  | zero => simp [reconcileRoutes, List.drop_of_length_le (by omega : w.routes.length ≤ i), notices, notify]
  | succ fuel ih =>
      simp only [reconcileRoutes]
      by_cases hi : i < w.routes.length
      · have hget : w.routes.getD i ⟨[], 0, 0, false⟩ = w.routes[i] := by simp [hi]
        rw [if_pos hi, hget, List.drop_eq_getElem_cons hi, notices_cons]
        by_cases ho : orphanRoute w w.routes[i] t = true
        · rw [if_pos ho, if_pos ho, deleteRoute_entry w i hi, hget, shifted_entry w.routes hi]
          have hlen : (dropEntry w.routes[i].sn w.routes).length = w.routes.length - 1 :=
            List.length_eraseP_of_mem (List.getElem_mem hi) (by simp)
          have hdrop : (dropEntry w.routes[i].sn w.routes).drop i = w.routes.drop (i + 1) :=
            drop_eraseP w.routes hi (by simp)
          obtain ⟨hclients, hjanus, hroutes⟩ := ih i (countOrphanRoute { w with
            routes := dropEntry w.routes[i].sn w.routes
            clients := retarget ((w.routes.drop (i + 1)).head?.getD w.routes[i]).sn 0 0 w.clients }) (by
              change (dropEntry w.routes[i].sn w.routes).length ≤ fuel + i
              omega)
          refine ⟨?_, hjanus, fun sn hsn => ?_⟩
          · rw [hclients]
            simp only [countOrphanRoute, orphanRoute_retarget, hdrop]
            rfl
          · rw [hroutes sn hsn]
            apply dropEntry_filter w.routes
            intro he
            simp only [orphanRoute, Bool.and_eq_true, Bool.not_eq_true'] at ho
            rw [he, ho.1.1.2] at hsn
            exact absurd hsn (by simp)
        · rw [if_neg ho, if_neg ho]
          exact ih (i + 1) w (by omega)
      · rw [if_neg hi, List.drop_of_length_le (Nat.le_of_not_lt hi)]
        exact ⟨rfl, rfl, fun _ _ => rfl⟩

/-- Worlds that differ in the counters and in the requests to Janus, none of
which is about the mountpoint of a live session. -/
def Swept (w w' : World) : Prop :=
  ∃ tick janus metrics, w' = { w with tick := tick, janus := janus, metrics := metrics } ∧
    ∀ owned, hasActiveMountpoint w owned = true → janus.filter (alters owned) = w.janus.filter (alters owned)

theorem Swept.refl (w : World) : Swept w w := ⟨w.tick, w.janus, w.metrics, rfl, fun _ _ => rfl⟩

theorem Swept.trans {u v w : World} (h : Swept u v) (h' : Swept v w) : Swept u w := by
  obtain ⟨_, _, _, rfl, hkept⟩ := h
  obtain ⟨tick, janus, metrics, rfl, hkept'⟩ := h'
  exact ⟨tick, janus, metrics, rfl, fun owned ho => (hkept' owned ho).trans (hkept owned ho)⟩

theorem reconcileMountpoint_swept (t : Int) (w : World) (mid : Nat) : Swept w (reconcileMountpoint t w mid) := by
  have hdestroy : ¬ (mid = 1 ∨ hasActiveMountpoint w mid = true) →
      Swept w (countOrphanMountpoint (janusDestroyMountpoint w mid)) := by
    intro hmid
    refine ⟨w.tick + 1, w.janus ++ [.destroy mid], _, rfl, fun owned ho => ?_⟩
    have hne : mid ≠ owned := by
      rintro rfl
      exact hmid (.inr ho)
    simp [List.filter_append, alters, hne]
  simp only [reconcileMountpoint]
  split
  · exact .refl w
  next hmid =>
    split
    · split
      · exact .refl w
      · exact hdestroy hmid
    · split
      · exact .refl w
      · exact hdestroy hmid

theorem reconcileMountpoints_swept (t : Int) (w : World) : Swept w (reconcileMountpoints t w) := by
  have hfold : ∀ (ids : List Nat) (w : World), Swept w (ids.foldl (reconcileMountpoint t) w) := by
    intro ids
    induction ids with
    | nil => exact fun w => .refl w
    | cons mid ids ih => exact fun w => (reconcileMountpoint_swept t w mid).trans (ih _)
  have hlist : Swept w (janusSend w .list) := by
    refine ⟨w.tick + 1, w.janus ++ [.list], w.metrics, rfl, fun owned _ => ?_⟩
    simp [List.filter_append, alters]
  simp only [reconcileMountpoints, janusListMountpoints]
  split
  next heq =>
    rw [← (Prod.mk.inj heq).2]
    exact hlist
  next ids _ heq =>
    rw [← (Prod.mk.inj heq).2]
    exact hlist.trans (hfold ids _)

def Idle (c : IngressClient) : Prop :=
  c.rtpPort = 0 ∧ c.rtcpPort = 0 ∧ (c.cameraRouteGeneration ≠ 0 → c.cameraRouteRevoked = true)

def targets (c : IngressClient) : Nat × Int × Int × Bool := (c.epoch, c.rtpPort, c.rtcpPort, c.cameraRouteRevoked)

def notified (sns : List CString) (c : IngressClient) : IngressClient :=
  sns.foldl (fun c sn => if c.sn = sn then updateTargets 0 0 c else c) c

theorem notify_eq (sns : List CString) (clients : List IngressClient) :
    notify sns clients = clients.map (notified sns) := by
  induction sns generalizing clients with
  | nil => exact (List.map_id clients).symm
  | cons sn sns ih =>
      have hrest := ih (retarget sn 0 0 clients)
      simp only [notify, List.foldl_cons] at hrest ⊢
      rw [hrest]
      simp only [retarget, List.map_map]
      rfl

theorem notified_cons (sn : CString) (sns : List CString) (c : IngressClient) :
    notified (sn :: sns) c = notified sns (if c.sn = sn then updateTargets 0 0 c else c) := rfl

theorem notified_sn (sns : List CString) (c : IngressClient) : (notified sns c).sn = c.sn := by
  induction sns generalizing c with
  | nil => rfl
  | cons sn sns ih =>
      rw [notified_cons, ih]
      split
      · exact updateTargets_sn 0 0 c
      · rfl

variable {c : IngressClient} {sns : List CString}

theorem notified_elsewhere (h : c.sn ∉ sns) : notified sns c = c := by
  induction sns generalizing c with
  | nil => rfl
  | cons sn sns ih =>
      rw [List.mem_cons, not_or] at h
      obtain ⟨hne, hrest⟩ := h
      rw [notified_cons, if_neg hne, ih hrest]

theorem updateTargets_zero (c : IngressClient) :
    targets (updateTargets 0 0 c) = (c.epoch, 0, 0, c.cameraRouteRevoked || c.cameraRouteGeneration != 0) ∧
    (updateTargets 0 0 c).cameraRouteGeneration = c.cameraRouteGeneration := by
  have hbind := resetFeedback_binding c
  simp only [updateTargets]
  split
  next hc =>
    have hrev : (c.cameraRouteRevoked || c.cameraRouteGeneration != 0) = true := by
      rcases hc with hc | hc <;> simp [hc]
    exact ⟨by simp only [targets, hbind.epoch, hrev], hbind.generation⟩
  next hc =>
    have hrev : (c.cameraRouteRevoked || c.cameraRouteGeneration != 0) = c.cameraRouteRevoked := by
      have hgen : c.cameraRouteGeneration = 0 := by simpa using (not_or.mp hc).1
      simp [hgen]
    exact ⟨by simp only [targets, hbind.epoch, hbind.revoked, hrev], hbind.generation⟩

theorem updateTargets_idle (c : IngressClient) : Idle (updateTargets 0 0 c) := by
  obtain ⟨htargets, hgen⟩ := updateTargets_zero c
  simp only [targets, Prod.mk.injEq] at htargets
  obtain ⟨_, hrtp, hrtcp, hrev⟩ := htargets
  refine ⟨hrtp, hrtcp, fun hne => ?_⟩
  rw [hgen] at hne
  simp [hrev, hne]

theorem Idle.updateTargets (h : Idle c) : targets (updateTargets 0 0 c) = targets c := by
  rw [(updateTargets_zero c).1]
  obtain ⟨hrtp, hrtcp, hrev⟩ := h
  have hsame : (c.cameraRouteRevoked || c.cameraRouteGeneration != 0) = c.cameraRouteRevoked := by
    by_cases hgen : c.cameraRouteGeneration = 0
    · simp [hgen]
    · simp [hrev hgen]
  simp only [targets, hrtp, hrtcp, hsame]

theorem Idle.notified (h : Idle c) (sns : List CString) :
    targets (notified sns c) = targets c ∧ Idle (Reconcile.notified sns c) := by
  induction sns generalizing c with
  | nil => exact ⟨rfl, h⟩
  | cons sn sns ih =>
      rw [notified_cons]
      split
      · obtain ⟨hrest, hend⟩ := ih (updateTargets_idle c)
        exact ⟨hrest.trans h.updateTargets, hend⟩
      · exact ih h

theorem notified_here (h : c.sn ∈ sns) :
    Idle (notified sns c) := by
  induction sns generalizing c with
  | nil => simp at h
  | cons sn sns ih =>
      rw [notified_cons]
      split
      · exact ((updateTargets_idle c).notified sns).2
      next hne =>
        rcases List.mem_cons.mp h with he | hmem
        · exact absurd he hne
        · exact ih hmem

theorem notified_generation (sns : List CString) (c : IngressClient) :
    (notified sns c).cameraRouteGeneration = c.cameraRouteGeneration := by
  induction sns generalizing c with
  | nil => rfl
  | cons sn sns ih =>
      rw [notified_cons, ih]
      split
      · exact (updateTargets_zero c).2
      · rfl

theorem notified_targets_iff (h : c.sn ∈ sns) :
    targets (notified sns c) = targets c ↔ Idle c := by
  constructor
  · intro hsame
    have hidle := notified_here h
    simp only [targets, Prod.mk.injEq] at hsame
    obtain ⟨_, hrtp, hrtcp, hrev⟩ := hsame
    refine ⟨hrtp ▸ hidle.1, hrtcp ▸ hidle.2.1, fun hgen => ?_⟩
    rw [← hrev]
    exact hidle.2.2 (by rwa [notified_generation])
  · exact fun hidle => (hidle.notified sns).1

theorem mem_notices {orphan : RouteEntry → Bool} {routes : List RouteEntry} {sn : CString}
    (h : sn ∈ notices orphan routes) :
    (∃ e f, [e, f] <:+: routes ∧ orphan e = true ∧ f.sn = sn) ∨ ∃ e ∈ routes, orphan e = true ∧ e.sn = sn := by
  induction routes with
  | nil => simp [notices] at h
  | cons e rest ih =>
      rw [notices_cons, List.mem_append] at h
      rcases h with h | h
      · by_cases ho : orphan e = true
        · rw [if_pos ho, List.mem_singleton] at h
          cases rest with
          | nil => exact .inr ⟨e, by simp, ho, h.symm⟩
          | cons f rest => exact .inl ⟨e, f, ⟨[], rest, rfl⟩, ho, h.symm⟩
        · simp [ho] at h
      · rcases ih h with ⟨d, f, hin, ho, hsn⟩ | ⟨d, hd, ho, hsn⟩
        · exact .inl ⟨d, f, hin.trans (List.suffix_cons e rest).isInfix, ho, hsn⟩
        · exact .inr ⟨d, List.mem_cons_of_mem e hd, ho, hsn⟩

theorem notices_of_infix {orphan : RouteEntry → Bool} {routes : List RouteEntry} {e f : RouteEntry}
    (h : [e, f] <:+: routes) (ho : orphan e = true) : f.sn ∈ notices orphan routes := by
  obtain ⟨before, rest, rfl⟩ := h
  induction before with
  | nil => simp [notices, ho]
  | cons d before ih =>
      rw [List.cons_append, List.cons_append, notices_cons]
      exact List.mem_append_right _ ih

theorem hasActiveSn_iff (w : World) (sn : CString) :
    hasActiveSn w sn = true ↔ ∃ i, live (session w i) = true ∧ (session w i).sn = sn := by
  constructor
  · intro h
    by_contra hnone
    have hfalse : hasActiveSn w sn = false := by
      simp only [hasActiveSn, List.any_eq_false, Bool.and_eq_true, beq_iff_eq, not_and]
      intro s hs hl hsn
      obtain ⟨i, hi, rfl⟩ := List.mem_iff_getElem.mp hs
      have hget : session w i = w.sessions[i] := by simp [session, hi]
      exact hnone ⟨i, hget ▸ hl, hget ▸ hsn⟩
    rw [hfalse] at h
    exact absurd h (by simp)
  · rintro ⟨i, hl, hsn⟩
    by_contra hfalse
    exact hasActiveSn_false (by simpa using hfalse) i hl hsn

theorem hasActiveMountpoint_of_live {w : World} {i : Nat} (h : live (session w i) = true) :
    hasActiveMountpoint w (session w i).mountpointId = true := by
  by_cases hi : i < w.sessions.length
  · simp only [hasActiveMountpoint, List.any_eq_true, Bool.and_eq_true, beq_iff_eq]
    exact ⟨session w i, by simp [session, hi], h, rfl⟩
  · simp [session, Nat.le_of_not_lt hi, live] at h

/-- What reconciliation owes a live session: its routes, its mountpoint, and
the targets of the connections of its device stay as they are. -/
structure Spared (w w' : World) (s : MediaSession) : Prop extends Unharmed (fabric w) (fabric w') s where
  revoked : ((w'.clients.filter fun c => c.sn == s.sn).map fun c => (c.epoch, c.cameraRouteRevoked)) =
    (w.clients.filter fun c => c.sn == s.sn).map fun c => (c.epoch, c.cameraRouteRevoked)

theorem reconcileResources_spec (w : World) :
    (reconcileResources w).2.clients =
      w.clients.map (notified (notices (fun e => orphanRoute w e (now w)) w.routes)) ∧
    ∀ i, live (session w i) = true →
      ((reconcileResources w).2.routes.filter fun e => e.sn == (session w i).sn) =
        (w.routes.filter fun e => e.sn == (session w i).sn) ∧
      (reconcileResources w).2.janus.filter (alters (session w i).mountpointId) =
        w.janus.filter (alters (session w i).mountpointId) := by
  have hswept := reconcileMountpoints_swept (now w) (advance w)
  simp only [reconcileResources]
  generalize reconcileMountpoints (now w) (advance w) = w₁ at hswept ⊢
  obtain ⟨hclients, hlog, hroutes⟩ := reconcileRoutes_spec (now w) w₁.routes.length 0 w₁ (Nat.le_refl _)
  obtain ⟨_, _, _, rfl, hkept⟩ := hswept
  constructor
  · rw [hclients, notify_eq, List.drop_zero]
    rfl
  · intro i hl
    refine ⟨hroutes _ ((hasActiveSn_iff _ _).mpr ⟨i, hl, rfl⟩), ?_⟩
    rw [hlog]
    exact hkept _ (hasActiveMountpoint_of_live hl)

theorem notified_filter (sns : List CString) (clients : List IngressClient) (sn : CString) :
    ((clients.map (notified sns)).filter fun c => c.sn == sn) =
      (clients.filter fun c => c.sn == sn).map (notified sns) := by
  rw [List.filter_map]
  congr 2
  funext c
  simp [notified_sn]

/-- Reconciliation spares every live session exactly if no orphan route stands
right before the route of a device that has a live session and a connection
with something to lose. -/
theorem reconcile_spares_live_iff (w : World) :
    (∀ i, live (session w i) = true → Spared w (reconcileResources w).2 (session w i)) ↔
    ∀ e f, [e, f] <:+: w.routes → orphanRoute w e (now w) = true → hasActiveSn w f.sn = true →
      ∀ c ∈ w.clients, c.sn = f.sn → Idle c := by
  obtain ⟨hclients, hrest⟩ := reconcileResources_spec w
  constructor
  · intro h e f hin ho hactive c hc hsn
    obtain ⟨i, hl, hi⟩ := (hasActiveSn_iff w f.sn).mp hactive
    have hspared := h i hl
    have hports := hspared.ports
    have hrevoked := hspared.revoked
    simp only [fabric, hclients, notified_filter, List.map_map, List.map_inj_left, List.mem_filter, beq_iff_eq] at hports hrevoked
    have hmem : c ∈ w.clients ∧ c.sn = (session w i).sn := ⟨hc, hsn.trans hi.symm⟩
    have hnoticed : c.sn ∈ notices (fun e => orphanRoute w e (now w)) w.routes := by
      rw [hsn]
      exact notices_of_infix hin ho
    apply (notified_targets_iff hnoticed).mp
    have hp := hports c hmem
    have hr := hrevoked c hmem
    simp only [Function.comp_apply, Prod.mk.injEq] at hp hr
    simp only [targets, hp, hr]
  · intro h i hl
    have hkeep : ∀ c ∈ w.clients, c.sn = (session w i).sn →
        targets (notified (notices (fun e => orphanRoute w e (now w)) w.routes) c) = targets c := by
      intro c hc hsn
      by_cases hmem : c.sn ∈ notices (fun e => orphanRoute w e (now w)) w.routes
      · apply (notified_targets_iff hmem).mpr
        have hactive : hasActiveSn w c.sn = true := (hasActiveSn_iff w _).mpr ⟨i, hl, hsn.symm⟩
        rcases mem_notices hmem with ⟨e, f, hin, ho, hf⟩ | ⟨e, _, ho, he⟩
        · exact h e f hin ho (hf ▸ hactive) c hc hf.symm
        · simp only [orphanRoute, Bool.and_eq_true, Bool.not_eq_true'] at ho
          rw [he, hactive] at ho
          exact absurd ho.1.1.2 (by simp)
      · rw [notified_elsewhere hmem]
    obtain ⟨hroute, hmount⟩ := hrest i hl
    refine ⟨⟨hroute, ?_, hmount⟩, ?_⟩
    · simp only [fabric, hclients, notified_filter, List.map_map, List.map_inj_left, List.mem_filter, beq_iff_eq]
      intro c hc
      have hk := hkeep c hc.1 hc.2
      simp only [targets, Prod.mk.injEq] at hk
      simp [hk]
    · simp only [hclients, notified_filter, List.map_map, List.map_inj_left, List.mem_filter, beq_iff_eq]
      intro c hc
      have hk := hkeep c hc.1 hc.2
      simp only [targets, Prod.mk.injEq] at hk
      simp [hk]

/-- A spare route without a session, and after it the door with a session and a
connection. -/
def spareAndDoor : World :=
  run goodJanus [.putRoute (bytes "spare") 7000 7001, startDoor, .accept,
    .readable 1 [.data (bytes "L4RT" ++ [1, 0, 0, 4] ++ bytes "door")]]

/-- Removing the spare route cuts off the door. -/
theorem reconcile_cuts_off_the_door :
    Initial goodJanus ∧ live (session spareAndDoor 0) = true ∧
    (spareAndDoor.clients.map fun c => (c.sn, c.rtpPort, c.rtcpPort)) = [(bytes "door", 6010, 6011)] ∧
    ((reconcileResources spareAndDoor).2.clients.map fun c => (c.sn, c.rtpPort, c.rtcpPort)) =
      [(bytes "door", 0, 0)] ∧
    ¬ ∀ i, live (session spareAndDoor i) = true →
      Spared spareAndDoor (reconcileResources spareAndDoor).2 (session spareAndDoor i) := by
  refine ⟨initial_sample _, by decide +kernel, by decide +kernel, by decide +kernel, fun h => ?_⟩
  have hports := (h 0 (by decide +kernel)).ports
  exact absurd hports (by decide +kernel)

end EtranProcessing.Ingress.Reconcile
