import EtranProcessing.Ingress.SessionTable

namespace EtranProcessing.Ingress.PortAgreement

open Library.Tables Library.Runs
open State Feedback Routes Lifecycle Control EventLoop Moves Settling Refinement SessionTable

theorem overwriteFirst_self (routes : List RouteEntry) (sn : CString) (rtp rtcp : Int) :
    lookupRoute (overwriteFirst sn rtp rtcp routes) sn =
      (lookupRoute routes sn).map fun e => { e with rtpPort := rtp, rtcpPort := rtcp } := by
  induction routes with
  | nil => rfl
  | cons e es ih =>
      by_cases he : e.sn = sn
      · simp [overwriteFirst, lookupRoute, he]
      · simpa [overwriteFirst, lookupRoute, he] using ih

theorem overwriteFirst_other (routes : List RouteEntry) {sn other : CString} (rtp rtcp : Int) (hne : other ≠ sn) :
    lookupRoute (overwriteFirst sn rtp rtcp routes) other = lookupRoute routes other := by
  induction routes with
  | nil => rfl
  | cons e es ih =>
      by_cases he : e.sn = sn
      · simp [overwriteFirst, lookupRoute, he, hne.symm]
      · by_cases heo : e.sn = other
        · simp [overwriteFirst, lookupRoute, heo, hne]
        · simpa [overwriteFirst, lookupRoute, he, heo] using ih

variable {r : Registry} {routes : List RouteEntry} {t : MediaSession} {sn : CString} {i : Nat} {d : IngressClient} {rtp rtcp : Int}

theorem putEntry_self (routes : List RouteEntry) (rtp rtcp : Int) (hsn : sn.length < 128) :
    ∃ e, lookupRoute (putEntry sn rtp rtcp routes) sn = some e ∧ e.rtpPort = rtp ∧ e.rtcpPort = rtcp := by
  simp only [putEntry]
  cases hfound : lookupRoute routes sn with
  | some e =>
      rw [if_pos Option.isSome_some, overwriteFirst_self, hfound]
      exact ⟨_, rfl, rfl, rfl⟩
  | none =>
      have hnone : routes.find? (fun e => e.sn == sn) = none := hfound
      rw [if_neg (by simp), lookupRoute, List.find?_append, hnone]
      exact ⟨⟨sn, rtp, rtcp, false⟩, by simp [safeStrcpy_of_lt hsn], rfl, rfl⟩

theorem putEntry_other (routes : List RouteEntry) {sn other : CString} (rtp rtcp : Int) (hsn : sn.length < 128)
    (hne : other ≠ sn) : lookupRoute (putEntry sn rtp rtcp routes) other = lookupRoute routes other := by
  simp only [putEntry]
  split
  · exact overwriteFirst_other routes rtp rtcp hne
  · simp [lookupRoute, List.find?_append, safeStrcpy_of_lt hsn, hne.symm]

theorem dropEntry_other (routes : List RouteEntry) {sn other : CString} (hne : other ≠ sn) :
    lookupRoute (dropEntry sn routes) other = lookupRoute routes other := by
  simp only [lookupRoute, ← List.head?_filter]
  rw [dropEntry_filter routes hne]

def Unshared (a b : CString × Bool) : Prop := a.1 = b.1 → a.2 = true ∧ b.2 = true

def label (e : RouteEntry) : CString × Bool := (e.sn, e.isStatic)

def Labelled (routes : List RouteEntry) : Prop := (routes.map label).Pairwise Unshared

theorem overwriteFirst_label (routes : List RouteEntry) (sn : CString) (rtp rtcp : Int) :
    (overwriteFirst sn rtp rtcp routes).map label = routes.map label := by
  induction routes with
  | nil => rfl
  | cons e es ih =>
      by_cases he : e.sn = sn
      · simp [overwriteFirst, label, he]
      · simp [overwriteFirst, he, ih]

theorem putEntry_labelled (h : Labelled routes) (rtp rtcp : Int)
    (hsn : sn.length < 128) : Labelled (putEntry sn rtp rtcp routes) := by
  simp only [putEntry]
  cases hfound : lookupRoute routes sn with
  | some e =>
      rw [if_pos Option.isSome_some, Labelled, overwriteFirst_label]
      exact h
  | none =>
      rw [if_neg (by simp), Labelled, List.map_append, List.pairwise_append]
      refine ⟨h, by simp, ?_⟩
      intro a ha b hb he
      obtain ⟨e, hmem, rfl⟩ := List.mem_map.mp ha
      simp only [List.map_cons, List.map_nil, List.mem_singleton] at hb
      subst hb
      have hmiss := List.find?_eq_none.mp hfound e hmem
      simp only [label, safeStrcpy_of_lt hsn] at he
      simp [he] at hmiss

theorem dropEntry_labelled (h : Labelled routes) (sn : CString) :
    Labelled (dropEntry sn routes) :=
  h.sublist ((List.eraseP_sublist).map label)

theorem dropEntry_static (h : Labelled routes) {e : RouteEntry}
    (he : e ∈ dropEntry sn routes) (hsn : e.sn = sn) : e.isStatic = true := by
  induction routes with
  | nil => simp [dropEntry] at he
  | cons d ds ih =>
      obtain ⟨hhead, htail⟩ := List.pairwise_cons.mp h
      by_cases hd : d.sn = sn
      · have hmem : e ∈ ds := by simpa [dropEntry, hd] using he
        exact (hhead (label e) (List.mem_map_of_mem hmem) (hd.trans hsn.symm)).2
      · have hmem : e = d ∨ e ∈ dropEntry sn ds := by simpa [dropEntry, hd] using he
        rcases hmem with rfl | hmem
        · exact absurd hsn hd
        · exact ih htail hmem

theorem putEntry_mem (hsn : sn.length < 128) {e : RouteEntry}
    (he : e ∈ putEntry sn rtp rtcp routes) : e.sn = sn ∨ ∃ d ∈ routes, label d = label e := by
  simp only [putEntry] at he
  split at he
  · right
    have hmem : label e ∈ (overwriteFirst sn rtp rtcp routes).map label := List.mem_map_of_mem he
    rw [overwriteFirst_label] at hmem
    exact List.mem_map.mp hmem
  · rcases List.mem_append.mp he with he | he
    · exact .inr ⟨e, he, rfl⟩
    · rw [List.mem_singleton] at he
      rw [he]
      exact .inl (safeStrcpy_of_lt hsn)

def ports (s : MediaSession) : List Int := [s.rtpPort, s.rtcpPort]

def Apart (s t : MediaSession) : Prop := live s = true → live t = true → (ports s).Disjoint (ports t)

def Routed (routes : List RouteEntry) (s : MediaSession) : Prop :=
  ∃ e, lookupRoute routes s.sn = some e ∧ e.rtpPort = s.rtpPort ∧ e.rtcpPort = s.rtcpPort

def Aimed (s : MediaSession) (c : IngressClient) : Prop :=
  c.sn = s.sn → c.cameraRouteRevoked = false → c.rtpPort = s.rtpPort ∧ c.rtcpPort = s.rtcpPort

/-- The three copies of the ports agree. The last two members carry the others
through a deletion: a dynamic route has a live owner and is the only entry of
its device, so there is never an orphan to reconcile. -/
structure Agrees (r : Registry) : Prop where
  apart : Pairwise (Function.onFun Apart r.slots)
  routed : ∀ i, live (r.slots i) = true → Routed r.routes (r.slots i)
  aimed : ∀ i, live (r.slots i) = true → ∀ c ∈ r.clients, Aimed (r.slots i) c
  owned : ∀ e ∈ r.routes, e.isStatic = false → ∃ i, live (r.slots i) = true ∧ (r.slots i).sn = e.sn
  labelled : Labelled r.routes

theorem Apart.symm (s t : MediaSession) (h : Apart s t) : Apart t s :=
  fun ht hs _ hpt hps => h hs ht hps hpt

theorem Routed.same {s t : MediaSession} (h : Routed routes s) (hi : SameIdentity s t) :
    Routed routes t := by
  obtain ⟨e, he, hrtp, hrtcp⟩ := h
  exact ⟨e, hi.sn ▸ he, hrtp.trans hi.rtpPort.symm, hrtcp.trans hi.rtcpPort.symm⟩

theorem Aimed.same {s t : MediaSession} {c : IngressClient} (h : Aimed s c) (hi : SameIdentity s t) : Aimed t c := by
  intro hsn hr
  rw [hi.rtpPort, hi.rtcpPort]
  exact h (hsn.trans hi.sn) hr

theorem Agrees.alike (h : Agrees r) {slots : Nat → MediaSession}
    (hl : ∀ j, live (slots j) = live (r.slots j))
    (hi : ∀ j, live (slots j) = true → SameIdentity (r.slots j) (slots j)) : Agrees { r with slots := slots } where
  apart j k hjk hj hk := by
    have hd := h.apart hjk (hl j ▸ hj) (hl k ▸ hk)
    simpa only [ports, (hi j hj).rtpPort, (hi j hj).rtcpPort, (hi k hk).rtpPort, (hi k hk).rtcpPort] using hd
  routed j hj := (h.routed j (hl j ▸ hj)).same (hi j hj)
  aimed j hj c hc := (h.aimed j (hl j ▸ hj) c hc).same (hi j hj)
  owned e he hd := by
    obtain ⟨j, hj, hsn⟩ := h.owned e he hd
    have hj' : live (slots j) = true := (hl j).trans hj
    exact ⟨j, hj', (hi j hj').sn.trans hsn⟩
  labelled := h.labelled

theorem Agrees.write (h : Agrees r) (hl : live t = live (r.slots i))
    (hi : live t = true → SameIdentity (r.slots i) t) : Agrees { r with slots := Function.update r.slots i t } := by
  apply h.alike
  · intro j
    by_cases hj : j = i
    · rw [hj, Function.update_self, hl]
    · rw [Function.update_of_ne hj]
  · intro j hlive
    by_cases hj : j = i
    · rw [hj, Function.update_self] at hlive ⊢
      exact hi hlive
    · rw [Function.update_of_ne hj]
      exact .refl _

theorem Agrees.reconnect {r r' : Registry} (h : Agrees r) (hs : r'.slots = r.slots) (hr : r'.routes = r.routes)
    (hc : ∀ i, live (r.slots i) = true → ∀ c ∈ r'.clients, Aimed (r.slots i) c) : Agrees r' where
  apart := hs ▸ h.apart
  routed := hr ▸ hs ▸ h.routed
  aimed := hs ▸ hc
  owned := hr ▸ hs ▸ h.owned
  labelled := hr ▸ h.labelled

theorem retarget_here {clients : List IngressClient}
    (hd : d ∈ retarget sn rtp rtcp clients) (hsn : d.sn = sn) (hr : d.cameraRouteRevoked = false) :
    d.rtpPort = rtp ∧ d.rtcpPort = rtcp := by
  obtain ⟨c, _, rfl⟩ := List.mem_map.mp hd
  by_cases hc : c.sn = sn
  · simp only [hc, if_true, updateTargets] at hr ⊢
    split at hr
    · simp at hr
    next hkeep => simp [hkeep]
  · simp only [hc, if_false] at hsn

theorem retarget_elsewhere {clients : List IngressClient}
    (hd : d ∈ retarget sn rtp rtcp clients) (hsn : d.sn ≠ sn) : d ∈ clients := by
  obtain ⟨c, hmem, rfl⟩ := List.mem_map.mp hd
  by_cases hc : c.sn = sn
  · simp only [hc, if_true, updateTargets_sn] at hsn
    exact absurd rfl hsn
  · simpa only [hc, if_false] using hmem

theorem dropTargets_elsewhere (hd : d ∈ dropTargets r sn)
    (hsn : d.sn ≠ sn) : d ∈ r.clients := by
  simp only [dropTargets] at hd
  split at hd
  · exact retarget_elsewhere hd hsn
  · exact hd

/-- The policy of the runs in question: the server chooses the ports, nobody
edits routes, no id is started over, and a FAILED record is not stopped under a
live session of its device. -/
def orderly : Policy := ⟨False, False, False, False, fun _ => True, True⟩

theorem alone_of_distinct (hs : Sane r) (hd : Distinct r) (hi : live (r.slots i) = true)
    (j : Nat) (hj : j ≠ i) (hl : live (r.slots j) = true) : (r.slots j).sn ≠ (r.slots i).sn := by
  intro he
  exact hd hj (live_not_empty hl) (live_not_empty hi) (hs.device hl hi he)

theorem stop_alone (hs : Sane r) (hd : Distinct r)
    (h : Stops orderly r i t) (j : Nat) (hj : j ≠ i) (hl : live (r.slots j) = true) :
    (r.slots j).sn ≠ (r.slots i).sn := by
  rcases h.meant with hp | ⟨k, hk, hid⟩ | hnone
  · exact hp.elim
  · by_cases hki : k = i
    · exact alone_of_distinct hs hd (hki ▸ hk) j hj hl
    · exact absurd hid (hd hki (live_not_empty hk) ((hs.record i).named h.named))
  · exact hnone j hl

theorem Agrees.stop (h : Agrees r) (ht : live t = false)
    (hj : ∀ j, j ≠ i → live (r.slots j) = true → (r.slots j).sn ≠ (r.slots i).sn) :
    Agrees { r with
      slots := Function.update r.slots i t
      routes := dropEntry (r.slots i).sn r.routes
      clients := dropTargets r (r.slots i).sn } := by
  -- a slot that is live afterwards is another one, and its device is another one
  have hother : ∀ j, live (Function.update r.slots i t j) = true →
      Function.update r.slots i t j = r.slots j ∧ j ≠ i ∧ live (r.slots j) = true := by
    intro j hl
    by_cases hji : j = i
    · rw [hji, Function.update_self, ht] at hl
      exact absurd hl (by simp)
    · rw [Function.update_of_ne hji] at hl
      exact ⟨Function.update_of_ne hji _ _, hji, hl⟩
  constructor
  · refine pairwise_update Apart.symm h.apart i t fun j _ hl => ?_
    rw [ht] at hl
    exact absurd hl (by simp)
  · intro j hl
    obtain ⟨heq, hji, hlj⟩ := hother j hl
    change Routed (dropEntry (r.slots i).sn r.routes) (Function.update r.slots i t j)
    rw [heq, Routed, dropEntry_other r.routes (hj j hji hlj)]
    exact h.routed j hlj
  · intro j hl c hc
    obtain ⟨heq, hji, hlj⟩ := hother j hl
    change Aimed (Function.update r.slots i t j) c
    rw [heq]
    intro hsn
    have hmem : c ∈ r.clients := dropTargets_elsewhere hc fun he => hj j hji hlj (hsn.symm.trans he)
    exact h.aimed j hlj c hmem hsn
  · intro e he hdyn
    obtain ⟨k, hk, hsn⟩ := h.owned e (List.mem_of_mem_eraseP he) hdyn
    have hki : k ≠ i := by
      rintro rfl
      rw [dropEntry_static h.labelled he hsn.symm] at hdyn
      exact absurd hdyn (by simp)
    refine ⟨k, ?_⟩
    change live (Function.update r.slots i t k) = true ∧ (Function.update r.slots i t k).sn = e.sn
    rw [Function.update_of_ne hki]
    exact ⟨hk, hsn⟩
  · exact dropEntry_labelled h.labelled _

theorem Agrees.put (h : Agrees r) (hlen : t.sn.length < 128)
    (ht : live t = true) (happ : ∀ j, j ≠ i → Apart t (r.slots j))
    (hi : live (r.slots i) = true → (r.slots i).sn = t.sn)
    (hj : ∀ j, j ≠ i → live (r.slots j) = true → (r.slots j).sn ≠ t.sn) :
    Agrees { r with
      slots := Function.update r.slots i t
      routes := putEntry t.sn t.rtpPort t.rtcpPort r.routes
      clients := retarget t.sn t.rtpPort t.rtcpPort r.clients } := by
  constructor
  · exact pairwise_update Apart.symm h.apart i t happ
  · intro j hl
    by_cases hji : j = i
    · subst hji
      simp only [Function.update_self]
      exact putEntry_self r.routes t.rtpPort t.rtcpPort hlen
    · simp only [Function.update_of_ne hji] at hl ⊢
      rw [Routed, putEntry_other r.routes _ _ hlen (hj j hji hl)]
      exact h.routed j hl
  · intro j hl c hc
    by_cases hji : j = i
    · subst hji
      simp only [Function.update_self]
      exact retarget_here hc
    · simp only [Function.update_of_ne hji] at hl ⊢
      intro hsn
      have hmem : c ∈ r.clients := retarget_elsewhere hc fun he => hj j hji hl (hsn.symm.trans he)
      exact h.aimed j hl c hmem hsn
  · intro e he hdyn
    rcases putEntry_mem hlen he with hsn | ⟨d, hd, hlabel⟩
    · exact ⟨i, by simpa using ht, by simpa using hsn.symm⟩
    · simp only [label, Prod.mk.injEq] at hlabel
      obtain ⟨k, hk, hsn⟩ := h.owned d hd (hlabel.2.trans hdyn)
      by_cases hki : k = i
      · subst hki
        refine ⟨k, by simpa using ht, ?_⟩
        simpa using (hi hk).symm.trans (hsn.trans hlabel.1)
      · refine ⟨k, ?_⟩
        simpa only [Function.update_of_ne hki] using And.intro hk (hsn.trans hlabel.1)
  · exact putEntry_labelled h.labelled _ _ hlen

theorem Opens.alone (h : Opens orderly r i t) (j : Nat)
    (hl : live (r.slots j) = true) : (r.slots j).sn ≠ t.sn :=
  fun he => (h.fresh j (h.device j hl he)).1

theorem Opens.apart (h : Opens orderly r i t) (j : Nat) :
    Apart t (r.slots j) := by
  intro _ hj p hpt hps
  rcases h.ports with hp | ⟨hnext, _, hfree⟩
  · exact hp
  · have hno := hfree j hj
    simp only [takesPort, Bool.or_eq_false_iff, beq_eq_false_iff_ne] at hno
    simp only [ports, List.mem_cons, List.not_mem_nil, or_false] at hpt hps
    omega

theorem Agrees.move {r r' : Registry} (hm : Move orderly r r') (hs : Sane r) (hd : Distinct r) (h : Agrees r) :
    Agrees r' := by
  cases hm with
  | touch i t hl ht hi => exact h.write (ht.trans hl.symm) fun _ => hi
  | stop i t hst => exact h.stop (by simp [live, hst.stopped]) (stop_alone hs hd hst)
  | clear i hfin =>
      have hdead : live (r.slots i) = false := by
        rcases (finished_iff _).mp hfin with hf | hf <;> simp [live, hf]
      exact h.write (by rw [hdead]; rfl) fun hl => absurd hl (by simp [live])
  | fail i t ha hf _ =>
      have hdead : live t = false := by simp [live, hf]
      refine h.write ?_ fun hl => absurd hl (by simp [hdead])
      rw [hdead]
      simp [live, ha.vacant]
  | start i t ho =>
      refine h.put ho.sn.2 (by simp [live, ho.starting]) (fun j _ => Opens.apart ho j) ?_ fun j _ => Opens.alone ho j
      intro hl
      exact absurd ho.vacant (live_not_empty hl)
  | reroute i hl =>
      have hput := h.put (i := i) ((hs.record i).sn (live_not_empty hl)).2 hl (fun j hj => h.apart hj.symm) (fun _ => rfl)
        (alone_of_distinct hs hd hl)
      simpa only [Function.update_eq_self] using hput
  | put _ _ _ hp => exact hp.elim
  | drop _ hp => exact hp.elim
  | orphan e sn he hdyn ho =>
      obtain ⟨i, hl, hsn⟩ := h.owned e he hdyn
      exact absurd hsn (ho i hl)
  | accept c _ hn _ =>
      refine h.reconnect rfl rfl fun i hl d hd' => ?_
      rcases List.mem_append.mp hd' with hd' | hd'
      · exact h.aimed i hl d hd'
      · rw [List.mem_singleton] at hd'
        intro hsn
        rw [hd', hn] at hsn
        exact absurd hsn.symm ((hs.record i).sn (live_not_empty hl)).1
  | burn | forward f _ _ _ => exact h.reconnect rfl rfl h.aimed
  | remove e => exact h.reconnect rfl rfl fun i hl d hd' => h.aimed i hl d (List.mem_of_mem_filter hd')
  | recount f hf =>
      refine h.reconnect rfl rfl fun i hl d hd' => ?_
      obtain ⟨c, hc, rfl⟩ := List.mem_map.mp hd'
      intro hsn hr
      rw [(hf c).rtpPort, (hf c).rtcpPort]
      exact h.aimed i hl c hc ((hf c).sn.symm.trans hsn) ((hf c).revoked.symm.trans hr)
  | revoke which =>
      refine h.reconnect rfl rfl fun i hl d hd' => ?_
      obtain ⟨c, hc, rfl⟩ := List.mem_map.mp hd'
      by_cases hw : which c = true
      · simp only [hw, if_true]
        intro _ hr
        exact absurd hr (by simp)
      · simpa [hw] using h.aimed i hl c hc
  | bind e sn f hb =>
      refine h.reconnect rfl rfl fun i hl d hd' => ?_
      obtain ⟨c, hc, rfl⟩ := List.mem_map.mp hd'
      by_cases hce : c.epoch = e
      · simp only [hce, if_true]
        intro hsn _
        obtain ⟨x, hx, hrtp, hrtcp⟩ := h.routed i hl
        rw [← hsn, (hb c).device] at hx
        rw [(hb c).rtpPort, (hb c).rtcpPort, hx]
        exact ⟨hrtp, hrtcp⟩
      · simpa only [hce, if_false] using h.aimed i hl c hc

/-- Ports and routes of a state: no port serves two live sessions, the route of
a live session's device carries its ports, and so does every connection of that
device that is not revoked. -/
structure InStep (w : World) : Prop where
  ports : ∀ i j, i ≠ j → live (session w i) = true → live (session w j) = true →
    [(session w i).rtpPort, (session w i).rtcpPort].Disjoint [(session w j).rtpPort, (session w j).rtcpPort]
  route : ∀ i, live (session w i) = true → ∃ e, findRoute w (session w i).sn = some e ∧
    e.rtpPort = (session w i).rtpPort ∧ e.rtcpPort = (session w i).rtcpPort
  clients : ∀ i, live (session w i) = true → ∀ c ∈ w.clients, c.sn = (session w i).sn →
    c.cameraRouteRevoked = false → c.rtpPort = (session w i).rtpPort ∧ c.rtcpPort = (session w i).rtcpPort

theorem initial_agrees {w : World} (h : Initial w) : Agrees (registry w) := by
  have hdead : ∀ i, live (session w i) = false := by
    intro i
    simp [session, h.sessions, live]
  have hstatic : ∀ e ∈ w.routes, e.isStatic = true := h.routes
  constructor
  · intro i j _ hi
    exact absurd hi (by simp [registry, hdead])
  · intro i hi
    exact absurd hi (by simp [registry, hdead])
  · intro i hi
    exact absurd hi (by simp [registry, hdead])
  · intro e he hdyn
    rw [hstatic e he] at hdyn
    exact absurd hdyn (by simp)
  · apply List.pairwise_of_forall_mem_list
    intro a ha b hb _
    obtain ⟨x, hx, rfl⟩ := List.mem_map.mp ha
    obtain ⟨y, hy, rfl⟩ := List.mem_map.mp hb
    exact ⟨hstatic x hx, hstatic y hy⟩

def Orderly (w : World) (e : Event) : Prop :=
  ¬ BringsPorts e ∧ ¬ EditsRoutes e ∧ ¬ RetriesFailed w e ∧ ¬ StopsStale w e

/-- In every orderly run, every state on the way has its ports and routes in
step. -/
theorem ports_and_routes_agree {w : World} (h : Initial w) (events : List Event)
    (hok : Along step Orderly w events) (n : Nat) : InStep (run w (events.take n)) := by
  have hp : Along step (Permits orderly) w (events.take n) :=
    Along.mono (fun _ _ ho => ⟨ho.2.2.1, ho.2.2.2, ho.1, ho.2.1, fun _ _ _ => trivial, fun _ => trivial⟩) _ w (hok.take n)
  have hinv := kept_along (p := fun r => Sane r ∧ Distinct r ∧ Agrees r)
    (fun a b hm hi => ⟨Sane.move a b hm hi.1, Distinct.move id hm hi.1 hi.2.1, Agrees.move hm hi.1 hi.2.1 hi.2.2⟩)
    (run_moves (initial_sane h) _ hp)
  have hend := (hinv ⟨initial_sane h, initial_distinct h, initial_agrees h⟩).2.2
  exact ⟨fun i j hij => hend.apart hij, hend.routed, hend.aimed⟩

theorem ports_and_routes_agree_door :
    Along step Orderly goodJanus [startDoor] ∧ InStep (run goodJanus ([startDoor].take 1)) := by
  have hok : Along step Orderly goodJanus [startDoor] := by
    refine ⟨⟨?_, id, startDoor_permitted.1, ?_⟩, trivial⟩
    · rintro ⟨_, h, _⟩
      exact absurd h (by decide +kernel)
    · rintro ⟨id, i, _, hi, _⟩
      simp [findSessionById, goodJanus] at hi
  exact ⟨hok, ports_and_routes_agree (initial_sample _) _ hok 1⟩

def fullTable : World where
  env := sampleEnv fun _ => true
  routes := (List.range 512).map fun k =>
    ⟨bytes "s" ++ [UInt8.ofNat (97 + k / 26), UInt8.ofNat (97 + k % 26)], 20000 + 2 * k, 20001 + 2 * k, true⟩

def staleStopEvents : List Event :=
  [post "start" "\x7b\"session_id\":\"a\",\"sn\":\"door\"\x7d",
    post "start" "\x7b\"session_id\":\"c\",\"sn\":\"saa\"\x7d", post "c/stop" "",
    post "start" "\x7b\"session_id\":\"b\",\"sn\":\"door\"\x7d", post "a/stop" ""]

/-- The start of a finds the route table full and leaves a FAILED record. Once
there is room, b starts on the same device, and stopping a takes its route. -/
theorem stale_stop_takes_the_route :
    Initial fullTable ∧ (∀ tick, fullTable.env.janusInfo tick = some {} ∧ fullTable.env.janusCreated tick = true) ∧
    (∀ e ∈ staleStopEvents, ¬ BringsPorts e ∧ ¬ EditsRoutes e) ∧ ¬ InStep (run fullTable staleStopEvents) := by
  refine ⟨⟨rfl, rfl, rfl, rfl, ?_⟩, fun _ => ⟨rfl, rfl⟩, fun e he => ?_, fun h => ?_⟩
  · simp [fullTable]
  · simp only [staleStopEvents, post, List.mem_cons, List.not_mem_nil, or_false] at he
    rcases he with rfl | rfl | rfl | rfl | rfl <;> refine ⟨fun hb => ?_, id⟩ <;>
      exact absurd hb.2.1 (by decide +kernel)
  · obtain ⟨e, he, _⟩ := h.route 2 (by decide +kernel)
    have hnone : findRoute (run fullTable staleStopEvents) (session (run fullTable staleStopEvents) 2).sn = none := by
      decide +kernel
    rw [hnone] at he
    exact absurd he (by simp)

end EtranProcessing.Ingress.PortAgreement
