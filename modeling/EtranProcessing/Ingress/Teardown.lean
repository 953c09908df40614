import EtranProcessing.Ingress.SessionTable

namespace EtranProcessing.Ingress.Teardown

open Library.Tables
open State Clock JsonText Routes Stores Lifecycle MediaV2 EventLoop Moves Settling SessionTable

/-- The four ways to stop a session: the legacy endpoints by id and by serial
number, the stop of contracts 2 and 3, and the end of a lease. -/
inductive StopCall
  | byId (id reason : CString)
  | bySn (body : CString)
  | update (request : MediaUpdate) (reason : CString) (cameraNegotiated : Bool)
  | expiry (i : Nat) (now : Int)

def perform (w : World) : StopCall → World
  | .byId id reason => (stopMediaSession w id reason).2
  | .bySn body => (stopMediaSessionForSn w body).2
  | .update r reason negotiated => (mvUpdate w { r with kind := .stop reason } negotiated).2
  | .expiry i now => expireMediaSession w i now

def stoppable (w : World) (id : CString) : Option Nat :=
  (findSessionById w id).filter fun i => (session w i).state != .stopped

/-- The record a call is going to stop. -/
def target (w : World) : StopCall → Option Nat
  | .byId id _ => stoppable w id
  | .bySn body =>
      let leaseId := jsonGetString body "lease_id" 64
      let streamInstanceId := jsonGetString body "stream_instance_id" 64
      if leaseId = [] then none
      else
        (findActiveSessionForSn w (jsonGetString body "sn" 128)).bind fun i =>
          let id := (session w i).sessionId
          if id ≠ leaseId ∧ (streamInstanceId = [] ∨ id ≠ streamInstanceId) then none else stoppable w id
  | .update r _ negotiated =>
      (findSessionById w r.sessionId).bind fun i =>
        if mvIdentity (session w i) r = false ∨ (mcSessionExtended (session w i) = true ∧ negotiated = false) then none
        else stoppable w r.sessionId
  | .expiry i now =>
      if live (session w i) = true ∧ leaseOver w (session w i) now = true then stoppable w (session w i).sessionId
      else none

/-- What the sessions of the process share with the outside: the routes, the
connections, and the requests that went to Janus. -/
structure Fabric where
  routes : List RouteEntry
  clients : List IngressClient
  janus : List JanusRequest

def fabric (w : World) : Fabric := ⟨w.routes, w.clients, w.janus⟩

def dismantled (w : World) (k : Nat) : Fabric where
  routes := dropEntry (session w k).sn w.routes
  clients := dropTargets (registry w) (session w k).sn
  janus := w.janus ++ [.destroy (session w k).mountpointId]

def without (w : World) : Option Nat → Fabric
  | none => fabric w
  | some k => dismantled w k

theorem fabric_of_stored {w w' : World} (h : Stored w w') : fabric w' = fabric w := by
  obtain ⟨_, rfl⟩ := h
  rfl

theorem teardown_fabric (w : World) (k : Nat) (reason : CString) : fabric (teardown w k reason) = dismantled w k := by
  have hid := harvest_identity (advance w) (session w k)
  simp only [teardown]
  rw [deleteRoute_outside]
  change fabric (mvPersist (mediaRedisDropSession _ _) _) = _
  rw [fabric_of_stored ((mediaRedisDropSession_stored _ _).trans (mvPersist_stored _ _))]
  simp only [dismantled]
  rw [← hid.sn, ← hid.mountpointId]
  rfl

theorem stopMediaSession_fabric (w : World) (id reason : CString) :
    fabric (stopMediaSession w id reason).2 = without w (stoppable w id) := by
  simp only [stopMediaSession, stoppable]
  cases hfind : findSessionById w id with
  | none => rfl
  | some k =>
      by_cases hst : (session w k).state = .stopped
      · simp [hst, Option.filter, without]
      · simp [hst, Option.filter, without, teardown_fabric]

theorem stopMediaSession_none {w : World} {id : CString} (h : stoppable w id = none) (reason : CString) :
    (stopMediaSession w id reason).2 = w := by
  simp only [stoppable] at h
  simp only [stopMediaSession]
  cases hid : findSessionById w id with
  | none => rfl
  | some k =>
      by_cases hst : (session w k).state = .stopped
      · simp [hst]
      · simp [hid, Option.filter, hst] at h

theorem stopMediaSession_stops {w : World} {id : CString} {k : Nat} (h : stoppable w id = some k) (reason : CString) :
    (session w k).state ≠ .stopped ∧ (session (stopMediaSession w id reason).2 k).state = .stopped := by
  simp only [stoppable, Option.filter_eq_some_iff, bne_iff_ne] at h
  obtain ⟨hid, hst⟩ := h
  refine ⟨hst, ?_⟩
  have hslots := congrArg Registry.slots (teardown_spec w k reason (findSessionById_some hid).1).2.2
  change session (teardown w k reason) = _ at hslots
  simp [stopMediaSession, hid, hst, hslots, stoppedRecord]

theorem stoppable_stopped (w : World) (id reason : CString) : stoppable (stopMediaSession w id reason).2 id = none := by
  cases hk : stoppable w id with
  | none => rw [stopMediaSession_none hk, hk]
  | some k =>
      have hst := (stopMediaSession_stops hk reason).2
      simp only [stoppable, Option.filter_eq_some_iff] at hk
      simp only [stoppable, (stopMediaSession_settles w id reason).findSessionById id, hk.1]
      simp [Option.filter, hst]

theorem without_clock {w w' : World} (h : ClockOnly w w') (id : CString) :
    without w' (stoppable w' id) = without w (stoppable w id) := by
  obtain ⟨_, _, _, rfl⟩ := h
  rfl

theorem expireMediaSession_fabric (w : World) (i : Nat) (now : Int) :
    fabric (expireMediaSession w i now) = without w (target w (.expiry i now)) := by
  rcases expireMediaSession_spec w i now with ⟨hnot, hclock⟩ | ⟨hover, w₁, hclock, hstop⟩
  · obtain ⟨_, _, _, hw⟩ := hclock
    rw [hw]
    simp only [target, if_neg hnot]
    rfl
  · rw [hstop, stopMediaSession_fabric, without_clock hclock]
    simp only [target, if_pos hover]

theorem expireThenStop_fabric (w : World) (i : Nat) (now : Int) (reason : CString) :
    fabric (stopMediaSession (expireMediaSession w i now) (session w i).sessionId reason).2 =
      without w (stoppable w (session w i).sessionId) := by
  rw [stopMediaSession_fabric]
  rcases expireMediaSession_spec w i now with ⟨_, hclock⟩ | ⟨_, w₁, hclock, hstop⟩
  · exact without_clock hclock _
  · rw [hstop, stoppable_stopped]
    exact (stopMediaSession_fabric w₁ _ _).trans (without_clock hclock _)

theorem mvUpdate_fabric (w : World) (r : MediaUpdate) (reason : CString) (negotiated : Bool) :
    fabric (mvUpdate w { r with kind := .stop reason } negotiated).2 =
      without w (target w (.update r reason negotiated)) := by
  simp only [mvUpdate, target]
  cases hfind : findSessionById w r.sessionId with
  | none => rfl
  | some i =>
      obtain ⟨_, hid, _⟩ := findSessionById_some hfind
      change fabric (if mvIdentity (session w i) r = false then _ else _ : Reply × World).2 = _
      by_cases hident : mvIdentity (session w i) r = false
      · simp [hident, without]
      · by_cases hrefused : mcSessionExtended (session w i) = true ∧ negotiated = false
        · simp [hident, hrefused, without]
        · have hset := expireMediaSession_settles (advance w) i (now w)
          simp only [if_neg hident, if_neg hrefused, Option.bind_some, if_neg (not_or.mpr ⟨hident, hrefused⟩)]
          rw [fabric_of_stored (mvPersist_stored _ _), (hset.identity i).sessionId]
          exact (expireThenStop_fabric (advance w) i (now w) reason).trans (hid ▸ rfl)

theorem stopMediaSessionForSn_fabric (w : World) (body : CString) :
    fabric (stopMediaSessionForSn w body).2 = without w (target w (.bySn body)) := by
  simp only [stopMediaSessionForSn, target]
  by_cases hlease : jsonGetString body "lease_id" 64 = []
  · simp [hlease, without]
  · by_cases hsn : jsonGetString body "sn" 128 = []
    · simp [hsn, findActiveSessionForSn, without]
    · simp only [hlease, hsn, or_self, if_false]
      cases hfind : findActiveSessionForSn w (jsonGetString body "sn" 128) with
      | none => rfl
      | some i =>
          simp only [Option.bind_some]
          split
          · rfl
          · exact stopMediaSession_fabric w _ _

theorem perform_fabric (w : World) (call : StopCall) : fabric (perform w call) = without w (target w call) := by
  cases call with
  | byId id reason => exact stopMediaSession_fabric w id reason
  | bySn body => exact stopMediaSessionForSn_fabric w body
  | update r reason negotiated => exact mvUpdate_fabric w r reason negotiated
  | expiry i now => exact expireMediaSession_fabric w i now

def alters (id : Nat) : JanusRequest → Bool
  | .create id' .. => id' == id
  | .destroy id' => id' == id
  | .info _ => false
  | .list => false

/-- A session keeps its route entries, the forwarding ports of the connections
of its device, and its mountpoint. -/
structure Unharmed (f f' : Fabric) (s : MediaSession) : Prop where
  route : (f'.routes.filter fun e => e.sn == s.sn) = f.routes.filter fun e => e.sn == s.sn
  ports : ((f'.clients.filter fun c => c.sn == s.sn).map fun c => (c.epoch, c.rtpPort, c.rtcpPort)) =
    (f.clients.filter fun c => c.sn == s.sn).map fun c => (c.epoch, c.rtpPort, c.rtcpPort)
  mountpoint : f'.janus.filter (alters s.mountpointId) = f.janus.filter (alters s.mountpointId)

theorem Unharmed.refl (f : Fabric) (s : MediaSession) : Unharmed f f s := ⟨rfl, rfl, rfl⟩

theorem dropEntry_absent (routes : List RouteEntry) (sn : CString) (h : lookupRoute routes sn = none) :
    dropEntry sn routes = routes := by
  apply List.eraseP_of_forall_not
  intro e he
  exact List.find?_eq_none.mp h e he

theorem retarget_filter_other (clients : List IngressClient) {sn other : CString} (rtp rtcp : Int) (hne : other ≠ sn) :
    ((retarget sn rtp rtcp clients).filter fun c => c.sn == other) = clients.filter fun c => c.sn == other := by
  induction clients with
  | nil => rfl
  | cons c cs ih =>
      simp only [retarget, List.map_cons] at ih ⊢
      by_cases hc : c.sn = sn
      · simp [hc, updateTargets_sn, hne.symm, ih]
      · by_cases hco : c.sn = other
        · simp [hco, hne, ih]
        · simp [hc, hco, ih]

theorem dropTargets_filter (r : Registry) {sn other : CString} (hne : other ≠ sn) :
    ((dropTargets r sn).filter fun c => c.sn == other) = r.clients.filter fun c => c.sn == other := by
  simp only [dropTargets]
  split
  · exact retarget_filter_other r.clients 0 0 hne
  · rfl

theorem dismantled_unharmed (w : World) (k : Nat) {s : MediaSession} (hm : s.mountpointId ≠ (session w k).mountpointId)
    (hr : s.sn = (session w k).sn → findRoute w (session w k).sn = none) : Unharmed (fabric w) (dismantled w k) s := by
  refine ⟨?_, ?_, ?_⟩
  · by_cases hsn : s.sn = (session w k).sn
    · simp only [dismantled, dropEntry_absent w.routes _ (hr hsn), fabric]
    · exact dropEntry_filter w.routes hsn
  · by_cases hsn : s.sn = (session w k).sn
    · have hnone : lookupRoute (registry w).routes (session w k).sn = none := hr hsn
      simp only [dismantled, dropTargets, hnone, Option.isSome_none, Bool.false_eq_true, if_false]
      rfl
    · exact congrArg _ (dropTargets_filter (registry w) hsn)
  · have hno : alters s.mountpointId (.destroy (session w k).mountpointId) = false := by
      simpa [alters] using hm.symm
    simp [dismantled, fabric, List.filter_append, hno]

theorem unharmed_conditions (w : World) (k : Nat) {s : MediaSession} (h : Unharmed (fabric w) (dismantled w k) s) :
    s.mountpointId ≠ (session w k).mountpointId ∧
      (s.sn = (session w k).sn → findRoute w (session w k).sn = none) := by
  constructor
  · intro hm
    have hlog := congrArg List.length h.mountpoint
    simp [dismantled, fabric, List.filter_append, alters, hm] at hlog
  · intro hsn
    by_contra hfound
    have hroute := h.route
    rw [hsn] at hroute
    exact filter_eraseP_self_ne w.routes (Option.isSome_iff_ne_none.mpr hfound) hroute

/-- A stop leaves every other live session alone exactly if none of them has
the mountpoint of the record that is stopped, and none of them its device while
that device has a route. -/
theorem stop_harms_no_other_iff (w : World) (call : StopCall) :
    (∀ j, target w call ≠ some j → live (session w j) = true →
      Unharmed (fabric w) (fabric (perform w call)) (session w j)) ↔
    ∀ k, target w call = some k → ∀ j, j ≠ k → live (session w j) = true →
      (session w j).mountpointId ≠ (session w k).mountpointId ∧
      ((session w j).sn = (session w k).sn → findRoute w (session w k).sn = none) := by
  rw [perform_fabric]
  constructor
  · intro h k hk j hj hl
    have hother : target w call ≠ some j := by
      rw [hk]
      intro he
      exact hj (Option.some.inj he).symm
    have hun := h j hother hl
    rw [hk] at hun
    exact unharmed_conditions w k hun
  · intro h j hj hl
    cases hk : target w call with
    | none => exact .refl _ _
    | some k =>
        rw [hk] at hj
        have hjk : j ≠ k := fun he => hj (congrArg some he.symm)
        obtain ⟨hm, hr⟩ := h k hk j hjk hl
        exact dismantled_unharmed w k hm hr

def retriedDoor : World := run lateJanus [startDoor, post "start" "\x7b\"session_id\":\"b\",\"sn\":\"door\"\x7d"]

/-- Stopping the session that never came to life takes the route of the one
that did. -/
theorem stop_of_failed_takes_the_route :
    Initial lateJanus ∧ target retriedDoor (.byId (bytes "a") []) = some 0 ∧ live (session retriedDoor 1) = true ∧
    (findRoute retriedDoor (bytes "door")).isSome = true ∧
    findRoute (perform retriedDoor (.byId (bytes "a") [])) (bytes "door") = none ∧
    ¬ ∀ j, target retriedDoor (.byId (bytes "a") []) ≠ some j → live (session retriedDoor j) = true →
      Unharmed (fabric retriedDoor) (fabric (perform retriedDoor (.byId (bytes "a") []))) (session retriedDoor j) := by
  refine ⟨initial_sample _, by decide +kernel, by decide +kernel, by decide +kernel, by decide +kernel, fun h => ?_⟩
  have hroute := (h 1 (by decide +kernel) (by decide +kernel)).route
  exact absurd hroute (by decide +kernel)

end EtranProcessing.Ingress.Teardown
