import EtranProcessing.Ingress.EventLoop
import EtranProcessing.Library.Tables

namespace EtranProcessing.Ingress.Moves

open Relation Library.Tables Library.Runs State Feedback Routes Lifecycle MediaV2

/-- What the sessions, routes and connections of the process amount to: a table
of slots of which all but finitely many are EMPTY, the routes in their order,
the connections, and the payloads handed on. -/
@[ext] structure Registry where
  slots : Nat → MediaSession
  routes : List RouteEntry
  clients : List IngressClient
  nextEpoch : Nat
  forwarded : List Forward

def registry (w : World) : Registry where
  slots := session w
  routes := w.routes
  clients := w.clients
  nextEpoch := w.nextEpoch
  forwarded := w.forwarded

/-- Which of the doubtful things the environment is allowed to make the process
do: start an id over that a FAILED record already carries, stop a record that
is not live while its device has a live session, bring its own ports, edit
routes by hand, reclaim the slot of a finished record, complete preambles. -/
structure Policy where
  retry : Prop
  staleStop : Prop
  chosenPorts : Prop
  manual : Prop
  evict : Nat → Prop
  hello : Prop

def anything : Policy := ⟨True, True, True, True, fun _ => True, True⟩

def retarget (sn : CString) (rtp rtcp : Int) (clients : List IngressClient) : List IngressClient :=
  clients.map fun c => if c.sn = sn then updateTargets rtp rtcp c else c

def putEntry (sn : CString) (rtp rtcp : Int) (routes : List RouteEntry) : List RouteEntry :=
  if (lookupRoute routes sn).isSome then overwriteFirst sn rtp rtcp routes
  else routes ++ [⟨safeStrcpy 128 sn, rtp, rtcp, false⟩]

def dropEntry (sn : CString) (routes : List RouteEntry) : List RouteEntry := routes.eraseP fun r => r.sn == sn

def dropTargets (r : Registry) (sn : CString) : List IngressClient :=
  if (lookupRoute r.routes sn).isSome then retarget sn 0 0 r.clients else r.clients

/-- The members of a record that a lease change or a stop leaves alone. -/
structure SameIdentity (s t : MediaSession) : Prop where
  sessionId : t.sessionId = s.sessionId
  operationId : t.operationId = s.operationId
  leaseId : t.leaseId = s.leaseId
  streamInstanceId : t.streamInstanceId = s.streamInstanceId
  sn : t.sn = s.sn
  pin : t.pin = s.pin
  descriptor : t.descriptor = s.descriptor
  v2Request : t.v2Request = s.v2Request
  rtpPort : t.rtpPort = s.rtpPort
  rtcpPort : t.rtcpPort = s.rtcpPort
  mountpointId : t.mountpointId = s.mountpointId
  contractVersion : t.contractVersion = s.contractVersion
  cameraSource : t.cameraSource = s.cameraSource
  routeGeneration : t.routeGeneration = s.routeGeneration
  minimumEpoch : t.minimumCameraConnectionEpoch = s.minimumCameraConnectionEpoch

/-- The members of a connection that decide where its payloads go. -/
structure SameBinding (c d : IngressClient) : Prop where
  epoch : d.epoch = c.epoch
  state : d.state = c.state
  sn : d.sn = c.sn
  rtpPort : d.rtpPort = c.rtpPort
  rtcpPort : d.rtcpPort = c.rtcpPort
  generation : d.cameraRouteGeneration = c.cameraRouteGeneration
  revoked : d.cameraRouteRevoked = c.cameraRouteRevoked

/-- What mv_fill copies from a request into a record. -/
structure Transcribes (s : MediaSession) (r : MediaStart) : Prop where
  admitted : Admitted r
  contractVersion : s.contractVersion = r.contractVersion
  cameraSource : s.cameraSource = (r.contractVersion == 3 && r.descriptor.sourceType == bytes "camera")
  sessionId : s.sessionId = r.sessionId
  operationId : s.operationId = r.operationId
  leaseId : s.leaseId = r.leaseId
  sn : s.sn = r.sn
  streamInstanceId : s.streamInstanceId = r.streamInstanceId
  descriptor : s.descriptor = some r.descriptor

/-- A record that agrees with the request it keeps, in the ranges of its
members. -/
structure Documented (s : MediaSession) : Prop where
  request : ∃ r, s.v2Request = some r ∧ Transcribes s r
  pin : s.pin.length < 513
  mountpointId : s.mountpointId < 2 ^ 32
  routeGeneration : s.routeGeneration < 2 ^ 32
  rtpPort : 1 ≤ s.rtpPort ∧ s.rtpPort ≤ 65535
  rtcpPort : 1 ≤ s.rtcpPort ∧ s.rtcpPort ≤ 65535

/-- A stop of slot i that leaves t there. It was not STOPPED before. Unless the policy allows more, it was
meant for a live record with that id, or the device has no live session. -/
structure Stops (p : Policy) (r : Registry) (i : Nat) (t : MediaSession) : Prop where
  identity : SameIdentity (r.slots i) t
  stopped : t.state = .stopped
  running : (r.slots i).state ≠ .stopped
  named : (r.slots i).sessionId ≠ []
  meant : p.staleStop ∨ (∃ k, live (r.slots k) = true ∧ (r.slots k).sessionId = (r.slots i).sessionId) ∨
    ∀ k, live (r.slots k) = true → (r.slots k).sn ≠ (r.slots i).sn

/-- A new record t for an EMPTY slot i. -/
structure Admits (p : Policy) (r : Registry) (i : Nat) (t : MediaSession) : Prop where
  vacant : (r.slots i).state = .empty
  sessionId : t.sessionId ≠ [] ∧ t.sessionId.length < 64
  sn : t.sn ≠ [] ∧ t.sn.length < 128
  camera : t.cameraSource = true → modern t = true
  uuid : modern t = true → msUuid t.sessionId = true
  documented : modern t = true → Documented t
  fresh : ∀ j, (r.slots j).sessionId = t.sessionId →
    p.retry ∧ modern t = false ∧ modern (r.slots j) = false

/-- A live session that opens: its device is free, and so are its ports unless
it brings its own; a camera session has fenced off the connections so far. -/
structure Opens (p : Policy) (r : Registry) (i : Nat) (t : MediaSession) : Prop extends Admits p r i t where
  starting : t.state = .starting
  device : ∀ j, live (r.slots j) = true → (r.slots j).sn = t.sn → (r.slots j).sessionId = t.sessionId
  ports : p.chosenPorts ∨ t.rtcpPort = t.rtpPort + 1 ∧
    (∀ e ∈ r.routes, takesPort t.rtpPort e.rtpPort e.rtcpPort = false) ∧
    ∀ j, live (r.slots j) = true → takesPort t.rtpPort (r.slots j).rtpPort (r.slots j).rtcpPort = false
  fence : t.cameraSource = true → ∀ c ∈ r.clients, c.sn = t.sn → c.cameraRouteRevoked = true

/-- What a completed preamble makes of a connection. -/
structure Binds (r : Registry) (e : Nat) (sn : CString) (c d : IngressClient) : Prop where
  epoch : d.epoch = c.epoch
  framing : d.state = .framing
  revoked : d.cameraRouteRevoked = c.cameraRouteRevoked
  device : d.sn = sn
  rtpPort : d.rtpPort = ((lookupRoute r.routes sn).map fun x => x.rtpPort).getD 0
  rtcpPort : d.rtcpPort = ((lookupRoute r.routes sn).map fun x => x.rtcpPort).getD 0
  camera : c.epoch = e → ∀ i, live (r.slots i) = true → (r.slots i).sn = sn → (r.slots i).cameraSource = true →
    d.cameraRouteGeneration = (r.slots i).routeGeneration ∧ (r.slots i).minimumCameraConnectionEpoch ≤ c.epoch

/-- The atomic changes that every run of the process is made of. -/
inductive Move (p : Policy) (r : Registry) : Registry → Prop
  | touch (i : Nat) (t : MediaSession) (hs : live (r.slots i) = true) (ht : live t = true)
      (h : SameIdentity (r.slots i) t) : Move p r { r with slots := Function.update r.slots i t }
  | stop (i : Nat) (t : MediaSession) (h : Stops p r i t) :
      Move p r { r with
        slots := Function.update r.slots i t
        routes := dropEntry (r.slots i).sn r.routes
        clients := dropTargets r (r.slots i).sn }
  | clear (i : Nat) (h : finished (r.slots i) = true) (hp : p.evict i) :
      Move p r { r with slots := Function.update r.slots i {} }
  | fail (i : Nat) (t : MediaSession) (h : Admits p r i t) (hf : t.state = .failed) (hm : modern t = false) :
      Move p r { r with slots := Function.update r.slots i t }
  | start (i : Nat) (t : MediaSession) (h : Opens p r i t) :
      Move p r { r with
        slots := Function.update r.slots i t
        routes := putEntry t.sn t.rtpPort t.rtcpPort r.routes
        clients := retarget t.sn t.rtpPort t.rtcpPort r.clients }
  | reroute (i : Nat) (h : live (r.slots i) = true) :
      Move p r { r with
        routes := putEntry (r.slots i).sn (r.slots i).rtpPort (r.slots i).rtcpPort r.routes
        clients := retarget (r.slots i).sn (r.slots i).rtpPort (r.slots i).rtcpPort r.clients }
  | put (sn : CString) (rtp rtcp : Int) (h : p.manual) :
      Move p r { r with routes := putEntry sn rtp rtcp r.routes, clients := retarget sn rtp rtcp r.clients }
  | drop (sn : CString) (h : p.manual) :
      Move p r { r with routes := dropEntry sn r.routes, clients := dropTargets r sn }
  | orphan (e : RouteEntry) (sn : CString) (he : e ∈ r.routes) (hd : e.isStatic = false)
      (ho : ∀ i, live (r.slots i) = true → (r.slots i).sn ≠ e.sn) :
      Move p r { r with routes := dropEntry e.sn r.routes, clients := retarget sn 0 0 r.clients }
  | accept (c : IngressClient) (he : c.epoch = r.nextEpoch) (hn : c.sn = []) (hr : c.cameraRouteRevoked = false)
      (hs : c.state = .preamble) :
      Move p r { r with clients := r.clients ++ [c], nextEpoch := r.nextEpoch + 1 }
  | burn : Move p r { r with nextEpoch := r.nextEpoch + 1 }
  | remove (e : Nat) : Move p r { r with clients := r.clients.filter fun c => c.epoch != e }
  | recount (f : IngressClient → IngressClient) (h : ∀ c, SameBinding c (f c)) :
      Move p r { r with clients := r.clients.map f }
  | revoke (which : IngressClient → Bool) :
      Move p r { r with clients := r.clients.map fun c => if which c then { c with cameraRouteRevoked := true } else c }
  | bind (e : Nat) (sn : CString) (f : IngressClient → IngressClient) (h : ∀ c, Binds r e sn c (f c)) (hp : p.hello)
      (hs : sn ≠ [] → ∀ c ∈ r.clients, c.epoch ≠ e → c.sn ≠ sn) :
      Move p r { r with clients := r.clients.map fun c => if c.epoch = e then f c else c }
  | forward (f : Forward) (hc : f.client ∈ r.clients) (hr : f.client.cameraRouteRevoked = false)
      (hs : ∀ s ∈ f.sessions, ∃ i, r.slots i = s) : Move p r { r with forwarded := r.forwarded ++ [f] }

/-- The refinement relation of the development: the process moves from one
registry to another by finitely many moves. -/
def Path (p : Policy) : Registry → Registry → Prop := ReflTransGen (Move p)

/-- A record that can stand in the table between two events. -/
structure WellFormed (s : MediaSession) : Prop where
  zero : s.state = .empty → s = {}
  sessionId : s.state ≠ .empty → s.sessionId ≠ [] ∧ s.sessionId.length < 64
  sn : s.state ≠ .empty → s.sn ≠ [] ∧ s.sn.length < 128
  settled : s.state ≠ .stopping
  camera : s.cameraSource = true → modern s = true
  uuid : modern s = true → msUuid s.sessionId = true
  documented : modern s = true → Documented s
  proper : modern s = true → s.state ≠ .failed

/-- Two records share an id only if both are legacy ones, and a device with
two live records has both under one id. -/
structure Compatible (s t : MediaSession) : Prop where
  id : s.sessionId = t.sessionId → s.sessionId ≠ [] → modern s = false ∧ modern t = false
  device : live s = true → live t = true → s.sn = t.sn → s.sessionId = t.sessionId

/-- Every connection has an epoch of its own, from before the next one, no name
before its preamble, and a name that no other connection has. -/
structure Doors (r : Registry) : Prop where
  nodup : (r.clients.map fun c => c.epoch).Nodup
  bound : ∀ c ∈ r.clients, c.epoch < r.nextEpoch
  unnamed : ∀ c ∈ r.clients, c.state = .preamble → c.sn = []
  single : r.clients.Pairwise fun c d => c.sn = d.sn → c.sn = []

structure Sane (r : Registry) : Prop where
  record : ∀ i, WellFormed (r.slots i)
  pair : Pairwise (Function.onFun Compatible r.slots)
  doors : Doors r

theorem live_iff (s : MediaSession) : live s = true ↔ s.state = .active ∨ s.state = .starting := by
  simp [live]

theorem finished_iff (s : MediaSession) : finished s = true ↔ s.state = .stopped ∨ s.state = .failed := by
  simp [finished]

variable {r : Registry} {p : Policy} {s t : MediaSession}

theorem SameIdentity.modern_eq (h : SameIdentity s t) : modern t = modern s := by
  simp only [modern, h.contractVersion]

theorem SameIdentity.refl (s : MediaSession) : SameIdentity s s := by constructor <;> rfl

theorem SameIdentity.trans {s t u : MediaSession} (h : SameIdentity s t) (h' : SameIdentity t u) : SameIdentity s u :=
  ⟨h'.sessionId.trans h.sessionId, h'.operationId.trans h.operationId, h'.leaseId.trans h.leaseId,
    h'.streamInstanceId.trans h.streamInstanceId, h'.sn.trans h.sn, h'.pin.trans h.pin,
    h'.descriptor.trans h.descriptor, h'.v2Request.trans h.v2Request, h'.rtpPort.trans h.rtpPort, h'.rtcpPort.trans h.rtcpPort,
    h'.mountpointId.trans h.mountpointId, h'.contractVersion.trans h.contractVersion,
    h'.cameraSource.trans h.cameraSource, h'.routeGeneration.trans h.routeGeneration,
    h'.minimumEpoch.trans h.minimumEpoch⟩

theorem SameBinding.refl (c : IngressClient) : SameBinding c c := by constructor <;> rfl

theorem SameBinding.trans {c d e : IngressClient} (h : SameBinding c d) (h' : SameBinding d e) : SameBinding c e :=
  ⟨h'.epoch.trans h.epoch, h'.state.trans h.state, h'.sn.trans h.sn, h'.rtpPort.trans h.rtpPort, h'.rtcpPort.trans h.rtcpPort,
    h'.generation.trans h.generation, h'.revoked.trans h.revoked⟩

theorem Compatible.symm (s t : MediaSession) (h : Compatible s t) : Compatible t s where
  id he hn := (h.id he.symm (he ▸ hn)).symm
  device hs ht he := (h.device ht hs he.symm).symm

theorem Transcribes.same {r : MediaStart} (h : Transcribes s r) (hi : SameIdentity s t) :
    Transcribes t r :=
  ⟨h.admitted, hi.contractVersion.trans h.contractVersion, hi.cameraSource.trans h.cameraSource, hi.sessionId.trans h.sessionId,
    hi.operationId.trans h.operationId, hi.leaseId.trans h.leaseId, hi.sn.trans h.sn,
    hi.streamInstanceId.trans h.streamInstanceId, hi.descriptor.trans h.descriptor⟩

theorem Documented.same (h : Documented s) (hi : SameIdentity s t) : Documented t where
  request := by
    obtain ⟨r, hr, ht⟩ := h.request
    exact ⟨r, hi.v2Request.trans hr, ht.same hi⟩
  pin := hi.pin ▸ h.pin
  mountpointId := hi.mountpointId ▸ h.mountpointId
  routeGeneration := hi.routeGeneration ▸ h.routeGeneration
  rtpPort := hi.rtpPort ▸ h.rtpPort
  rtcpPort := hi.rtcpPort ▸ h.rtcpPort

theorem wellFormed_empty : WellFormed {} := by
  constructor <;> simp [modern]

theorem WellFormed.named {s : MediaSession} (h : WellFormed s) (hn : s.sessionId ≠ []) : s.state ≠ .empty := by
  intro he
  rw [h.zero he] at hn
  exact hn rfl

theorem live_not_empty {s : MediaSession} (h : live s = true) : s.state ≠ .empty := by
  rcases (live_iff s).mp h with h | h <;> simp [h]

theorem WellFormed.same (h : WellFormed s) (hs : s.state ≠ .empty) (hi : SameIdentity s t)
    (ht : live t = true ∨ t.state = .stopped) : WellFormed t := by
  have hstate : t.state = .active ∨ t.state = .starting ∨ t.state = .stopped := by
    rcases ht with ht | ht
    · rcases (live_iff t).mp ht with h | h
      · exact .inl h
      · exact .inr (.inl h)
    · exact .inr (.inr ht)
  have hne : t.state ≠ .empty ∧ t.state ≠ .stopping ∧ t.state ≠ .failed := by
    rcases hstate with h | h | h <;> simp [h]
  constructor
  · exact fun he => absurd he hne.1
  · exact fun _ => hi.sessionId ▸ h.sessionId hs
  · exact fun _ => hi.sn ▸ h.sn hs
  · exact hne.2.1
  · rw [hi.modern_eq, hi.cameraSource]
    exact h.camera
  · rw [hi.modern_eq, hi.sessionId]
    exact h.uuid
  · rw [hi.modern_eq]
    exact fun hm => (h.documented hm).same hi
  · exact fun _ => hne.2.2

theorem Compatible.same {s t u : MediaSession} (h : Compatible s u) (hi : SameIdentity s t)
    (hl : live t = true → live s = true) : Compatible t u where
  id he hn := by
    rw [hi.sessionId] at he hn
    rw [hi.modern_eq]
    exact h.id he hn
  device ht hu he := by
    rw [hi.sn] at he
    rw [hi.sessionId]
    exact h.device (hl ht) hu he

theorem compatible_empty (u : MediaSession) : Compatible {} u where
  id _ hn := absurd rfl hn
  device hl := by simp [live] at hl

variable {r r' : Registry} {t : MediaSession}

theorem Sane.write (h : Sane r) (i : Nat) (ht : WellFormed t)
    (hp : ∀ j, j ≠ i → Compatible t (r.slots j)) : Sane { r with slots := Function.update r.slots i t } where
  record := (Function.forall_update_iff r.slots (p := fun _ s => WellFormed s)).mpr ⟨ht, fun j _ => h.record j⟩
  pair := pairwise_update Compatible.symm h.pair i t hp
  doors := ⟨h.doors.nodup, h.doors.bound, h.doors.unnamed, h.doors.single⟩

theorem Sane.of_slots (h : Sane r) (hs : r'.slots = r.slots) (hd : Doors r') : Sane r' where
  record := hs ▸ h.record
  pair := hs ▸ h.pair
  doors := hd

theorem Sane.device (h : Sane r) {i j : Nat} (hi : live (r.slots i) = true) (hj : live (r.slots j) = true)
    (he : (r.slots i).sn = (r.slots j).sn) : (r.slots i).sessionId = (r.slots j).sessionId := by
  by_cases hij : i = j
  · rw [hij]
  · exact (h.pair hij).device hi hj he

theorem Admits.same {i : Nat} {t u : MediaSession} (h : Admits p r i t)
    (hi : SameIdentity t u) : Admits p r i u where
  vacant := h.vacant
  sessionId := hi.sessionId ▸ h.sessionId
  sn := hi.sn ▸ h.sn
  camera := by
    rw [hi.cameraSource, hi.modern_eq]
    exact h.camera
  uuid := by
    rw [hi.sessionId, hi.modern_eq]
    exact h.uuid
  documented := by
    rw [hi.modern_eq]
    exact fun hm => (h.documented hm).same hi
  fresh := by
    rw [hi.sessionId, hi.modern_eq]
    exact h.fresh

theorem Admits.wellFormed {i : Nat} (h : Admits p r i t)
    (ht : t.state = .starting ∨ t.state = .failed ∧ modern t = false) : WellFormed t := by
  constructor
  · rcases ht with ht | ht <;> simp [ht]
  · exact fun _ => h.sessionId
  · exact fun _ => h.sn
  · rcases ht with ht | ht <;> simp [ht]
  · exact h.camera
  · exact h.uuid
  · exact h.documented
  · rcases ht with ht | ht <;> simp [ht]

theorem Admits.compatible {i : Nat} (h : Admits p r i t)
    (hd : live t = true → ∀ j, live (r.slots j) = true → (r.slots j).sn = t.sn → (r.slots j).sessionId = t.sessionId)
    (j : Nat) : Compatible t (r.slots j) where
  id he _ := (h.fresh j he.symm).2
  device ht hj he := (hd ht j hj he.symm).symm

structure SamePeer (c d : IngressClient) : Prop where
  epoch : d.epoch = c.epoch
  state : d.state = c.state
  sn : d.sn = c.sn

theorem SamePeer.refl (c : IngressClient) : SamePeer c c := by constructor <;> rfl

theorem SamePeer.trans {c d e : IngressClient} (h : SamePeer c d) (h' : SamePeer d e) : SamePeer c e :=
  ⟨h'.epoch.trans h.epoch, h'.state.trans h.state, h'.sn.trans h.sn⟩

theorem SameBinding.peer {c d : IngressClient} (h : SameBinding c d) : SamePeer c d := ⟨h.epoch, h.state, h.sn⟩

theorem resetFeedback_binding (c : IngressClient) : SameBinding c (resetFeedback c) := by
  simp only [resetFeedback]
  split <;> constructor <;> rfl

theorem updateTargets_peer (rtp rtcp : Int) (c : IngressClient) : SamePeer c (updateTargets rtp rtcp c) := by
  have h := resetFeedback_binding c
  simp only [updateTargets]
  split <;> exact ⟨h.epoch, h.state, h.sn⟩

theorem retarget_peers (sn : CString) (rtp rtcp : Int) (clients : List IngressClient) :
    ∃ f, retarget sn rtp rtcp clients = clients.map f ∧ ∀ c, SamePeer c (f c) := by
  refine ⟨fun c => if c.sn = sn then updateTargets rtp rtcp c else c, rfl, fun c => ?_⟩
  by_cases h : c.sn = sn
  · simpa [h] using updateTargets_peer rtp rtcp c
  · simpa [h] using SamePeer.refl c

theorem dropTargets_peers (r : Registry) (sn : CString) :
    ∃ f, dropTargets r sn = r.clients.map f ∧ ∀ c, SamePeer c (f c) := by
  simp only [dropTargets]
  split
  · exact retarget_peers sn 0 0 r.clients
  · exact ⟨id, by simp, SamePeer.refl⟩

theorem Doors.named_inj (h : Doors r) {c d : IngressClient} (hc : c ∈ r.clients) (hd : d ∈ r.clients)
    (he : c.sn = d.sn) (hn : c.sn ≠ []) : c = d := by
  by_contra hne
  have hsymm : Std.Symm fun c d : IngressClient => c.sn = d.sn → c.sn = [] :=
    ⟨fun a b hab hba => hba.trans (hab hba.symm)⟩
  exact hn (h.single.forall hc hd hne he)

theorem Doors.map (h : Doors r) (hn : r'.nextEpoch = r.nextEpoch)
    (hc : ∃ f, r'.clients = r.clients.map f ∧ ∀ c, SamePeer c (f c)) : Doors r' := by
  obtain ⟨f, hclients, hf⟩ := hc
  have hmap : (r'.clients.map fun c => c.epoch) = r.clients.map fun c => c.epoch := by
    rw [hclients, List.map_map]
    apply List.map_congr_left
    intro c _
    exact (hf c).epoch
  constructor
  · rw [hmap]
    exact h.nodup
  · intro d hd
    rw [hclients] at hd
    obtain ⟨c, hc, rfl⟩ := List.mem_map.mp hd
    rw [(hf c).epoch, hn]
    exact h.bound c hc
  · intro d hd hs
    rw [hclients] at hd
    obtain ⟨c, hc, rfl⟩ := List.mem_map.mp hd
    rw [(hf c).state] at hs
    rw [(hf c).sn]
    exact h.unnamed c hc hs
  · rw [hclients, List.pairwise_map]
    refine h.single.imp fun {c d} hcd => ?_
    rw [(hf c).sn, (hf d).sn]
    exact hcd

theorem Doors.sublist (h : Doors r) (hn : r'.nextEpoch = r.nextEpoch)
    (hc : r'.clients.Sublist r.clients) : Doors r' where
  nodup := h.nodup.sublist (hc.map _)
  bound c hm := hn ▸ h.bound c (hc.subset hm)
  unnamed c hm := h.unnamed c (hc.subset hm)
  single := h.single.sublist hc

theorem Doors.accept (h : Doors r) {c : IngressClient} (he : c.epoch = r.nextEpoch) (hn : c.sn = []) :
    Doors { r with clients := r.clients ++ [c], nextEpoch := r.nextEpoch + 1 } := by
  constructor
  · rw [List.map_append, List.nodup_append]
    refine ⟨h.nodup, by simp, fun a ha b hb => ?_⟩
    obtain ⟨d, hd, rfl⟩ := List.mem_map.mp ha
    have hlt := h.bound d hd
    simp only [List.map_cons, List.map_nil, List.mem_singleton] at hb
    omega
  · intro d hd
    rcases List.mem_append.mp hd with hd | hd
    · have hlt := h.bound d hd
      change d.epoch < r.nextEpoch + 1
      omega
    · rw [List.mem_singleton] at hd
      change d.epoch < r.nextEpoch + 1
      rw [hd, he]
      omega
  · intro d hd hs
    rcases List.mem_append.mp hd with hd | hd
    · exact h.unnamed d hd hs
    · rw [List.mem_singleton] at hd
      rw [hd, hn]
  · refine List.pairwise_append.mpr ⟨h.single, List.pairwise_singleton _ _, fun a _ b hb hab => ?_⟩
    rw [List.mem_singleton] at hb
    rw [hab, hb, hn]

theorem Doors.bind (h : Doors r) {e : Nat} {sn : CString} {f : IngressClient → IngressClient}
    (hf : ∀ c, Binds r e sn c (f c)) (hs : sn ≠ [] → ∀ c ∈ r.clients, c.epoch ≠ e → c.sn ≠ sn) :
    Doors { r with clients := r.clients.map fun c => if c.epoch = e then f c else c } := by
  have hepoch : ∀ c, (if c.epoch = e then f c else c).epoch = c.epoch := by
    intro c
    split
    · exact (hf c).epoch
    · rfl
  constructor
  · have hmap : ((r.clients.map fun c => if c.epoch = e then f c else c).map fun c => c.epoch) =
        r.clients.map fun c => c.epoch := by
      rw [List.map_map]
      apply List.map_congr_left
      intro c _
      exact hepoch c
    rw [hmap]
    exact h.nodup
  · intro d hd
    obtain ⟨c, hc, rfl⟩ := List.mem_map.mp hd
    rw [hepoch c]
    exact h.bound c hc
  · intro d hd hst
    obtain ⟨c, hc, rfl⟩ := List.mem_map.mp hd
    by_cases hce : c.epoch = e
    · rw [if_pos hce, (hf c).framing] at hst
      exact absurd hst (by simp)
    · rw [if_neg hce] at hst ⊢
      exact h.unnamed c hc hst
  · rw [List.pairwise_map]
    have hboth := h.single.and (List.pairwise_map.mp h.nodup)
    refine hboth.imp_of_mem fun {c d} hc hd hcd hsn => ?_
    -- two connections of one epoch there are not, so at most one of them is renamed
    by_cases hce : c.epoch = e
    · have hde : d.epoch ≠ e := fun hde => hcd.2 (hce.trans hde.symm)
      rw [if_pos hce, if_neg hde, (hf c).device] at hsn
      rw [if_pos hce, (hf c).device]
      by_contra hne
      exact hs hne d hd hde hsn.symm
    · rw [if_neg hce] at hsn ⊢
      by_cases hde : d.epoch = e
      · rw [if_pos hde, (hf d).device] at hsn
        by_contra hne
        exact hs (hsn ▸ hne) c hc hce hsn
      · rw [if_neg hde] at hsn
        exact hcd.1 hsn

theorem Doors.move (hm : Move p r r') (h : Doors r) : Doors r' := by
  have hsame : ∃ f, r.clients = r.clients.map f ∧ ∀ c, SamePeer c (f c) := ⟨id, by simp, SamePeer.refl⟩
  cases hm with
  | touch i t _ _ _ | clear i _ | fail i t _ _ _ | forward f _ _ _ => exact h.map rfl hsame
  | stop i t _ | drop sn _ => exact h.map rfl (dropTargets_peers r _)
  | start i t _ | reroute i _ | put sn rtp rtcp _ | orphan e sn _ _ _ =>
      exact h.map rfl (retarget_peers _ _ _ r.clients)
  | accept c he hn => exact h.accept he hn
  | burn => exact ⟨h.nodup, fun c hc => Nat.lt_succ_of_lt (h.bound c hc), h.unnamed, h.single⟩
  | remove e => exact h.sublist rfl List.filter_sublist
  | recount f hf => exact h.map rfl ⟨f, rfl, fun c => (hf c).peer⟩
  | revoke which =>
      refine h.map rfl ⟨_, rfl, fun c => ?_⟩
      split
      · constructor <;> rfl
      · exact .refl c
  | bind e sn f hb _ hs => exact h.bind hb hs

theorem Sane.move (r r' : Registry) (hm : Move p r r') (h : Sane r) : Sane r' := by
  have hdoors := Doors.move hm h.doors
  cases hm with
  | touch i t hs ht hi =>
      apply h.write i ((h.record i).same (live_not_empty hs) hi (.inl ht))
      intro j hj
      exact (h.pair hj.symm).same hi fun _ => hs
  | stop i t hst =>
      have hne := (h.record i).named hst.named
      refine (h.write i ((h.record i).same hne hst.identity (.inr hst.stopped)) ?_).of_slots rfl hdoors
      intro j hj
      apply (h.pair hj.symm).same hst.identity
      simp [live, hst.stopped]
  | clear i hf => exact h.write i wellFormed_empty fun j _ => compatible_empty _
  | fail i t ha hf hmod =>
      refine h.write i (ha.wellFormed (.inr ⟨hf, hmod⟩)) fun j _ => ha.compatible ?_ j
      simp [live, hf]
  | start i t ho =>
      refine (h.write i (ho.wellFormed (.inl ho.starting)) fun j _ => ?_).of_slots rfl hdoors
      exact ho.compatible (fun _ => ho.device) j
  | _ => exact h.of_slots rfl hdoors

theorem Path.sane (h : Path p r r') (hr : Sane r) : Sane r' :=
  kept_along Sane.move h hr

end EtranProcessing.Ingress.Moves
