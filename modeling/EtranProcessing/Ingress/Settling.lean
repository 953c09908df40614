import EtranProcessing.Ingress.Lease
import EtranProcessing.Ingress.Moves

namespace EtranProcessing.Ingress.Settling

open Relation Library.Tables Library.Runs
open State Clock Feedback JsonText Routes Stores Lifecycle MediaV2 Framing Control EventLoop Moves

/-- Worlds that differ only in what the registry does not show: the clocks, the
logs, the store, the counters. -/
structure Quiet (w w' : World) : Prop where
  env : w'.env = w.env
  sessions : w'.sessions = w.sessions
  routes : w'.routes = w.routes
  clients : w'.clients = w.clients
  nextEpoch : w'.nextEpoch = w.nextEpoch
  forwarded : w'.forwarded = w.forwarded

theorem Quiet.refl (w : World) : Quiet w w := by constructor <;> rfl

theorem Quiet.trans {u v w : World} (h : Quiet u v) (h' : Quiet v w) : Quiet u w :=
  ⟨h'.env.trans h.env, h'.sessions.trans h.sessions, h'.routes.trans h.routes, h'.clients.trans h.clients,
    h'.nextEpoch.trans h.nextEpoch, h'.forwarded.trans h.forwarded⟩

variable {w w' : World} {i : Nat} {p : Policy} {rtp rtcp : Int} {sn : CString}

theorem Quiet.session_eq (h : Quiet w w') : session w' = session w := by
  funext i
  simp only [session, h.sessions]

theorem Quiet.registry_eq (h : Quiet w w') : registry w' = registry w := by
  simp only [registry, h.session_eq, h.routes, h.clients, h.nextEpoch, h.forwarded]

theorem Quiet.path (h : Quiet w w') : Path p (registry w) (registry w') := by
  rw [h.registry_eq]
  exact .refl

theorem Quiet.of_clockOnly (h : ClockOnly w w') : Quiet w w' := by
  obtain ⟨_, _, _, rfl⟩ := h
  constructor <;> rfl

theorem advance_quiet (w : World) : Quiet w (advance w) := .of_clockOnly (advance_clockOnly w)

theorem readMonotonic_quiet (w : World) : Quiet w (readMonotonic w) := .of_clockOnly (readMonotonic_clockOnly w)

theorem janusSend_quiet (w : World) (q : JanusRequest) : Quiet w (janusSend w q) := by constructor <;> rfl

theorem janusCreateFormat_quiet (w : World) (id : Nat) (rtp rtcp : Int) (pin codec : CString) (pt : Int)
    (fmtp : CString) : Quiet w (janusCreateFormat w id rtp rtcp pin codec pt fmtp).2 := janusSend_quiet _ _

theorem janusEnsureFormat_quiet (w : World) (id : Nat) (rtp rtcp : Int) (pin codec : CString) (pt : Int)
    (fmtp : CString) (strict : Bool) : Quiet w (janusEnsureFormat w id rtp rtcp pin codec pt fmtp strict).2 := by
  simp only [janusEnsureFormat]
  split
  · exact janusSend_quiet _ _
  · split
    · split <;> exact janusSend_quiet _ _
    · exact (janusSend_quiet _ _).trans (janusSend_quiet _ _)

theorem mvEnsure_quiet (w : World) (s : MediaSession) : Quiet w (mvEnsure w s).2 := by
  simp only [mvEnsure]
  split
  · exact .refl w
  · exact janusEnsureFormat_quiet _ _ _ _ _ _ _ _ _

def Stored (w w' : World) : Prop := ∃ redis, w' = { w with redis := redis }

theorem Stored.refl (w : World) : Stored w w := ⟨w.redis, rfl⟩

theorem Stored.trans {u v w : World} (h : Stored u v) (h' : Stored v w) : Stored u w := by
  obtain ⟨_, rfl⟩ := h
  obtain ⟨redis, rfl⟩ := h'
  exact ⟨redis, rfl⟩

theorem Stored.quiet (h : Stored w w') : Quiet w w' := by
  obtain ⟨_, rfl⟩ := h
  constructor <;> rfl

theorem mediaRedisSaveSession_stored (w : World) (s : MediaSession) (renewedAt : Int) :
    Stored w (mediaRedisSaveSession w s renewedAt) := by
  simp only [mediaRedisSaveSession]
  split
  · exact .refl w
  · split <;> exact ⟨_, rfl⟩

theorem mediaRedisSaveRoute_stored (w : World) (s : MediaSession) : Stored w (mediaRedisSaveRoute w s) := by
  simp only [mediaRedisSaveRoute]
  split
  · exact .refl w
  · exact ⟨_, rfl⟩

theorem mediaRedisDropSession_stored (w : World) (s : MediaSession) : Stored w (mediaRedisDropSession w s) := by
  simp only [mediaRedisDropSession]
  split <;> split <;> exact ⟨_, rfl⟩

theorem mvPersist_stored (w : World) (s : MediaSession) : Stored w (mvPersist w s) := by
  simp only [mvPersist]
  split
  · split
    · refine .trans ?_ (mediaRedisSaveRoute_stored _ _)
      exact ⟨_, rfl⟩
    · exact ⟨_, rfl⟩
  · exact .refl w

theorem mvPersist_quiet (w : World) (s : MediaSession) : Quiet w (mvPersist w s) := (mvPersist_stored w s).quiet

theorem saveBoth_quiet (w : World) (s : MediaSession) (renewedAt : Int) :
    Quiet w (mediaRedisSaveRoute (mediaRedisSaveSession w s renewedAt) s) :=
  ((mediaRedisSaveSession_stored _ _ _).trans (mediaRedisSaveRoute_stored _ _)).quiet

theorem session_setSession (w : World) (i : Nat) (t : MediaSession) (hi : i < w.sessions.length) :
    session (setSession w i t) = Function.update (session w) i t := by
  funext j
  simp only [session, setSession, Function.update_apply]
  exact getD_set w.sessions i j t {} hi

theorem registry_setSession (w : World) (i : Nat) (t : MediaSession) (hi : i < w.sessions.length) :
    registry (setSession w i t) = { registry w with slots := Function.update (session w) i t } := by
  simp only [registry, session_setSession w i t hi]
  rfl

theorem deleteRoute_outside (w : World) (sn : CString) :
    (deleteRoute w (.outside sn)).2 =
      { w with routes := dropEntry sn w.routes, clients := dropTargets (registry w) sn } := by
  simp only [deleteRoute, deref, dropTargets, registry, findRoute]
  by_cases h : (lookupRoute w.routes sn).isSome = true
  · simp only [h, if_true]
    rfl
  · have hnone : ∀ r ∈ w.routes, ¬ (r.sn == sn) = true := by
      intro r hr he
      apply h
      simp only [lookupRoute, List.find?_isSome]
      exact ⟨r, hr, he⟩
    simp only [h, dropEntry, List.eraseP_of_forall_not hnone]
    rfl

theorem upsertRoute_some (h : upsertRoute w sn rtp rtcp = some w') :
    w' = { w with routes := putEntry sn rtp rtcp w.routes, clients := retarget sn rtp rtcp w.clients } := by
  simp only [upsertRoute] at h
  by_cases hs : (findRoute w sn).isSome = true
  · have hs' : (lookupRoute w.routes sn).isSome = true := hs
    rw [if_pos hs] at h
    simp only [putEntry, hs', if_true]
    exact (Option.some.inj h).symm
  · have hs' : ¬ (lookupRoute w.routes sn).isSome = true := hs
    rw [if_neg hs] at h
    simp only [putEntry, hs']
    by_cases hroom : w.routes.length < maxRoutes
    · rw [if_pos hroom] at h
      exact (Option.some.inj h).symm
    · rw [if_neg hroom] at h
      exact absurd h (by simp)

/-- What a stop or an expiry can do to the table and the connections: records
stop, and connections lose their ports. -/
structure Dims (c d : IngressClient) : Prop extends SamePeer c d where
  rxBuf : d.rxBuf = c.rxBuf
  ports : SameBinding c d ∨ d.rtpPort = 0 ∧ d.rtcpPort = 0

structure Settles (w w' : World) : Prop where
  env : w'.env = w.env
  length : w'.sessions.length = w.sessions.length
  nextEpoch : w'.nextEpoch = w.nextEpoch
  slot : ∀ i, session w' i = session w i ∨
    ((session w' i).state = .stopped ∧ SameIdentity (session w i) (session w' i))
  clients : ∃ f, w'.clients = w.clients.map f ∧ ∀ c, Dims c (f c)

theorem Dims.refl (c : IngressClient) : Dims c c := ⟨.refl c, rfl, .inl (.refl c)⟩

theorem Dims.trans {c d e : IngressClient} (h : Dims c d) (h' : Dims d e) : Dims c e where
  toSamePeer := h.toSamePeer.trans h'.toSamePeer
  rxBuf := h'.rxBuf.trans h.rxBuf
  ports := by
    rcases h'.ports with hs | hz
    · rcases h.ports with ht | hz
      · exact .inl (ht.trans hs)
      · exact .inr ⟨hs.rtpPort.trans hz.1, hs.rtcpPort.trans hz.2⟩
    · exact .inr hz

theorem Quiet.settles (h : Quiet w w') : Settles w w' where
  env := h.env
  length := by rw [h.sessions]
  nextEpoch := h.nextEpoch
  slot i := .inl (by rw [h.session_eq])
  clients := ⟨id, by simp [h.clients], fun c => .refl c⟩

theorem Settles.refl (w : World) : Settles w w := (Quiet.refl w).settles

theorem Settles.identity (h : Settles w w') (i : Nat) : SameIdentity (session w i) (session w' i) := by
  rcases h.slot i with he | he
  · rw [he]
    exact .refl _
  · exact he.2

theorem Settles.live (h : Settles w w') (i : Nat) (hl : live (session w' i) = true) :
    session w' i = session w i := by
  rcases h.slot i with he | he
  · exact he
  · simp [State.live, he.1] at hl

theorem Settles.trans {u v w : World} (h : Settles u v) (h' : Settles v w) : Settles u w where
  env := h'.env.trans h.env
  length := h'.length.trans h.length
  nextEpoch := h'.nextEpoch.trans h.nextEpoch
  slot i := by
    rcases h'.slot i with he | he
    · rw [he]
      exact h.slot i
    · exact .inr ⟨he.1, (h.identity i).trans he.2⟩
  clients := by
    obtain ⟨f, hf, hd⟩ := h.clients
    obtain ⟨g, hg, hd'⟩ := h'.clients
    refine ⟨g ∘ f, by rw [hg, hf, List.map_map], fun c => ?_⟩
    exact (hd c).trans (hd' (f c))

theorem updateTargets_sn (rtp rtcp : Int) (c : IngressClient) : (updateTargets rtp rtcp c).sn = c.sn := by
  simp only [updateTargets]
  split <;> exact (resetFeedback_binding c).sn

theorem dropEntry_filter (routes : List RouteEntry) {sn other : CString} (hne : other ≠ sn) :
    ((dropEntry sn routes).filter fun e => e.sn == other) = routes.filter fun e => e.sn == other := by
  apply filter_eraseP routes
  intro e he
  simp only [beq_iff_eq] at he
  simpa [he] using hne.symm

theorem updateTargets_dims (c : IngressClient) : Dims c (updateTargets 0 0 c) := by
  have h := resetFeedback_binding c
  have hbuf : (resetFeedback c).rxBuf = c.rxBuf := by
    simp only [resetFeedback]
    split <;> rfl
  simp only [updateTargets]
  split <;> exact ⟨⟨h.epoch, h.state, h.sn⟩, hbuf, .inr ⟨rfl, rfl⟩⟩

theorem dropTargets_dims (r : Registry) (sn : CString) :
    ∃ f, dropTargets r sn = r.clients.map f ∧ ∀ c, Dims c (f c) := by
  simp only [dropTargets]
  split
  · refine ⟨fun c => if c.sn = sn then updateTargets 0 0 c else c, rfl, fun c => ?_⟩
    by_cases hc : c.sn = sn
    · simpa [hc] using updateTargets_dims c
    · simpa [hc] using Dims.refl c
  · exact ⟨id, by simp, fun c => .refl c⟩

theorem harvest_identity (w : World) (s : MediaSession) : SameIdentity s (harvest w s) := by
  simp only [harvest]
  split <;> constructor <;> rfl

def stoppedRecord (w : World) (i : Nat) (reason : CString) : MediaSession :=
  { harvest (advance w) (session w i) with
    state := .stopped
    stoppedAt := now w
    stopReason := safeStrcpy 64 (if reason = [] then bytes "user_closed" else reason) }

theorem stoppedRecord_identity (w : World) (i : Nat) (reason : CString) :
    SameIdentity (session w i) (stoppedRecord w i reason) := by
  have h := harvest_identity (advance w) (session w i)
  exact ⟨h.sessionId, h.operationId, h.leaseId, h.streamInstanceId, h.sn, h.pin, h.descriptor, h.v2Request, h.rtpPort,
    h.rtcpPort, h.mountpointId, h.contractVersion, h.cameraSource, h.routeGeneration, h.minimumEpoch⟩

theorem teardown_spec (w : World) (i : Nat) (reason : CString) (hi : i < w.sessions.length) :
    (teardown w i reason).sessions = w.sessions.set i (stoppedRecord w i reason) ∧
    (teardown w i reason).env = w.env ∧
    registry (teardown w i reason) = { registry w with
      slots := Function.update (session w) i (stoppedRecord w i reason)
      routes := dropEntry (session w i).sn w.routes
      clients := dropTargets (registry w) (session w i).sn } := by
  have hsn : (harvest (advance w) (session w i)).sn = (session w i).sn := (harvest_identity _ _).sn
  let w₁ : World := { advance w with
    routes := dropEntry (session w i).sn w.routes
    clients := dropTargets (registry w) (session w i).sn }
  have hq : Quiet (setSession w₁ i (stoppedRecord w i reason)) (teardown w i reason) := by
    simp only [teardown]
    rw [deleteRoute_outside]
    refine .trans ?_ ((mediaRedisDropSession_stored _ _).quiet.trans ((mvPersist_quiet _ _).trans (by constructor <;> rfl)))
    refine ⟨rfl, ?_, congrArg (dropEntry · w.routes) hsn, congrArg (dropTargets (registry w)) hsn, rfl, rfl⟩
    exact List.set_set _
  refine ⟨by rw [hq.sessions]; rfl, by rw [hq.env]; rfl, ?_⟩
  rw [hq.registry_eq, registry_setSession w₁ i _ hi]
  rfl

theorem teardown_settles (w : World) (i : Nat) (reason : CString) (hi : i < w.sessions.length) :
    Settles w (teardown w i reason) := by
  obtain ⟨hsessions, henv, hreg⟩ := teardown_spec w i reason hi
  have hslots := congrArg Registry.slots hreg
  refine ⟨henv, by simp [hsessions], congrArg Registry.nextEpoch hreg, fun j => ?_, ?_⟩
  · change session (teardown w i reason) = _ at hslots
    rw [hslots]
    by_cases hj : j = i
    · subst hj
      right
      simpa using ⟨rfl, stoppedRecord_identity w j reason⟩
    · left
      simp [hj]
  · obtain ⟨f, hf, hd⟩ := dropTargets_dims (registry w) (session w i).sn
    exact ⟨f, (congrArg Registry.clients hreg).trans hf, hd⟩

variable {w : World}

theorem findSessionById_some {id : CString} (h : findSessionById w id = some i) :
    i < w.sessions.length ∧ (session w i).sessionId = id ∧ id ≠ [] := by
  simp only [findSessionById] at h
  split at h
  · exact absurd h (by simp)
  next hid =>
    obtain ⟨hi, hq⟩ := getD_of_findIdx? {} h
    exact ⟨hi, beq_iff_eq.mp hq, hid⟩

theorem findSessionById_none {id : CString} (hid : id ≠ []) (h : findSessionById w id = none) (j : Nat) :
    (session w j).sessionId ≠ id := by
  simp only [findSessionById, hid, if_false] at h
  refine beq_eq_false_iff_ne.mp (getD_of_findIdx?_none (q := fun s : MediaSession => s.sessionId == id) ?_ h j)
  exact beq_eq_false_iff_ne.mpr fun he => hid he.symm

theorem findActiveSessionForSn_some (h : findActiveSessionForSn w sn = some i) :
    i < w.sessions.length ∧ live (session w i) = true ∧ (session w i).sn = sn ∧ sn ≠ [] := by
  simp only [findActiveSessionForSn] at h
  split at h
  · exact absurd h (by simp)
  next hsn =>
    obtain ⟨hi, hq⟩ := getD_of_findIdx? {} h
    simp only [Bool.and_eq_true, beq_iff_eq] at hq
    exact ⟨hi, hq.1, hq.2, hsn⟩

theorem findActiveSessionForSn_none (hsn : sn ≠ []) (h : findActiveSessionForSn w sn = none)
    (j : Nat) (hj : live (session w j) = true) : (session w j).sn ≠ sn := by
  simp only [findActiveSessionForSn, hsn, if_false] at h
  have hnone : (live (session w j) && (session w j).sn == sn) = false :=
    getD_of_findIdx?_none (q := fun s : MediaSession => live s && s.sn == sn) rfl h j
  rw [hj, Bool.true_and] at hnone
  exact beq_eq_false_iff_ne.mp hnone

theorem stopMediaSession_settles (w : World) (id reason : CString) : Settles w (stopMediaSession w id reason).2 := by
  simp only [stopMediaSession]
  split
  · exact .refl w
  next i hi =>
    split
    · exact .refl w
    · exact teardown_settles w i reason (findSessionById_some hi).1

theorem expireMediaSession_spec (w : World) (i : Nat) (t : Int) :
    (¬ (live (session w i) = true ∧ leaseOver w (session w i) t = true) ∧ ClockOnly w (expireMediaSession w i t)) ∨
    (live (session w i) = true ∧ leaseOver w (session w i) t = true) ∧ ∃ w₁, ClockOnly w w₁ ∧
      expireMediaSession w i t = (stopMediaSession w₁ (session w i).sessionId (bytes "ttl_expired")).2 := by
  have hclock : ClockOnly w (if (session w i).contractVersion = 3 then readMonotonic w else w) := by
    split
    · exact readMonotonic_clockOnly w
    · exact .refl w
  simp only [expireMediaSession]
  by_cases hl : live (session w i) = true
  · by_cases hover : leaseOver w (session w i) t = true
    · exact .inr ⟨⟨hl, hover⟩, _, hclock, by simp [hl, hover]⟩
    · exact .inl ⟨fun h => hover h.2, by simpa [hl, hover] using hclock⟩
  · have hdead : live (session w i) = false := by simpa using hl
    exact .inl ⟨fun h => hl h.1, by simpa [hdead] using ClockOnly.refl w⟩

theorem expireMediaSession_settles (w : World) (i : Nat) (t : Int) : Settles w (expireMediaSession w i t) := by
  rcases expireMediaSession_spec w i t with ⟨_, hclock⟩ | ⟨_, w₁, hclock, hstop⟩
  · exact (Quiet.of_clockOnly hclock).settles
  · rw [hstop]
    exact (Quiet.of_clockOnly hclock).settles.trans (stopMediaSession_settles w₁ _ _)

theorem Settles.findSessionById (h : Settles w w') (id : CString) :
    findSessionById w' id = findSessionById w id := by
  simp only [Lifecycle.findSessionById]
  rw [findIdx?_of_key (fun s : MediaSession => s.sessionId) (fun x => x == id) {} h.length fun i =>
    (h.identity i).sessionId]

theorem stopMediaSession_path (w : World) (id reason : CString)
    (hmeant : ∀ i, findSessionById w id = some i → (session w i).state ≠ .stopped →
      p.staleStop ∨ (∃ k, live (session w k) = true ∧ (session w k).sessionId = id) ∨
      ∀ k, live (session w k) = true → (session w k).sn ≠ (session w i).sn) :
    Path p (registry w) (registry (stopMediaSession w id reason).2) := by
  simp only [stopMediaSession]
  split
  · exact .refl
  next i hi =>
    split
    · exact .refl
    next hstate =>
      obtain ⟨hlt, hid, hne⟩ := findSessionById_some hi
      dsimp only
      rw [(teardown_spec w i reason hlt).2.2]
      refine .single (Move.stop i (stoppedRecord w i reason) ⟨stoppedRecord_identity w i reason, rfl, hstate, ?_, ?_⟩)
      · exact hid ▸ hne
      · have := hmeant i hi hstate
        rwa [← hid] at this

theorem expireMediaSession_path (w : World) (i : Nat) (t : Int) :
    Path p (registry w) (registry (expireMediaSession w i t)) := by
  rcases expireMediaSession_spec w i t with ⟨_, hclock⟩ | ⟨⟨hl, _⟩, w₁, hclock, hstop⟩
  · exact (Quiet.of_clockOnly hclock).path
  · have hq := Quiet.of_clockOnly hclock
    rw [hstop, ← hq.registry_eq]
    apply stopMediaSession_path
    intro j _ _
    rw [← hq.session_eq] at hl
    exact .inr (.inl ⟨i, hl, by rw [hq.session_eq]⟩)

theorem expireOptional_path (w : World) (i : Option Nat) (t : Int) :
    Path p (registry w) (registry (expireOptional w i t)) := by
  cases i with
  | none => exact .refl
  | some i => exact expireMediaSession_path w i t

theorem expireOptional_settles (w : World) (i : Option Nat) (t : Int) : Settles w (expireOptional w i t) := by
  cases i with
  | none => exact .refl w
  | some i => exact expireMediaSession_settles w i t

theorem countStarted_quiet (w : World) : Quiet w (countStarted w) := by constructor <;> rfl

theorem janusMountpointEnsure_quiet (w : World) (id : Nat) (rtp rtcp : Int) (pin : CString) :
    Quiet w (janusMountpointEnsure w id rtp rtcp pin).2 := janusEnsureFormat_quiet _ _ _ _ _ _ _ _ _

theorem renewed_identity (s : MediaSession) (ttlSec renewedAt : Int) : SameIdentity s (renewed s ttlSec renewedAt) :=
  by constructor <;> rfl

/-- A start that finds its session renews the lease of a request that has one. -/
theorem renewal_identity {s : MediaSession} (r : StartRequest) (h : live s = true) :
    SameIdentity s (if r.leaseBound then renewed s r.ttlSec r.requestAt else s) ∧
      live (if r.leaseBound then renewed s r.ttlSec r.requestAt else s) = true := by
  split
  · exact ⟨renewed_identity _ _ _, h⟩
  · exact ⟨.refl _, h⟩

theorem touch_path (w : World) (i : Nat) (t : MediaSession) (hi : i < w.sessions.length)
    (hs : live (session w i) = true) (ht : live t = true) (h : SameIdentity (session w i) t) :
    Path p (registry w) (registry (setSession w i t)) := by
  rw [registry_setSession w i t hi]
  exact .single (Move.touch i t hs ht h)

theorem Quiet.after_set {t : MediaSession} (h : Quiet (setSession w i t) w')
    (hi : i < w.sessions.length) : session w' = Function.update (session w) i t ∧ i < w'.sessions.length := by
  constructor
  · rw [h.session_eq]
    exact congrArg Registry.slots (registry_setSession w i t hi)
  · rw [h.sessions]
    simpa [setSession] using hi

theorem open_path {w w' w'' : World} {t : MediaSession} (hq : Quiet (setSession w i t) w')
    (hi : i < w.sessions.length) (ho : Opens p (registry w) i t)
    (hup : upsertRoute w' t.sn t.rtpPort t.rtcpPort = some w'') : Path p (registry w) (registry w'') := by
  have he : registry w'' = { registry w with
      slots := Function.update (session w) i t
      routes := putEntry t.sn t.rtpPort t.rtcpPort w.routes
      clients := retarget t.sn t.rtpPort t.rtcpPort w.clients } := by
    rw [upsertRoute_some hup]
    simp only [registry, Registry.mk.injEq]
    exact ⟨(hq.after_set hi).1, congrArg _ hq.routes, congrArg _ hq.clients, hq.nextEpoch, hq.forwarded⟩
  rw [he]
  exact .single (Move.start i t ho)

theorem oldestFinished_finished (l : List MediaSession) (i : Nat) (best : Option (Nat × Int)) (k : Nat)
    (h : oldestFinished l i best = some k) :
    (∃ t, best = some (k, t)) ∨ ∃ j, k = i + j ∧ j < l.length ∧ finished (l.getD j {}) = true := by
  induction l generalizing i best with
  | nil =>
      simp only [oldestFinished, Option.map_eq_some_iff] at h
      obtain ⟨⟨a, t⟩, hb, rfl⟩ := h
      exact .inl ⟨t, hb⟩
  | cons s rest ih =>
      simp only [oldestFinished] at h
      rcases ih (i + 1) _ h with ⟨t, hb⟩ | ⟨j, rfl, hj, hf⟩
      · by_cases hfin : finished s = true
        · have hhere : k = i → ∃ j, k = i + j ∧ j < (s :: rest).length ∧ finished ((s :: rest).getD j {}) = true :=
            fun hk => ⟨0, hk, by simp, by simpa using hfin⟩
          rw [if_pos hfin] at hb
          cases best with
          | none =>
              simp only [Option.some.injEq, Prod.mk.injEq] at hb
              exact .inr (hhere hb.1.symm)
          | some b =>
              dsimp only at hb
              split at hb
              · simp only [Option.some.injEq, Prod.mk.injEq] at hb
                exact .inr (hhere hb.1.symm)
              · exact .inl ⟨t, hb⟩
        · rw [if_neg hfin] at hb
          exact .inl ⟨t, hb⟩
      · right
        exact ⟨j + 1, by omega, by simpa using hj, by simpa using hf⟩

/-- What the slot allocator can do: hand out a slot that is EMPTY, after it has
cleared the slot of a finished record if there was no other. -/
structure Vacates (w : World) (i : Nat) (w' : World) : Prop where
  lt : i < w'.sessions.length
  vacant : (session w' i).state = .empty
  env : w'.env = w.env
  routes : w'.routes = w.routes
  clients : w'.clients = w.clients
  nextEpoch : w'.nextEpoch = w.nextEpoch
  forwarded : w'.forwarded = w.forwarded
  redis : w'.redis = w.redis
  slots : session w' = session w ∨ (finished (session w i) = true ∧ maxMediaSessions ≤ w.sessions.length) ∧
    session w' = Function.update (session w) i {}

theorem allocateSessionSlot_sessions (h : allocateSessionSlot w = some (i, w')) :
    ∃ sessions, w' = { w with sessions := sessions } := by
  simp only [allocateSessionSlot] at h
  split at h
  · simp only [Option.some.injEq, Prod.mk.injEq] at h
    exact ⟨w.sessions, h.2.symm⟩
  · split at h
    · simp only [Option.some.injEq, Prod.mk.injEq] at h
      exact ⟨_, h.2.symm⟩
    · obtain ⟨k, _, he⟩ := Option.map_eq_some_iff.mp h
      simp only [Prod.mk.injEq] at he
      exact ⟨_, he.2.symm⟩

theorem allocateSessionSlot_spec (h : allocateSessionSlot w = some (i, w')) :
    Vacates w i w' := by
  simp only [allocateSessionSlot] at h
  split at h
  next j hj =>
    simp only [Option.some.injEq, Prod.mk.injEq] at h
    obtain ⟨rfl, rfl⟩ := h
    obtain ⟨hlt, hq⟩ := getD_of_findIdx? {} hj
    exact ⟨hlt, beq_iff_eq.mp hq, rfl, rfl, rfl, rfl, rfl, rfl, .inl rfl⟩
  · split at h
    · simp only [Option.some.injEq, Prod.mk.injEq] at h
      obtain ⟨rfl, rfl⟩ := h
      have hs : session { w with sessions := w.sessions ++ [{}] } = session w := by
        funext j
        exact getD_append_default w.sessions j {}
      refine ⟨by simp, ?_, rfl, rfl, rfl, rfl, rfl, rfl, .inl hs⟩
      rw [hs]
      simp [session]
    next hfull =>
      obtain ⟨k, hk, he⟩ := Option.map_eq_some_iff.mp h
      simp only [Prod.mk.injEq] at he
      obtain ⟨rfl, rfl⟩ := he
      rcases oldestFinished_finished _ _ _ _ hk with ⟨_, hb⟩ | ⟨j, rfl, hj, hf⟩
      · exact absurd hb (by simp)
      · rw [Nat.zero_add] at *
        have hs := congrArg Registry.slots (registry_setSession w j {} hj)
        change session (setSession w j {}) = Function.update (session w) j {} at hs
        refine ⟨by simpa [setSession] using hj, ?_, rfl, rfl, rfl, rfl, rfl, rfl, .inr ⟨⟨hf, Nat.le_of_not_lt hfull⟩, hs⟩⟩
        rw [hs]
        simp

/-- A start that has only checked leases so far gets the allocator to clear the
slot i of a finished record. -/
def Evicts (w : World) (i : Nat) : Prop :=
  ∃ w₁ w₂, Settles w w₁ ∧ allocateSessionSlot w₁ = some (i, w₂) ∧ finished (session w₁ i) = true

theorem Settles.evicts {w w₁ : World} (h : Settles w w₁) (he : Evicts w₁ i) : Evicts w i := by
  obtain ⟨w₂, w₃, hset, halloc, hf⟩ := he
  exact ⟨w₂, w₃, h.trans hset, halloc, hf⟩

theorem Vacates.path (h : Vacates w i w')
    (hevict : finished (session w i) = true → p.evict i) : Path p (registry w) (registry w') := by
  rcases h.slots with hs | ⟨⟨hf, _⟩, hs⟩
  · have he : registry w' = registry w := by
      simp only [registry, hs, h.routes, h.clients, h.nextEpoch, h.forwarded]
    rw [he]
    exact .refl
  · have he : registry w' = { registry w with slots := Function.update (session w) i {} } := by
      simp only [registry, hs, h.routes, h.clients, h.nextEpoch, h.forwarded]
    rw [he]
    exact .single (Move.clear i hf (hevict hf))

theorem Vacates.slot (h : Vacates w i w') (j : Nat) :
    session w' j = session w j ∨ session w' j = {} := by
  rcases h.slots with hs | ⟨_, hs⟩
  · exact .inl (by rw [hs])
  · rw [hs]
    by_cases hj : j = i
    · exact .inr (by simp [hj])
    · exact .inl (by simp [hj])

theorem Vacates.live (h : Vacates w i w') (j : Nat) (hl : live (session w' j) = true) :
    session w' j = session w j := by
  rcases h.slot j with hs | hs
  · exact hs
  · rw [hs] at hl
    simp [State.live] at hl

theorem allocatePortPair_some (h : allocatePortPair w = some (rtp, rtcp)) :
    rtcp = rtp + 1 ∧ (∀ e ∈ w.routes, takesPort rtp e.rtpPort e.rtcpPort = false) ∧
    ∀ j, live (session w j) = true → takesPort rtp (session w j).rtpPort (session w j).rtcpPort = false := by
  obtain ⟨q, hq, he⟩ := Option.map_eq_some_iff.mp h
  simp only [Prod.mk.injEq] at he
  obtain ⟨rfl, rfl⟩ := he
  have hp := List.find?_some hq
  simp only [Bool.and_eq_true, Bool.not_eq_true', List.any_eq_false] at hp
  refine ⟨rfl, fun e he => by simpa using hp.1 e he, fun j hj => ?_⟩
  by_cases hlt : j < w.sessions.length
  · have hmem : session w j ∈ w.sessions := by
      simp [session, hlt]
    simpa [hj] using hp.2 _ hmem
  · simp [session, Nat.le_of_not_lt hlt, State.live] at hj

theorem allocatePortPair_pool (h : allocatePortPair w = some (rtp, rtcp)) :
    rtp ∈ portPool := by
  obtain ⟨q, hq, he⟩ := Option.map_eq_some_iff.mp h
  simp only [Prod.mk.injEq] at he
  exact he.1 ▸ List.mem_of_find?_eq_some hq

theorem safeStrcpy_of_lt {size : Nat} {s : CString} (h : s.length < size) : safeStrcpy size s = s :=
  List.take_of_length_le (by omega)

def PortsFree (p : Policy) (w : World) (rtp rtcp : Int) : Prop :=
  p.chosenPorts ∨ rtcp = rtp + 1 ∧ (∀ e ∈ w.routes, takesPort rtp e.rtpPort e.rtcpPort = false) ∧
    ∀ j, live (session w j) = true → takesPort rtp (session w j).rtpPort (session w j).rtcpPort = false

theorem Vacates.portsFree (h : Vacates w i w')
    (hp : PortsFree p w rtp rtcp) : PortsFree p w' rtp rtcp := by
  rcases hp with hp | ⟨hpair, hroutes, hlive⟩
  · exact .inl hp
  · refine .inr ⟨hpair, by rw [h.routes]; exact hroutes, fun j hj => ?_⟩
    have he := h.live j hj
    rw [he] at hj ⊢
    exact hlive j hj

end EtranProcessing.Ingress.Settling
