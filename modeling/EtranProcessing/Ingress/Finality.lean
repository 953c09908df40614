import EtranProcessing.Ingress.Restart

namespace EtranProcessing.Ingress.Finality

open Library.Tables Library.Runs
open State Clock Routes Stores Lifecycle MediaV2 EventLoop Moves Settling ModernPaths Refinement
open SessionTable CameraFence Teardown Isolation Restart

def sparing (i : Nat) : Policy := { anything with evict := fun j => j ≠ i }

variable {i : Nat} {w : World}

theorem sparing_permits {e : Event} (h : ¬ (Starts e ∧ Evicts w i)) : Permits (sparing i) w e := by
  refine ⟨fun _ => trivial, fun _ => trivial, fun _ => trivial, fun _ => trivial, fun hstarts j hevicts he => ?_,
    fun _ => trivial⟩
  exact h ⟨hstarts, he ▸ hevicts⟩

theorem stopped_move {p : Policy} {r r' : Registry} (hp : ¬ p.evict i) (h : Move p r r')
    (hi : (r.slots i).state = .stopped) : r'.slots i = r.slots i := by
  have hother : ∀ {j : Nat} (t : MediaSession), j ≠ i → Function.update r.slots j t i = r.slots i :=
    fun t hj => Function.update_of_ne hj.symm t r.slots
  cases h with
  | touch j t hs _ _ =>
      refine hother t fun hj => ?_
      simp [hj, live, hi] at hs
  | stop j t h => exact hother t fun hj => h.running (hj ▸ hi)
  | clear j _ hevict => exact hother _ fun hj => hp (hj ▸ hevict)
  | fail j t h _ _ | start j t h =>
      refine hother t fun hj => ?_
      have hvacant := h.vacant
      simp [hj, hi] at hvacant
  | _ => rfl

theorem stopped_path {p : Policy} {r r' : Registry} (hp : ¬ p.evict i) (h : Path p r r')
    (hi : (r.slots i).state = .stopped) : r'.slots i = r.slots i := by
  refine kept_along (p := fun r' => r'.slots i = r.slots i) (fun a b hm ha => ?_) h rfl
  exact (stopped_move hp hm (ha ▸ hi)).trans ha

theorem stopped_step (hs : Sane (registry w)) (e : Event)
    (hi : (session w i).state = .stopped) (h : ¬ (Starts e ∧ Evicts w i)) : session (step w e) i = session w i :=
  stopped_path (p := sparing i) (by simp [sparing]) (step_path w e hs (sparing_permits h)) hi

theorem stopped_run (hs : Sane (registry w)) (hi : (session w i).state = .stopped)
    (events : List Event) :
    session (run w events) i = session w i ∨ ∃ during e rest, events = during ++ e :: rest ∧
      session (run w during) i = session w i ∧ session (step (run w during) e) i ≠ session w i ∧
      Starts e ∧ Evicts (run w during) i := by
  rcases run_first_change step (fun w => session w i) events w rfl with h | ⟨during, e, rest, hsplit, hbefore, hafter⟩
  · exact .inl h
  · refine .inr ⟨during, e, rest, hsplit, hbefore, hafter, ?_⟩
    by_contra hno
    have hsane : Sane (registry (run w during)) :=
      (run_moves hs during (along_of_forall permits_anything during w)).sane hs
    have hstopped : (session (run w during) i).state = .stopped := by
      rw [show session (run w during) i = session w i from hbefore]
      exact hi
    exact hafter ((stopped_step hsane e hstopped hno).trans hbefore)

/-- The requests to Janus of a replay of a start: all about the mountpoint of
that session, which is created only where Janus has just said it is absent. -/
inductive Rechecks (e : Env) (m : Nat) (alive : Prop) : List JanusRequest → Prop
  | silent : Rechecks e m alive []
  | destroyed : Rechecks e m alive [.destroy m]
  | asked : Rechecks e m alive [.info m]
  | recreated (rtp rtcp : Int) (pin codec : CString) (pt : Int) (fmtp : CString) {tick : Nat} {info : JanusMountpointInfo}
      (ha : alive) (hi : e.janusInfo tick = some info) (hf : info.found = false) :
      Rechecks e m alive [.info m, .create m rtp rtcp pin codec pt fmtp]

/-- What a start does when the table holds a record with its session id. -/
structure Replays (w : World) (i : Nat) (w' : World) : Prop where
  length : w'.sessions.length = w.sessions.length
  slot : ∀ j, session w' j = session w j ∨ (session w' j).state = .stopped ∧ SameIdentity (session w j) (session w' j)
  routes : w'.routes.Sublist w.routes
  janus : ∃ log, w'.janus = w.janus ++ log ∧
    Rechecks w.env (session w i).mountpointId (live (session w' i) = true) log

theorem Replays.clockOnly {w w' : World} (h : ClockOnly w w') (i : Nat) : Replays w i w' := by
  obtain ⟨_, _, _, rfl⟩ := h
  exact ⟨rfl, fun _ => .inl rfl, .refl _, [], by simp, .silent⟩

theorem Replays.after {u w w' : World} (hc : ClockOnly u w) (h : Replays w i w') : Replays u i w' := by
  obtain ⟨_, _, _, rfl⟩ := hc
  exact ⟨h.length, h.slot, h.routes, h.janus⟩

theorem janusEnsureFormat_log (w : World) (m : Nat) (rtp rtcp : Int) (pin codec : CString) (pt : Int) (fmtp : CString)
    (strict : Bool) {alive : Prop} (ha : alive) :
    ∃ log, (janusEnsureFormat w m rtp rtcp pin codec pt fmtp strict).2.janus = w.janus ++ log ∧
      Rechecks w.env m alive log := by
  simp only [janusEnsureFormat]
  cases hinfo : w.env.janusInfo w.tick with
  | none => exact ⟨[.info m], rfl, .asked⟩
  | some info =>
      dsimp only
      split
      · split <;> exact ⟨[.info m], rfl, .asked⟩
      next hfound =>
        refine ⟨[.info m, .create m rtp rtcp pin codec pt fmtp], by simp [janusCreateFormat, janusSend, advance], ?_⟩
        exact .recreated rtp rtcp pin codec pt fmtp ha hinfo (by simpa using hfound)

theorem mvEnsure_replays (hl : live (session w i) = true) :
    Replays w i (mvEnsure w (session w i)).2 := by
  have hq := mvEnsure_quiet w (session w i)
  refine ⟨by rw [hq.sessions], fun j => .inl (by rw [hq.session_eq]), by rw [hq.routes], ?_⟩
  rw [hq.session_eq]
  simp only [mvEnsure]
  cases (session w i).descriptor with
  | none => exact ⟨[], by simp, .silent⟩
  | some d => exact janusEnsureFormat_log w _ _ _ _ _ _ _ true hl

theorem expire_replays (hs : Sane (registry w)) (hm : modern (session w i) = true) (t : Int) :
    Replays w i (expireMediaSession w i t) := by
  have hsettles := expireMediaSession_settles w i t
  have hfabric := expireMediaSession_fabric w i t
  have htarget : target w (.expiry i t) = none ∨ target w (.expiry i t) = some i := by
    simp only [target]
    split
    next h =>
      have hne : (session w i).state ≠ .stopped := by
        intro hst
        simp [live, hst] at h
      exact .inr (by simp [stoppable, modern_resolves hs hm, Option.filter, hne])
    · exact .inl rfl
  have hroutes : (expireMediaSession w i t).routes = _ := congrArg Fabric.routes hfabric
  have hjanus : (expireMediaSession w i t).janus = _ := congrArg Fabric.janus hfabric
  refine ⟨hsettles.length, hsettles.slot, ?_, ?_⟩
  · rcases htarget with h | h
    · rw [h] at hroutes
      rw [hroutes]
      exact .refl _
    · rw [h] at hroutes
      rw [hroutes]
      exact List.eraseP_sublist
  · rcases htarget with h | h
    · rw [h] at hjanus
      exact ⟨[], by rw [hjanus, List.append_nil]; rfl, .silent⟩
    · rw [h] at hjanus
      exact ⟨[.destroy (session w i).mountpointId], hjanus, .destroyed⟩

theorem mvReplay_replays (hs : Sane (registry w)) (hm : modern (session w i) = true)
    (c : MediaSession) (r : MediaStart) (t : Int) : Replays w i (mvReplay w i c r t).2 := by
  simp only [mvReplay]
  split
  · exact .clockOnly (.refl w) i
  · rcases expireMediaSession_spec w i t with ⟨_, hclock⟩ | ⟨hover, _⟩
    · split
      next hl =>
        have hensure := (mvEnsure_replays hl).after hclock
        generalize mvEnsure (expireMediaSession w i t) (session (expireMediaSession w i t) i) = answer at hensure ⊢
        obtain ⟨ready | _ | _, w'⟩ := answer <;> exact hensure
      · exact .clockOnly hclock i
    · obtain ⟨w₁, _, hrecord⟩ := expire_resolved (modern_resolves hs hm) hover.1 hover.2
      have hl : live (session (expireMediaSession w i t) i) = false := by
        rw [hrecord]
        rfl
      simp only [hl]
      exact expire_replays hs hm t

theorem mediaV2Start_replays (hs : Sane (registry w)) (hm : modern (session w i) = true)
    (negotiated : Bool) {r : MediaStart} (hr : Admitted r) (hid : (session w i).sessionId = r.sessionId) :
    Replays w i (mediaV2Start w negotiated r).2 := by
  have hclock := advance_clockOnly w
  have hstay : Replays w i (advance w) := .clockOnly hclock i
  have hq := advance_quiet w
  simp only [mediaV2Start]
  split
  · exact .clockOnly (.refl w) i
  · simp only [mvStart]
    cases hfill : mvFill (advance w) r with
    | none => exact hstay
    | some c =>
        have hc : c.sessionId = (session (advance w) i).sessionId := by
          rw [mvFill_some hfill, (filled_transcribes hr).sessionId, hq.session_eq, hid]
        have hresolves : findSessionById (advance w) c.sessionId = some i := by
          rw [hc]
          exact modern_resolves (hq.registry_eq ▸ hs) (hq.session_eq ▸ hm)
        dsimp only
        split
        · exact hstay
        · split
          · exact hstay
          · rw [hresolves]
            exact (mvReplay_replays (hq.registry_eq ▸ hs) (hq.session_eq ▸ hm) c r (now w)).after hclock

/-- STOPPED is final. In every run a record that has come to STOPPED stays as it
is until a start evicts it from its slot; and a start that names a record of
contract 2 or 3 in the table adds no record and no route, and creates no
mountpoint but the one of that record, where it is missing. -/
theorem stopped_is_final {w : World} (h : Started w) (before : List Event) :
    (∀ i after, (session (run w before) i).state = .stopped →
      session (run w (before ++ after)) i = session (run w before) i ∨
      ∃ during e rest, after = during ++ e :: rest ∧
        session (run w (before ++ during)) i = session (run w before) i ∧
        session (step (run w (before ++ during)) e) i ≠ session (run w before) i ∧
        Starts e ∧ Evicts (run w (before ++ during)) i) ∧
    ∀ i negotiated r, Admitted r → modern (session (run w before) i) = true →
      (session (run w before) i).sessionId = r.sessionId →
      Replays (run w before) i (mediaV2Start (run w before) negotiated r).2 := by
  have hs := h.run_sane before
  constructor
  · intro i after hstopped
    simp only [run_then]
    exact stopped_run hs hstopped after
  · intro i negotiated r hr hm hid
    exact mediaV2Start_replays hs hm negotiated hr hid

def stoppedDoor : List Event :=
  [.start false ⟨desktopRequest, desktopRequest_admitted⟩,
    .update false ⟨2, bytes "door", uuid "1", uuid "3", uuid "4", uuid "5", .stop []⟩]

theorem stopped_is_final_door :
    (session (run goodJanus stoppedDoor) 0).state = .stopped ∧
    session (run goodJanus (stoppedDoor ++ [.expirySweep, .reconcile])) 0 = session (run goodJanus stoppedDoor) 0 ∧
    Replays (run goodJanus stoppedDoor) 0 (mediaV2Start (run goodJanus stoppedDoor) false desktopRequest).2 := by
  have hstarted : Started goodJanus := Initial.started (initial_sample _)
  have hstopped : (session (run goodJanus stoppedDoor) 0).state = .stopped := by decide +kernel
  obtain ⟨hfinal, hreplay⟩ := stopped_is_final hstarted stoppedDoor
  refine ⟨hstopped, ?_, hreplay 0 false desktopRequest (by decide) (by decide +kernel) (by decide +kernel)⟩
  rcases hfinal 0 [.expirySweep, .reconcile] hstopped with hkept | ⟨during, e, rest, hsplit, _, _, hstarts, _⟩
  · exact hkept
  · have hmem : e ∈ [Event.expirySweep, .reconcile] := hsplit ▸ by simp
    simp only [List.mem_cons, List.not_mem_nil, or_false] at hmem
    rcases hmem with rfl | rfl <;> exact absurd hstarts (by simp [Starts])

end EtranProcessing.Ingress.Finality
