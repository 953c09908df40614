import EtranProcessing.Ingress.Refinement

namespace EtranProcessing.Ingress.CameraFence

open Library.Runs
open State Feedback Routes Lifecycle MediaV2 Framing EventLoop Moves Settling Refinement

def Admissible (s : MediaSession) (c : IngressClient) : Prop :=
  s.minimumCameraConnectionEpoch ≤ c.epoch ∧ c.cameraRouteGeneration = s.routeGeneration

/-- A payload that was sent for a device with a live camera session came from a
connection of that session, and no payload came from a revoked connection. -/
structure Lawful (f : Forward) : Prop where
  current : f.client.cameraRouteRevoked = false
  camera : ∀ s ∈ f.sessions, live s = true → s.cameraSource = true → s.sn = f.client.sn → Admissible s f.client

structure Fenced (r : Registry) : Prop where
  clients : ∀ i, live (r.slots i) = true → (r.slots i).cameraSource = true → ∀ c ∈ r.clients,
    c.sn = (r.slots i).sn → c.cameraRouteRevoked = true ∨ Admissible (r.slots i) c
  log : ∀ f ∈ r.forwarded, Lawful f

/-- The connection is the same and at most more revoked. -/
structure Keeps (c d : IngressClient) : Prop where
  epoch : d.epoch = c.epoch
  sn : d.sn = c.sn
  generation : d.cameraRouteGeneration = c.cameraRouteGeneration
  revoked : c.cameraRouteRevoked = true → d.cameraRouteRevoked = true

theorem Keeps.refl (c : IngressClient) : Keeps c c := ⟨rfl, rfl, rfl, id⟩

theorem SameBinding.keeps {c d : IngressClient} (h : SameBinding c d) : Keeps c d :=
  ⟨h.epoch, h.sn, h.generation, fun hr => h.revoked.trans hr⟩

theorem updateTargets_keeps (rtp rtcp : Int) (c : IngressClient) : Keeps c (updateTargets rtp rtcp c) := by
  have h := resetFeedback_binding c
  simp only [updateTargets]
  split
  · exact ⟨h.epoch, h.sn, h.generation, fun _ => rfl⟩
  · exact ⟨h.epoch, h.sn, h.generation, fun hr => h.revoked.trans hr⟩

theorem retarget_keeps (sn : CString) (rtp rtcp : Int) (clients : List IngressClient) :
    ∃ f, retarget sn rtp rtcp clients = clients.map f ∧ ∀ c, Keeps c (f c) := by
  refine ⟨fun c => if c.sn = sn then updateTargets rtp rtcp c else c, rfl, fun c => ?_⟩
  by_cases h : c.sn = sn
  · simpa [h] using updateTargets_keeps rtp rtcp c
  · simpa [h] using Keeps.refl c

theorem dropTargets_keeps (r : Registry) (sn : CString) :
    ∃ f, dropTargets r sn = r.clients.map f ∧ ∀ c, Keeps c (f c) := by
  simp only [dropTargets]
  split
  · exact retarget_keeps sn 0 0 r.clients
  · exact ⟨id, by simp, Keeps.refl⟩

theorem Keeps.standing {c d : IngressClient} (h : Keeps c d) {s : MediaSession}
    (hc : c.cameraRouteRevoked = true ∨ Admissible s c) : d.cameraRouteRevoked = true ∨ Admissible s d := by
  rcases hc with hr | ⟨hm, hg⟩
  · exact .inl (h.revoked hr)
  · exact .inr ⟨h.epoch ▸ hm, h.generation.trans hg⟩

variable {f : IngressClient → IngressClient} {r r' : Registry} {base : List Forward}

theorem Fenced.write (h : Fenced r) (hlog : r'.forwarded = r.forwarded)
    (hclients : r'.clients = r.clients.map f) (hf : ∀ c, Keeps c (f c))
    {i : Nat} {t : MediaSession} (hslots : r'.slots = Function.update r.slots i t)
    (ht : live t = true → t.cameraSource = true → (live (r.slots i) = true ∧ SameIdentity (r.slots i) t) ∨
      ∀ c ∈ r.clients, c.sn = t.sn → c.cameraRouteRevoked = true) : Fenced r' where
  clients k hl hcam d hd hsn := by
    rw [hclients] at hd
    obtain ⟨c, hc, rfl⟩ := List.mem_map.mp hd
    rw [(hf c).sn] at hsn
    rw [hslots] at hl hcam hsn ⊢
    apply (hf c).standing
    by_cases hki : k = i
    · subst hki
      simp only [Function.update_self] at hl hcam hsn ⊢
      rcases ht hl hcam with ⟨hl₀, hi⟩ | hfence
      · rw [hi.sn] at hsn
        rw [hi.cameraSource] at hcam
        simpa only [Admissible, hi.minimumEpoch, hi.routeGeneration] using h.clients k hl₀ hcam c hc hsn
      · exact .inl (hfence c hc hsn)
    · simp only [Function.update_apply, hki, if_false] at hl hcam hsn ⊢
      exact h.clients k hl hcam c hc hsn
  log := hlog ▸ h.log

theorem Fenced.clients_only (h : Fenced r) (hs : r'.slots = r.slots) (hlog : r'.forwarded = r.forwarded)
    (hclients : r'.clients = r.clients.map f) (hf : ∀ c, Keeps c (f c)) :
    Fenced r' := by
  refine h.write hlog hclients hf (i := 0) (t := r.slots 0) ?_ fun hl _ => .inl ⟨hl, .refl _⟩
  rw [hs, Function.update_eq_self]

theorem Fenced.move {p : Policy} (r r' : Registry) (hm : Move p r r') (hs : Sane r) (h : Fenced r) : Fenced r' := by
  cases hm with
  | touch i t hl _ hi => exact h.write rfl (List.map_id _).symm Keeps.refl rfl fun _ _ => .inl ⟨hl, hi⟩
  | stop i t hst =>
      obtain ⟨f, hf, hkeeps⟩ := dropTargets_keeps r (r.slots i).sn
      refine h.write rfl hf hkeeps rfl fun hl => ?_
      simp [live, hst.stopped] at hl
  | clear i _ =>
      refine h.write rfl (List.map_id _).symm Keeps.refl rfl fun hl => ?_
      simp [live] at hl
  | fail i t _ hfailed _ =>
      refine h.write rfl (List.map_id _).symm Keeps.refl rfl fun hl => ?_
      simp [live, hfailed] at hl
  | start i t ho =>
      obtain ⟨f, hf, hkeeps⟩ := retarget_keeps t.sn t.rtpPort t.rtcpPort r.clients
      exact h.write rfl hf hkeeps rfl fun _ hcam => .inr (ho.fence hcam)
  | reroute i _ =>
      obtain ⟨f, hf, hkeeps⟩ := retarget_keeps (r.slots i).sn (r.slots i).rtpPort (r.slots i).rtcpPort r.clients
      exact h.clients_only rfl rfl hf hkeeps
  | put sn rtp rtcp _ =>
      obtain ⟨f, hf, hkeeps⟩ := retarget_keeps sn rtp rtcp r.clients
      exact h.clients_only rfl rfl hf hkeeps
  | drop sn _ =>
      obtain ⟨f, hf, hkeeps⟩ := dropTargets_keeps r sn
      exact h.clients_only rfl rfl hf hkeeps
  | orphan e sn =>
      obtain ⟨f, hf, hkeeps⟩ := retarget_keeps sn 0 0 r.clients
      exact h.clients_only rfl rfl hf hkeeps
  | accept c _ hn _ =>
      refine ⟨fun i hl hcam d hd hsn => ?_, h.log⟩
      rcases List.mem_append.mp hd with hd | hd
      · exact h.clients i hl hcam d hd hsn
      · rw [List.mem_singleton] at hd
        rw [hd, hn] at hsn
        exact absurd hsn.symm ((hs.record i).sn (live_not_empty hl)).1
  | burn => exact ⟨h.clients, h.log⟩
  | remove e => exact ⟨fun i hl hcam d hd hsn => h.clients i hl hcam d (List.mem_of_mem_filter hd) hsn, h.log⟩
  | recount f hf => exact h.clients_only rfl rfl rfl fun c => SameBinding.keeps (hf c)
  | revoke which =>
      refine h.clients_only rfl rfl rfl fun c => ?_
      by_cases hw : which c = true
      · simpa [hw] using (⟨rfl, rfl, rfl, fun _ => rfl⟩ : Keeps c { c with cameraRouteRevoked := true })
      · simpa [hw] using Keeps.refl c
  | bind e sn f hb =>
      refine ⟨fun i hl hcam d hd hsn => ?_, h.log⟩
      obtain ⟨c, hc, rfl⟩ := List.mem_map.mp hd
      by_cases hce : c.epoch = e
      · simp only [hce, if_true] at hsn ⊢
        obtain ⟨hg, hm⟩ := (hb c).camera hce i hl (hsn.symm.trans (hb c).device) hcam
        exact .inr ⟨(hb c).epoch.symm ▸ hm, hg⟩
      · simp only [hce, if_false] at hsn ⊢
        exact h.clients i hl hcam c hc hsn
  | forward f hc hr hsessions =>
      refine ⟨h.clients, fun g hg => ?_⟩
      rcases List.mem_append.mp hg with hg | hg
      · exact h.log g hg
      · rw [List.mem_singleton] at hg
        subst hg
        refine ⟨hr, fun s hss hl hcam hsn => ?_⟩
        obtain ⟨i, rfl⟩ := hsessions s hss
        rcases h.clients i hl hcam g.client hc hsn.symm with hrev | hadm
        · rw [hr] at hrev
          exact absurd hrev (by simp)
        · exact hadm

/-- A revoked connection e, and what has been forwarded since it was found
revoked. -/
structure Silenced (e : Nat) (base : List Forward) (r : Registry) : Prop where
  past : e < r.nextEpoch
  revoked : ∀ c ∈ r.clients, c.epoch = e → c.cameraRouteRevoked = true
  since : ∃ later, r.forwarded = base ++ later ∧ ∀ f ∈ later, f.client.epoch ≠ e

theorem Silenced.map {e : Nat} (h : Silenced e base r)
    (hn : r'.nextEpoch = r.nextEpoch) (hlog : r'.forwarded = r.forwarded)
    (hclients : r'.clients = r.clients.map f)
    (hf : ∀ c, (f c).epoch = c.epoch ∧ (c.cameraRouteRevoked = true → (f c).cameraRouteRevoked = true)) :
    Silenced e base r' where
  past := hn ▸ h.past
  revoked d hd he := by
    rw [hclients] at hd
    obtain ⟨c, hc, rfl⟩ := List.mem_map.mp hd
    rw [(hf c).1] at he
    exact (hf c).2 (h.revoked c hc he)
  since := hlog ▸ h.since

theorem Silenced.keeps {e : Nat} (h : Silenced e base r)
    (hn : r'.nextEpoch = r.nextEpoch) (hlog : r'.forwarded = r.forwarded)
    (hclients : ∃ f, r'.clients = r.clients.map f ∧ ∀ c, Keeps c (f c)) : Silenced e base r' := by
  obtain ⟨f, hf, hkeeps⟩ := hclients
  exact h.map hn hlog hf fun c => ⟨(hkeeps c).epoch, (hkeeps c).revoked⟩

theorem Silenced.move {p : Policy} {e : Nat} (r r' : Registry) (hm : Move p r r')
    (h : Silenced e base r) : Silenced e base r' := by
  cases hm with
  | touch i t _ _ _ | clear i _ | fail i t _ _ _ => exact ⟨h.past, h.revoked, h.since⟩
  | stop i t _ | drop sn _ => exact h.keeps rfl rfl (dropTargets_keeps r _)
  | start i t _ | reroute i _ | put sn rtp rtcp _ | orphan x sn _ _ _ =>
      exact h.keeps rfl rfl (retarget_keeps _ _ _ r.clients)
  | accept c he _ _ =>
      refine ⟨Nat.lt_succ_of_lt h.past, fun d hd hde => ?_, h.since⟩
      rcases List.mem_append.mp hd with hd | hd
      · exact h.revoked d hd hde
      · rw [List.mem_singleton] at hd
        rw [hd, he] at hde
        exact absurd hde (Nat.ne_of_gt h.past)
  | burn => exact ⟨Nat.lt_succ_of_lt h.past, h.revoked, h.since⟩
  | remove x => exact ⟨h.past, fun c hc => h.revoked c (List.mem_of_mem_filter hc), h.since⟩
  | recount f hf => exact h.map rfl rfl rfl fun c => ⟨(hf c).epoch, (hf c).revoked.trans⟩
  | revoke which =>
      refine h.map rfl rfl rfl fun c => ?_
      split
      · exact ⟨rfl, fun _ => rfl⟩
      · exact ⟨rfl, id⟩
  | bind x sn f hb =>
      refine h.map rfl rfl rfl fun c => ?_
      split
      · exact ⟨(hb c).epoch, (hb c).revoked.trans⟩
      · exact ⟨rfl, id⟩
  | forward f hc hr _ =>
      obtain ⟨later, hlater, hne⟩ := h.since
      refine ⟨h.past, h.revoked, later ++ [f], ?_, fun g hg => ?_⟩
      · change r.forwarded ++ [f] = _
        rw [hlater, List.append_assoc]
      · rcases List.mem_append.mp hg with hg | hg
        · exact hne g hg
        · rw [List.mem_singleton] at hg
          subst hg
          intro he
          rw [h.revoked _ hc he] at hr
          exact absurd hr (by simp)

theorem run_fenced {w : World} (h : Initial w) (events : List Event) :
    Fenced (registry (run w events)) := by
  have hpath := run_moves (initial_sane h) events (along_of_forall permits_anything events w)
  have hkept := kept_along (p := fun r => Sane r ∧ Fenced r)
    (fun a b hm hi => ⟨Sane.move a b hm hi.1, Fenced.move a b hm hi.1 hi.2⟩) hpath
  refine (hkept ⟨initial_sane h, ⟨?_, ?_⟩⟩).2
  · simp [registry, h.clients]
  · simp [registry, h.forwarded]

/-- Camera fencing over every run: what is forwarded for a device with a live
camera session comes from a connection of that session's own epoch range and
generation, no revoked connection is among the senders, and a connection that
is found revoked sends nothing from then on. -/
theorem camera_fencing {w : World} (h : Initial w) (events later : List Event) :
    (∀ f ∈ (run w events).forwarded, f.client.cameraRouteRevoked = false ∧
      ∀ s ∈ f.sessions, live s = true → s.cameraSource = true → s.sn = f.client.sn →
        s.minimumCameraConnectionEpoch ≤ f.client.epoch ∧ f.client.cameraRouteGeneration = s.routeGeneration) ∧
    ∀ c ∈ (run w events).clients, c.cameraRouteRevoked = true →
      ∃ sent, (run w (events ++ later)).forwarded = (run w events).forwarded ++ sent ∧
        (∀ f ∈ sent, f.client.epoch ≠ c.epoch) ∧
        ∀ d ∈ (run w (events ++ later)).clients, d.epoch = c.epoch → d.cameraRouteRevoked = true := by
  have hfenced := run_fenced h events
  have hdoors := (run_sane h events).doors
  constructor
  · intro f hf
    exact ⟨(hfenced.log f hf).current, (hfenced.log f hf).camera⟩
  · intro c hc hr
    have hpath : Path anything (registry (run w events)) (registry (run w (events ++ later))) := by
      rw [run_then]
      exact run_moves (run_sane h events) later (along_of_forall permits_anything later _)
    have hstart : Silenced c.epoch (run w events).forwarded (registry (run w events)) := by
      refine ⟨hdoors.bound c hc, fun d hd he => ?_, [], by simp [registry], by simp⟩
      have hdc : d = c := List.inj_on_of_nodup_map hdoors.nodup hd hc he
      rw [hdc]
      exact hr
    have hend := kept_along Silenced.move hpath hstart
    obtain ⟨sent, hsent, hne⟩ := hend.since
    exact ⟨sent, hsent, hne, hend.revoked⟩

def cameraTrack : Track := ⟨bytes "h264", 96, 0, bytes "baseline", bytes "42e033"⟩

def uuid (tail : String) : CString := bytes ("00000000-0000-0000-0000-00000000000" ++ tail)

def cameraRequest : MediaStart where
  contractVersion := 3
  sessionId := uuid "1"
  operationId := uuid "2"
  leaseId := uuid "3"
  sn := bytes "door"
  streamInstanceId := uuid "4"
  leaseExpiresAt := 1600
  descriptor := ⟨[], uuid "5", bytes "camera", none, cameraTrack⟩
  pin := some (bytes "1234")

def cameraEnv : Env where
  time _ := 1000
  monotonic tick := some ⟨tick, 0⟩
  realtime _ := some ⟨1000, 0⟩
  bootId := some (uuid "b")
  janusInfo tick := if tick = 3 then some {} else some {
    found := true, videoport := 6010, videortcpport := 6011, payloadType := 96, pin := bytes "1234", codec := bytes "h264",
    fmtp := bytes "profile-level-id=42e033;packetization-mode=1" }
  janusCreated _ := true
  janusDestroyed _ := true
  janusList _ := some []
  random _ := none
  socketReady _ := true
  requestDump _ := []

def cameraWorld : World := { env := cameraEnv }

def cameraEvents : List Event :=
  [.probe { dependenciesReady := true, v3H264Profiles := 1 }, .start false ⟨cameraRequest, by decide⟩, .accept,
    .readable 1 [.data (bytes "L4RT" ++ [1, 0, 0, 4] ++ bytes "door" ++ [1, 0, 0, 2, 7, 7])]]

theorem camera_fencing_door :
    Initial cameraWorld ∧ ∃ f ∈ (run cameraWorld cameraEvents).forwarded, ∃ s ∈ f.sessions,
      live s = true ∧ s.cameraSource = true ∧ s.sn = f.client.sn ∧
      s.minimumCameraConnectionEpoch ≤ f.client.epoch ∧ f.client.cameraRouteGeneration = s.routeGeneration := by
  have hinit : Initial cameraWorld := ⟨rfl, rfl, rfl, rfl, by simp [cameraWorld]⟩
  have hsent : ∃ f ∈ (run cameraWorld cameraEvents).forwarded, ∃ s ∈ f.sessions,
      live s = true ∧ s.cameraSource = true ∧ s.sn = f.client.sn := by decide +kernel
  obtain ⟨f, hf, s, hs, hl, hcam, hsn⟩ := hsent
  exact ⟨hinit, f, hf, s, hs, hl, hcam, hsn, ((camera_fencing hinit cameraEvents []).1 f hf).2 s hs hl hcam hsn⟩

end EtranProcessing.Ingress.CameraFence
