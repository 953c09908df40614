import EtranProcessing.Ingress.Teardown

namespace EtranProcessing.Ingress.KeyframeArmed

open Library.Tables Library.Runs
open State Clock Feedback Routes Stores Lifecycle MediaV2 Framing Control EventLoop Moves Settling
open LegacyPaths ModernPaths ConnectionPaths Refinement Teardown

def Owned (w : World) (sn : CString) : Prop :=
  ∃ i, live (session w i) = true ∧ modern (session w i) = true ∧ (session w i).sn = sn

def Publishes (c : IngressClient) : Prop := c.state = .framing ∧ c.cameraRouteRevoked = false

def Armed (w : World) : Prop :=
  ∀ c ∈ w.clients, Publishes c → Owned w c.sn → c.keyframeFeedbackIntervalMs = 500

/-- A record that is neither live nor STOPPED, of a device that has a live
session of contract 2 or 3. -/
def Exposed (w : World) (k : Nat) : Prop :=
  live (session w k) = false ∧ (session w k).state ≠ .stopped ∧ Owned w (session w k).sn

def Spared (w : World) (id : CString) : Prop := ∀ k, findSessionById w id = some k → ¬ Exposed w k

def Covered (w : World) : Prop := ∀ i, live (session w i) = true → Spared w (session w i).sessionId

section Calm

/-- Records keep their identity, and a record that ends is STOPPED. -/
structure Wanes (w w' : World) : Prop where
  identity : ∀ i, SameIdentity (session w i) (session w' i)
  live : ∀ i, live (session w' i) = true → live (session w i) = true
  rest : ∀ i, State.live (session w' i) = false → (session w' i).state ≠ .stopped → session w' i = session w i
  found : ∀ id, findSessionById w' id = findSessionById w id

theorem Wanes.trans {u v w : World} (h : Wanes u v) (h' : Wanes v w) : Wanes u w where
  identity i := (h.identity i).trans (h'.identity i)
  live i hl := h.live i (h'.live i hl)
  rest i hl hs := by
    have he := h'.rest i hl hs
    rw [he] at hl hs ⊢
    exact h.rest i hl hs
  found id := (h'.found id).trans (h.found id)

variable {w w' : World} {f : IngressClient → IngressClient}

theorem Settles.wanes (h : Settles w w') : Wanes w w' where
  identity := h.identity
  live i hl := by
    rw [← h.live i hl]
    exact hl
  rest i _ hs := by
    rcases h.slot i with he | he
    · exact he
    · exact absurd he.1 hs
  found := h.findSessionById

theorem touch_wanes (w : World) {i : Nat} {t : MediaSession} (hi : i < w.sessions.length)
    (hs : live (session w i) = true) (ht : live t = true) (hid : SameIdentity (session w i) t) :
    Wanes w (setSession w i t) := by
  have hslots := session_setSession w i t hi
  have hidentity : ∀ j, SameIdentity (session w j) (session (setSession w i t) j) := by
    intro j
    rw [hslots]
    by_cases hj : j = i
    · rw [hj, Function.update_self]
      exact hid
    · rw [Function.update_of_ne hj]
      exact .refl _
  refine ⟨hidentity, ?_, ?_, ?_⟩
  · intro j hl
    by_cases hj : j = i
    · rw [hj]
      exact hs
    · rwa [hslots, Function.update_of_ne hj] at hl
  · intro j hl _
    by_cases hj : j = i
    · rw [hj, hslots, Function.update_self, ht] at hl
      cases hl
    · rw [hslots, Function.update_of_ne hj]
  · intro id
    have hlen : (setSession w i t).sessions.length = w.sessions.length := List.length_set
    simp only [findSessionById]
    rw [findIdx?_of_key (fun s : MediaSession => s.sessionId) (fun x => x == id) {} hlen fun j =>
      (hidentity j).sessionId]

theorem Wanes.of_sessions (h : w'.sessions = w.sessions) : Wanes w w' := by
  have hs : session w' = session w := by
    funext i
    simp only [session, h]
  refine ⟨fun i => hs ▸ .refl _, fun i hl => hs ▸ hl, fun i _ _ => by rw [hs], fun id => ?_⟩
  simp only [findSessionById, h]

theorem Wanes.owned (h : Wanes w w') {sn : CString} (ho : Owned w' sn) : Owned w sn := by
  obtain ⟨i, hl, hm, hsn⟩ := ho
  exact ⟨i, h.live i hl, (h.identity i).modern_eq ▸ hm, (h.identity i).sn ▸ hsn⟩

theorem Wanes.spared (h : Wanes w w') {id : CString} (hs : Spared w id) : Spared w' id := by
  intro k hk ⟨hl, hstate, ho⟩
  rw [h.found] at hk
  have he := h.rest k hl hstate
  rw [he] at hl hstate ho
  exact hs k hk ⟨hl, hstate, h.owned ho⟩

theorem Wanes.covered (h : Wanes w w') (hc : Covered w) : Covered w' := by
  intro i hl
  rw [(h.identity i).sessionId]
  exact h.spared (hc i (h.live i hl))

def Kept (w w' : World) : Prop :=
  ∀ d ∈ w'.clients, Publishes d → Owned w' d.sn →
    ∃ c ∈ w.clients, Publishes c ∧ c.sn = d.sn ∧ d.keyframeFeedbackIntervalMs = c.keyframeFeedbackIntervalMs

structure Calm (w w' : World) : Prop where
  wanes : Wanes w w'
  kept : Kept w w'

structure Ready (w : World) : Prop where
  sane : Sane (registry w)
  covered : Covered w

theorem Calm.trans {u v w : World} (h : Calm u v) (h' : Calm v w) : Calm u w where
  wanes := h.wanes.trans h'.wanes
  kept d hd hp ho := by
    obtain ⟨c, hc, hpc, hsn, hinterval⟩ := h'.kept d hd hp ho
    obtain ⟨b, hb, hpb, hsn', hinterval'⟩ := h.kept c hc hpc (hsn ▸ h'.wanes.owned ho)
    exact ⟨b, hb, hpb, hsn'.trans hsn, hinterval.trans hinterval'⟩

theorem Calm.of_quiet (h : Quiet w w') : Calm w w' where
  wanes := Settles.wanes h.settles
  kept d hd hp _ := ⟨d, h.clients ▸ hd, hp, rfl, rfl⟩

theorem Calm.refl (w : World) : Calm w w := .of_quiet (.refl w)

theorem Calm.ready (h : Calm w w') (hpath : Path anything (registry w) (registry w')) (hr : Ready w) :
    Ready w' :=
  ⟨hpath.sane hr.sane, h.wanes.covered hr.covered⟩

theorem Kept.armed (h : Kept w w') (howned : ∀ sn, Owned w' sn → Owned w sn) (ha : Armed w) :
    Armed w' := by
  intro d hd hp ho
  obtain ⟨c, hc, hpc, hsn, hinterval⟩ := h d hd hp ho
  rw [hinterval]
  exact ha c hc hpc (hsn ▸ howned _ ho)

theorem Calm.armed (h : Calm w w') (ha : Armed w) : Armed w' := h.kept.armed (fun _ => h.wanes.owned) ha

/-- The connection is the same, under the same interval, and at most more revoked. -/
structure Steady (c d : IngressClient) : Prop where
  state : d.state = c.state
  sn : d.sn = c.sn
  revoked : d.cameraRouteRevoked = false → c.cameraRouteRevoked = false
  interval : d.keyframeFeedbackIntervalMs = c.keyframeFeedbackIntervalMs

theorem Steady.refl (c : IngressClient) : Steady c c := ⟨rfl, rfl, id, rfl⟩

theorem Steady.trans {c d e : IngressClient} (h : Steady c d) (h' : Steady d e) : Steady c e :=
  ⟨h'.state.trans h.state, h'.sn.trans h.sn, fun hr => h.revoked (h'.revoked hr), h'.interval.trans h.interval⟩

theorem kept_map (hclients : w'.clients = w.clients.map f)
    (hf : ∀ c, Owned w' (f c).sn → Steady c (f c)) : Kept w w' := by
  intro d hd hp ho
  rw [hclients] at hd
  obtain ⟨c, hc, rfl⟩ := List.mem_map.mp hd
  have hs := hf c ho
  exact ⟨c, hc, ⟨hs.state ▸ hp.1, hs.revoked hp.2⟩, hs.sn.symm, hs.interval⟩

theorem updateClient_kept (w : World) (e : Nat) (hf : ∀ c, Steady c (f c)) :
    Kept w (updateClient w e f) := by
  apply kept_map (f := fun c => if c.epoch = e then f c else c) rfl
  intro c _
  split
  · exact hf c
  · exact .refl c

theorem updateClient_calm (w : World) (e : Nat) (hf : ∀ c, Steady c (f c)) :
    Calm w (updateClient w e f) where
  wanes := .of_sessions rfl
  kept := updateClient_kept w e hf

theorem revokeClient_calm (w : World) (e : Nat) : Calm w (revokeClient w e) where
  wanes := .of_sessions rfl
  kept := updateClient_kept w e fun c => ⟨rfl, rfl, fun hr => absurd hr (by simp), rfl⟩

theorem removeIngressClient_calm (w : World) (e : Nat) : Calm w (removeIngressClient w e) where
  wanes := .of_sessions rfl
  kept d hd hp _ := ⟨d, List.mem_of_mem_filter hd, hp, rfl, rfl⟩

end Calm

section Stops

theorem owner_unique {w : World} (hs : Sane (registry w)) {i j : Nat} (hi : live (session w i) = true)
    (hj : live (session w j) = true) (hm : modern (session w j) = true) (hsn : (session w i).sn = (session w j).sn) :
    i = j := by
  by_contra hij
  have hid := (hs.pair hij).device hi hj hsn
  have hnamed := ((hs.record i).sessionId (live_not_empty hi)).1
  have hlegacy := ((hs.pair hij).id hid hnamed).2
  change modern (session w j) = false at hlegacy
  rw [hm] at hlegacy
  cases hlegacy

theorem retarget_kept {w w' : World} {sn : CString} {rtp rtcp : Int}
    (hclients : w'.clients = retarget sn rtp rtcp w.clients) (hfree : ¬ Owned w' sn) : Kept w w' := by
  apply kept_map hclients
  intro c ho
  split
  next hsn =>
    rw [if_pos hsn, updateTargets_sn, hsn] at ho
    exact absurd ho hfree
  · exact .refl c

theorem dropTargets_kept {w w' : World} {sn : CString} (hclients : w'.clients = dropTargets (registry w) sn)
    (hfree : ¬ Owned w' sn) : Kept w w' := by
  simp only [dropTargets] at hclients
  split at hclients
  · exact retarget_kept hclients hfree
  · intro d hd hp _
    rw [hclients] at hd
    exact ⟨d, hd, hp, rfl, rfl⟩

def Harmless (w : World) (id : CString) : Prop :=
  ∀ k, findSessionById w id = some k → (session w k).state ≠ .stopped → ∀ j, j ≠ k → live (session w j) = true →
    modern (session w j) = true → (session w j).sn ≠ (session w k).sn

theorem Spared.harmless {w : World} {id : CString} (h : Spared w id) (hs : Sane (registry w)) : Harmless w id := by
  intro k hfind hstate j hjk hl hm hsn
  by_cases hlive : live (session w k) = true
  · exact hjk (owner_unique hs hlive hl hm hsn.symm).symm
  · exact h k hfind ⟨by simpa using hlive, hstate, j, hl, hm, hsn⟩

theorem stopMediaSession_kept (w : World) (id reason : CString) (h : Harmless w id) :
    Kept w (stopMediaSession w id reason).2 := by
  simp only [stopMediaSession]
  cases hfind : findSessionById w id with
  | none => exact (Calm.refl w).kept
  | some k =>
      dsimp only
      split
      · exact (Calm.refl w).kept
      next hstate =>
        obtain ⟨-, -, hreg⟩ := teardown_spec w k reason (findSessionById_some hfind).1
        have hslots : session (teardown w k reason) = Function.update (session w) k (stoppedRecord w k reason) :=
          congrArg Registry.slots hreg
        apply dropTargets_kept (congrArg Registry.clients hreg)
        rintro ⟨j, hl, hm, hsn⟩
        rw [hslots] at hl hm hsn
        by_cases hjk : j = k
        · rw [hjk, Function.update_self] at hl
          cases hl
        · rw [Function.update_of_ne hjk] at hl hm hsn
          exact h k hfind hstate j hjk hl hm hsn

theorem stopMediaSession_calm (w : World) (id reason : CString) (h : Harmless w id) :
    Calm w (stopMediaSession w id reason).2 where
  wanes := Settles.wanes (stopMediaSession_settles w id reason)
  kept := stopMediaSession_kept w id reason h

theorem expireMediaSession_harmless (w : World) (i : Nat) (t : Int)
    (h : live (session w i) = true → Harmless w (session w i).sessionId) : Calm w (expireMediaSession w i t) := by
  rcases expireMediaSession_spec w i t with ⟨-, hclock⟩ | ⟨⟨hl, -⟩, w₁, hclock, hstop⟩
  · exact .of_quiet (.of_clockOnly hclock)
  · have hq := Quiet.of_clockOnly hclock
    rw [hstop]
    apply (Calm.of_quiet hq).trans
    apply stopMediaSession_calm w₁
    intro k hk
    rw [hq.settles.findSessionById] at hk
    rw [hq.session_eq]
    exact h hl k hk

theorem expireMediaSession_calm (w : World) (i : Nat) (t : Int) (hr : Ready w) : Calm w (expireMediaSession w i t) :=
  expireMediaSession_harmless w i t fun hl => (hr.covered i hl).harmless hr.sane

theorem expireOptional_calm (w : World) (i : Option Nat) (t : Int) (hr : Ready w) : Calm w (expireOptional w i t) := by
  cases i with
  | none => exact .refl w
  | some i => exact expireMediaSession_calm w i t hr

theorem expireAdvanced_calm (w : World) (i : Nat) (hr : Ready w) : Calm w (expireMediaSession (advance w) i (now w)) :=
  (Calm.of_quiet (advance_quiet w)).trans (expireMediaSession_calm (advance w) i _ ⟨hr.sane, hr.covered⟩)

theorem expireOwner_calm (w : World) (sn : CString) (hr : Ready w) : Calm w (expireOwner w sn) := by
  simp only [expireOwner]
  split
  · exact .refl w
  · split
    · exact expireAdvanced_calm w _ hr
    · exact .refl w

end Stops

section Connections

theorem cameraConnectionCurrent_calm (w : World) (c : IngressClient) (hr : Ready w) :
    Calm w (cameraConnectionCurrent w c).2 := by
  simp only [cameraConnectionCurrent]
  split
  · exact .refl w
  · split
    · exact .refl w
    · split
      · exact revokeClient_calm w c.epoch
      · split
        · exact expireOwner_calm w c.sn hr
        · exact (expireOwner_calm w c.sn hr).trans (revokeClient_calm _ c.epoch)

theorem stampRtp_calm (w : World) (e : Nat) : Calm w (stampRtp w e) := by
  have hstamp : Calm w (updateClient (advance w) e fun c => { c with lastRtpTime := now w }) :=
    (Calm.of_quiet (advance_quiet w)).trans (updateClient_calm _ _ fun _ => ⟨rfl, rfl, id, rfl⟩)
  simp only [stampRtp]
  apply hstamp.trans
  split
  · exact .of_quiet (readMonotonic_quiet _)
  · apply (Calm.of_quiet (readMonotonic_quiet _)).trans
    exact updateClient_calm _ _ fun _ => ⟨rfl, rfl, id, rfl⟩

theorem stampActivity_calm (w : World) (e : Nat) : Calm w (stampActivity w e) := by
  have hstamp : Calm w (updateClient (advance w) e fun c => { c with lastActivity := now w }) :=
    (Calm.of_quiet (advance_quiet w)).trans (updateClient_calm _ _ fun _ => ⟨rfl, rfl, id, rfl⟩)
  simp only [stampActivity]
  apply hstamp.trans
  split
  · exact .of_quiet (readMonotonic_quiet _)
  · apply (Calm.of_quiet (readMonotonic_quiet _)).trans
    exact updateClient_calm _ _ fun _ => ⟨rfl, rfl, id, rfl⟩

theorem ensureRtcpSocket_calm (w : World) (c : IngressClient) : Calm w (ensureRtcpSocket w c).2 := by
  simp only [ensureRtcpSocket]
  split
  · exact .refl w
  · split
    · exact .refl w
    · split
      · exact .of_quiet (advance_quiet w)
      · have hq : Quiet w (advance { advance w with nextRtcpGeneration := w.nextRtcpGeneration + 1 }) :=
          by constructor <;> rfl
        split
        · exact (Calm.of_quiet hq).trans (updateClient_calm _ _ fun _ => ⟨rfl, rfl, id, rfl⟩)
        · exact (Calm.of_quiet hq).trans (updateClient_calm _ _ fun _ => ⟨rfl, rfl, id, rfl⟩)

theorem logForward_calm (w : World) (c : IngressClient) (channel : Channel) (payload : List UInt8) :
    Calm w (logForward w c channel payload) where
  wanes := .of_sessions rfl
  kept d hd hp _ := ⟨d, hd, hp, rfl, rfl⟩

theorem touch_calm (w : World) {i : Nat} {t : MediaSession} (hi : i < w.sessions.length)
    (hs : live (session w i) = true) (ht : live t = true) (hid : SameIdentity (session w i) t) :
    Calm w (setSession w i t) where
  wanes := touch_wanes w hi hs ht hid
  kept d hd hp _ := ⟨d, hd, hp, rfl, rfl⟩

theorem activateOwner_calm (w : World) (sn : CString) : Calm w (activateOwner w sn) := by
  simp only [activateOwner]
  cases hown : findActiveSessionForSn w sn with
  | none => exact .refl w
  | some i =>
      obtain ⟨hi, hl, -, -⟩ := findActiveSessionForSn_some hown
      dsimp only
      split
      · apply Calm.trans _ (Calm.of_quiet (mvPersist_quiet _ _))
        exact touch_calm w hi hl rfl (by constructor <;> rfl)
      · exact .refl w

theorem countUnrouted_calm (w : World) (e : Nat) : Calm w (countUnrouted w e) :=
  updateClient_calm w e fun _ => ⟨rfl, rfl, id, rfl⟩

theorem forwardRtp_calm (w : World) (c : IngressClient) (payload : List UInt8) : Calm w (forwardRtp w c payload) := by
  simp only [forwardRtp]
  split
  · apply (logForward_calm w c .rtp payload).trans
    apply Calm.trans _ (activateOwner_calm _ c.sn)
    exact updateClient_calm _ _ fun _ => ⟨rfl, rfl, id, rfl⟩
  · exact countUnrouted_calm w c.epoch

theorem forwardRtcp_calm (w : World) (c : IngressClient) (payload : List UInt8) : Calm w (forwardRtcp w c payload) := by
  simp only [forwardRtcp]
  split
  · refine Calm.trans ?_ (updateClient_calm _ _ ?_)
    · split
      · exact (ensureRtcpSocket_calm w c).trans (logForward_calm _ c .rtcp payload)
      · exact ensureRtcpSocket_calm w c
    · exact fun _ => ⟨rfl, rfl, id, rfl⟩
  · exact countUnrouted_calm w c.epoch

theorem withClient_calm (w : World) (e : Nat) {f : IngressClient → World} (hf : ∀ c, Calm w (f c)) :
    Calm w (withClient w e f) := by
  simp only [withClient]
  split
  · exact .refl w
  · exact hf _

theorem dispatchFrame_calm (w : World) (e : Nat) (type : UInt8) (payload : List UInt8) :
    Calm w (dispatchFrame w e type payload) := by
  have hq : Quiet w { w with dispatched := w.dispatched ++ [⟨e, type, payload⟩] } := by constructor <;> rfl
  simp only [dispatchFrame]
  apply (Calm.of_quiet hq).trans
  split
  · apply (stampRtp_calm _ e).trans
    exact withClient_calm _ e fun c => forwardRtp_calm _ c payload
  · split
    · apply (Calm.of_quiet (advance_quiet _)).trans
      refine Calm.trans (updateClient_calm _ e ?_) (withClient_calm _ e fun c => forwardRtcp_calm _ c payload)
      exact fun _ => ⟨rfl, rfl, id, rfl⟩
    · split
      · exact updateClient_calm _ e fun _ => ⟨rfl, rfl, id, rfl⟩
      · exact .refl _

theorem handleFrame_calm (w : World) (e : Nat) (type : UInt8) (payload : List UInt8) (hr : Ready w) :
    Calm w (handleFrame w e type payload).2 := by
  simp only [handleFrame]
  split
  · exact .refl w
  next c _ =>
    have hcalm := cameraConnectionCurrent_calm w c hr
    have hpath := cameraConnectionCurrent_path (p := anything) w c
    generalize cameraConnectionCurrent w c = answer at hcalm hpath ⊢
    obtain ⟨current, w₁⟩ := answer
    cases current with
    | false => exact hcalm.trans (removeIngressClient_calm w₁ e)
    | true => exact hcalm.trans ((expireOwner_calm w₁ c.sn (hcalm.ready hpath hr)).trans (dispatchFrame_calm _ e type payload))

theorem keepBuffer_calm (w : World) (e : Nat) (buf : List UInt8) :
    Calm w (updateClient w e fun c => { c with rxBuf := buf }) :=
  updateClient_calm w e fun _ => ⟨rfl, rfl, id, rfl⟩

theorem frameLoop_calm (e fuel : Nat) (w : World) (buf : List UInt8) (hr : Ready w) :
    Calm w (frameLoop e fuel w buf).2 := by
  induction fuel generalizing w buf with
  | zero => exact keepBuffer_calm w e buf
  | succ fuel ih =>
      simp only [frameLoop]
      split
      · exact keepBuffer_calm w e buf
      · exact removeIngressClient_calm w e
      next type payload rest _ =>
        have hcalm := handleFrame_calm w e type payload hr
        have hpath := handleFrame_path (p := anything) w e type payload
        generalize handleFrame w e type payload = answer at hcalm hpath ⊢
        obtain ⟨more, w₁⟩ := answer
        cases more with
        | false => exact hcalm
        | true => exact hcalm.trans (ih w₁ rest (hcalm.ready hpath hr))

theorem closeDuplicate_calm (w : World) (e : Nat) (sn : CString) : Calm w (closeDuplicate w e sn) := by
  simp only [closeDuplicate]
  split
  · exact .refl w
  · exact removeIngressClient_calm w _

theorem bindClient_interval {w : World} (hs : Sane (registry w)) {sn : CString} (ho : Owned w sn) (c : IngressClient) :
    (bindClient w sn c).keyframeFeedbackIntervalMs = 500 := by
  obtain ⟨j, hl, hm, rfl⟩ := ho
  have hnamed := ((hs.record j).sn (live_not_empty hl)).1
  cases hfind : findActiveSessionForSn w (session w j).sn with
  | none => exact absurd rfl (findActiveSessionForSn_none hnamed hfind j hl)
  | some i =>
      obtain ⟨-, hli, hsn, -⟩ := findActiveSessionForSn_some hfind
      have hij := owner_unique hs hli hl hm hsn
      simp [bindClient, hfind, hij, hm]

theorem bind_armed {w : World} (hs : Sane (registry w)) (ha : Armed w) (e : Nat) (sn : CString) :
    Armed (updateClient w e (bindClient w sn)) := by
  intro d hd hp ho
  obtain ⟨c, hc, rfl⟩ := List.mem_map.mp hd
  have howned : ∀ sn', Owned (updateClient w e (bindClient w sn)) sn' → Owned w sn' := fun _ h => h
  split at hp
  next he =>
    rw [if_pos he] at ho ⊢
    exact bindClient_interval hs (howned _ ho) c
  next he =>
    rw [if_neg he] at ho ⊢
    exact ha c hc hp (howned _ ho)

structure Good (w : World) : Prop extends Ready w where
  armed : Armed w

theorem Calm.good {w w' : World} (h : Calm w w') (hpath : Path anything (registry w) (registry w')) (hg : Good w) :
    Good w' :=
  ⟨h.ready hpath hg.toReady, h.armed hg.armed⟩

theorem completePreamble_good (w : World) (e : Nat) (snBytes : List UInt8) (hg : Good w) :
    Good (completePreamble w e snBytes).2 := by
  have hpath := completePreamble_path (p := anything) trivial w e snBytes hg.sane
  refine ⟨⟨hpath.sane hg.sane, ?_⟩, ?_⟩ <;> simp only [completePreamble]
  · split
    · exact (removeIngressClient_calm w e).wanes.covered hg.covered
    · exact (Wanes.of_sessions rfl).covered ((closeDuplicate_calm w e (untilNul snBytes)).wanes.covered hg.covered)
  · split
    · exact (removeIngressClient_calm w e).armed hg.armed
    · apply bind_armed
      · exact (closeDuplicate_path (p := anything) w e (untilNul snBytes)).sane hg.sane
      · exact (closeDuplicate_calm w e (untilNul snBytes)).armed hg.armed

theorem parseBuffer_good (w : World) (c : IngressClient) (buf : List UInt8) (hg : Good w) :
    Good (parseBuffer w c buf).2 := by
  have hloop : ∀ (w : World) (n : Nat) (buf : List UInt8), Good w → Good (frameLoop c.epoch n w buf).2 :=
    fun w n buf hg => (frameLoop_calm c.epoch n w buf hg.toReady).good (frameLoop_path c.epoch n w buf) hg
  simp only [parseBuffer]
  split
  · exact hloop w _ buf hg
  · split
    · exact (keepBuffer_calm w c.epoch buf).good (keepBuffer_path w c.epoch buf) hg
    · exact (removeIngressClient_calm w c.epoch).good (removeIngressClient_path w c.epoch) hg
    next sn rest _ =>
      have hbound := completePreamble_good w c.epoch sn hg
      generalize completePreamble w c.epoch sn = answer at hbound ⊢
      obtain ⟨more, w₁⟩ := answer
      cases more with
      | false => exact hbound
      | true => exact hloop w₁ _ rest hbound

theorem recvStep_good (w : World) (e : Nat) (r : Recv) (hg : Good w) : Good (recvStep w e r).2 := by
  have hremove := (removeIngressClient_calm w e).good (removeIngressClient_path w e) hg
  simp only [recvStep]
  split
  · exact hg
  · split
    · exact hremove
    · split
      · exact hg
      · exact hremove
      · exact hremove
      · split
        · exact hremove
        · exact parseBuffer_good _ _ _ ((stampActivity_calm w e).good (stampActivity_recounts w e).path hg)

theorem recvLoop_good (e : Nat) (recvs : List Recv) (w : World) (hg : Good w) : Good (recvLoop e recvs w) := by
  induction recvs generalizing w with
  | nil => exact hg
  | cons r rest ih =>
      simp only [recvLoop]
      have hstep := recvStep_good w e r hg
      generalize recvStep w e r = answer at hstep ⊢
      obtain ⟨more, w₁⟩ := answer
      cases more with
      | false => exact hstep
      | true => exact ih w₁ hstep

theorem ifCurrent_good (w : World) (e : Nat) {f : World → World} (hf : ∀ w, Good w → Good (f w)) (hg : Good w) :
    Good (ifCurrent w e f) := by
  simp only [ifCurrent]
  split
  · exact hg
  next c _ =>
    have hcurrent := (cameraConnectionCurrent_calm w c hg.toReady).good (cameraConnectionCurrent_path w c) hg
    generalize cameraConnectionCurrent w c = answer at hcurrent ⊢
    obtain ⟨current, w₁⟩ := answer
    cases current with
    | false => exact (removeIngressClient_calm w₁ e).good (removeIngressClient_path w₁ e) hcurrent
    | true => exact hf w₁ hcurrent

theorem startFrame_steady (c : IngressClient) : Steady c (startFrame c) := by
  simp only [startFrame]
  split
  · exact ⟨rfl, rfl, id, rfl⟩
  · exact .refl c

theorem flushLoop_steady (sends : List SendOutcome) (c : IngressClient) : Steady c (flushLoop sends c).2 := by
  induction sends generalizing c with
  | nil =>
      simp only [flushLoop]
      split
      · exact startFrame_steady c
      · exact .refl c
  | cons outcome rest ih =>
      have hstart := startFrame_steady c
      simp only [flushLoop]
      split
      · cases outcome with
        | wouldBlock => exact hstart
        | interrupted => exact hstart.trans (ih _)
        | failed => exact hstart
        | wrote n =>
            dsimp only
            split
            · exact hstart
            · apply hstart.trans
              apply Steady.trans _ (ih _)
              exact ⟨rfl, rfl, id, rfl⟩
      · exact .refl c

theorem flushQueue_steady (sends : List SendOutcome) (c : IngressClient) : Steady c (flushQueue c sends).2 := by
  have h := flushLoop_steady sends c
  simp only [flushQueue]
  generalize flushLoop sends c = answer at h ⊢
  obtain ⟨ok, d⟩ := answer
  cases ok with
  | false => exact h
  | true =>
      dsimp only
      split
      · exact h.trans ⟨rfl, rfl, id, rfl⟩
      · exact h

theorem coalesceLoop_steady (fuel : Nat) (c : IngressClient) (rest : List UInt8) (nowMs : Nat) :
    Steady c (coalesceLoop fuel c rest nowMs).1 := by
  induction fuel generalizing c rest with
  | zero => exact .refl c
  | succ fuel ih =>
      simp only [coalesceLoop]
      split
      · exact .refl c
      · split
        · apply Steady.trans _ (ih _ _)
          exact ⟨rfl, rfl, id, rfl⟩
        · apply Steady.trans _ (ih _ _)
          split
          · exact ⟨rfl, rfl, id, rfl⟩
          · exact .refl c

theorem queueDatagram_steady (c : IngressClient) (data : List UInt8) (nowMs : Nat) :
    Steady c (queueDatagram c data nowMs) := by
  have h : Steady c (coalesceFeedback c data nowMs).1 := by
    simp only [coalesceFeedback]
    split
    · exact .refl c
    · exact coalesceLoop_steady _ _ _ _
  simp only [queueDatagram]
  split
  · exact .refl c
  · split
    · exact ⟨rfl, rfl, id, rfl⟩
    · split
      · exact h
      · exact h.trans ⟨rfl, rfl, id, rfl⟩

theorem queueBatch_steady (limit : Nat) (c : IngressClient) (reads : List RecvOutcome) :
    Steady c (queueBatch limit c reads) := by
  fun_induction queueBatch limit c reads with
  | case1 | case2 | case6 => exact .refl _
  | case3 limit c data nowMs rest ih => exact (queueDatagram_steady c data nowMs).trans ih
  | case4 limit c rest ih => exact ih
  | case5 limit c rest ih => exact ih

theorem flushFeedback_good (w : World) (e : Nat) (sends : List SendOutcome) (hg : Good w) :
    Good (flushFeedback w e sends) := by
  apply ifCurrent_good w e _ hg
  intro w hg
  have hflush := (updateClient_calm w e (flushQueue_steady sends)).good
    (updateClient_path w e _ (flushQueue_binding sends)) hg
  simp only [withClient]
  split
  · exact hg
  · split
    · exact hflush
    · exact (removeIngressClient_calm _ e).good (removeIngressClient_path _ e) hflush

theorem receiveFeedback_good (w : World) (e : Nat) (reads : List RecvOutcome) (sends : List SendOutcome) (hg : Good w) :
    Good (receiveFeedback w e reads sends) := by
  apply ifCurrent_good w e _ hg
  intro w hg
  apply flushFeedback_good
  apply (updateClient_calm w e fun c => queueBatch_steady feedbackBatchLimit c reads).good _ hg
  exact updateClient_path w e _ fun c => queueBatch_binding feedbackBatchLimit c reads

theorem sweepClient_good (wall : Int) (w : World) (e : Nat) (hg : Good w) : Good (sweepClient wall w e) := by
  apply ifCurrent_good w e _ hg
  intro w hg
  simp only [withClient]
  split
  · exact hg
  next c _ =>
    have hq := ingressClientIdle_quiet w c wall
    have hidle := (Calm.of_quiet hq).good hq.path hg
    generalize ingressClientIdle w c wall = answer at hidle ⊢
    obtain ⟨idle, w₁⟩ := answer
    cases idle with
    | false => exact hidle
    | true => exact (removeIngressClient_calm w₁ e).good (removeIngressClient_path w₁ e) hidle

theorem idleSweep_good (w : World) (wall : Int) (hg : Good w) : Good (idleSweep w wall) :=
  List.foldlRecOn _ _ hg fun w hg e _ => sweepClient_good wall w e hg

theorem expirySweep_good (w : World) (t : Int) (hg : Good w) : Good (expirySweep w t) := by
  refine List.foldlRecOn _ _ hg fun w hg i _ => ?_
  exact (expireMediaSession_calm w i t hg.toReady).good (expireMediaSession_path w i t) hg

theorem addIngressClient_armed (w : World) (ha : Armed w) : Armed (addIngressClient w) := by
  simp only [addIngressClient]
  split
  · exact ha
  · have hq := readMonotonic_quiet { advance w with nextEpoch := w.nextEpoch + 1 }
    generalize readMonotonic { advance w with nextEpoch := w.nextEpoch + 1 } = w₁ at hq ⊢
    have hsame : Armed w₁ := by
      apply (Calm.of_quiet hq).armed
      exact ha
    split
    · intro d hd hp ho
      rcases List.mem_append.mp hd with hold | hnew
      · exact hsame d hold hp ho
      · rw [List.mem_singleton] at hnew
        rw [hnew] at hp
        cases hp.1
    · exact hsame

end Connections

end EtranProcessing.Ingress.KeyframeArmed
