import EtranProcessing.Ingress.Teardown

namespace EtranProcessing.Ingress.Carriage

open Library.Tables
open State Clock Routes Stores Lifecycle Framing Moves Settling ConnectionPaths Teardown

def Advanced (s t : MediaSession) : Prop := t = s ∨ s.state = .starting ∧ t = { s with state := .active }

theorem Advanced.trans {s t u : MediaSession} (h : Advanced s t) (h' : Advanced t u) : Advanced s u := by
  rcases h with rfl | ⟨hs, rfl⟩
  · exact h'
  · rcases h' with rfl | ⟨hs', _⟩
    · exact .inr ⟨hs, rfl⟩
    · exact absurd hs' (by simp)

variable {w w' : World} {s t : MediaSession}

theorem Advanced.live_eq (h : Advanced s t) : live t = live s := by
  rcases h with rfl | ⟨hs, rfl⟩
  · rfl
  · simp [live, hs]

theorem Advanced.stopped_iff (h : Advanced s t) : t.state = .stopped ↔ s.state = .stopped := by
  rcases h with rfl | ⟨hs, rfl⟩
  · rfl
  · simp [hs]

theorem Advanced.identity (h : Advanced s t) : SameIdentity s t := by
  rcases h with rfl | ⟨_, rfl⟩
  · exact .refl _
  · constructor <;> rfl

structure Steady (w w' : World) : Prop where
  length : w'.sessions.length = w.sessions.length
  slot : ∀ i, Advanced (session w i) (session w' i)

theorem Steady.of_sessions (h : w'.sessions = w.sessions) : Steady w w' :=
  ⟨by rw [h], fun i => .inl (by simp only [session, h])⟩

theorem Steady.trans {u v w : World} (h : Steady u v) (h' : Steady v w) : Steady u w :=
  ⟨h'.length.trans h.length, fun i => (h.slot i).trans (h'.slot i)⟩

theorem Steady.owner (h : Steady w w') (sn : CString) :
    findActiveSessionForSn w' sn = findActiveSessionForSn w sn := by
  simp only [findActiveSessionForSn]
  rw [findIdx?_of_key (fun s : MediaSession => (live s, s.sn)) (fun k => k.1 && k.2 == sn) {} h.length fun i => ?_]
  simp only [Prod.mk.injEq]
  exact ⟨(h.slot i).live_eq, (h.slot i).identity.sn⟩

def Ends (w w' : World) : Prop := ∀ i, (session w i).state = .stopped → (session w' i).state = .stopped

theorem Ends.refl (w : World) : Ends w w := fun _ h => h

theorem Ends.trans {u v w : World} (h : Ends u v) (h' : Ends v w) : Ends u w := fun i hi => h' i (h i hi)

theorem Steady.ends (h : Steady w w') : Ends w w' := fun i hi => (h.slot i).stopped_iff.mpr hi

theorem ends_of_sessions (h : w'.sessions = w.sessions) : Ends w w' := (Steady.of_sessions h).ends

theorem ends_of_settles (h : Settles w w') : Ends w w' := by
  intro i hi
  rcases h.slot i with he | he
  · rw [he]
    exact hi
  · exact he.1

def Unexpired (w w' : World) : Prop := Ends w' w

structure Stamped (c d : IngressClient) : Prop extends SameBinding c d where
  rxBuf : d.rxBuf = c.rxBuf

theorem Stamped.refl (c : IngressClient) : Stamped c c := ⟨.refl c, rfl⟩

structure Carries (w w' : World) : Prop where
  steady : Steady w w'
  dispatched : w'.dispatched = w.dispatched
  clients : ∃ f, w'.clients = w.clients.map f ∧ ∀ c, Stamped c (f c)

theorem Carries.of_clients (hs : w'.sessions = w.sessions) (hd : w'.dispatched = w.dispatched)
    (hc : w'.clients = w.clients) : Carries w w' :=
  ⟨.of_sessions hs, hd, id, by simp [hc], .refl⟩

theorem Carries.refl (w : World) : Carries w w := .of_clients rfl rfl rfl

theorem Carries.trans {u v w : World} (h : Carries u v) (h' : Carries v w) : Carries u w := by
  obtain ⟨f, hf, hb⟩ := h.clients
  obtain ⟨g, hg, hb'⟩ := h'.clients
  refine ⟨h.steady.trans h'.steady, h'.dispatched.trans h.dispatched, g ∘ f, by rw [hg, hf, List.map_map], fun c => ?_⟩
  exact ⟨(hb c).toSameBinding.trans (hb' (f c)).toSameBinding, (hb' (f c)).rxBuf.trans (hb c).rxBuf⟩

theorem Carries.of_clock (h : ClockOnly w w') : Carries w w' := by
  obtain ⟨_, _, _, rfl⟩ := h
  exact .of_clients rfl rfl rfl

theorem Carries.of_stored (h : Stored w w') : Carries w w' := by
  obtain ⟨_, rfl⟩ := h
  exact .of_clients rfl rfl rfl

theorem updateClient_carries (w : World) (e : Nat) {f : IngressClient → IngressClient}
    (hf : ∀ c, Stamped c (f c)) : Carries w (updateClient w e f) := by
  refine ⟨.of_sessions rfl, rfl, fun c => if c.epoch = e then f c else c, rfl, fun c => ?_⟩
  by_cases h : c.epoch = e
  · simpa [h] using hf c
  · simpa [h] using Stamped.refl c

theorem stampRtp_carries (w : World) (e : Nat) : Carries w (stampRtp w e) := by
  have hclock := readMonotonic_clockOnly (updateClient (advance w) e fun c => { c with lastRtpTime := now w })
  have h₁ : Carries w (updateClient (advance w) e fun c => { c with lastRtpTime := now w }) :=
    (Carries.of_clock (advance_clockOnly w)).trans (updateClient_carries _ _ fun c => ⟨by constructor <;> rfl, rfl⟩)
  simp only [stampRtp]
  split
  · exact h₁.trans (.of_clock hclock)
  · refine (h₁.trans (.of_clock hclock)).trans (updateClient_carries _ _ fun c => ?_)
    exact ⟨by constructor <;> rfl, rfl⟩

theorem stampActivity_carries (w : World) (e : Nat) : Carries w (stampActivity w e) := by
  have hclock := readMonotonic_clockOnly (updateClient (advance w) e fun c => { c with lastActivity := now w })
  have h₁ : Carries w (updateClient (advance w) e fun c => { c with lastActivity := now w }) :=
    (Carries.of_clock (advance_clockOnly w)).trans (updateClient_carries _ _ fun c => ⟨by constructor <;> rfl, rfl⟩)
  simp only [stampActivity]
  split
  · exact h₁.trans (.of_clock hclock)
  · refine (h₁.trans (.of_clock hclock)).trans (updateClient_carries _ _ fun c => ?_)
    exact ⟨by constructor <;> rfl, rfl⟩

theorem activateOwner_carries (w : World) (sn : CString) : Carries w (activateOwner w sn) := by
  simp only [activateOwner]
  cases hown : findActiveSessionForSn w sn with
  | none => exact .refl w
  | some i =>
      have hi := (findActiveSessionForSn_some hown).1
      dsimp only
      split
      next hstart =>
        refine Carries.trans ?_ (.of_stored (mvPersist_stored _ _))
        refine ⟨⟨by simp [setSession], fun j => ?_⟩, rfl, id, by simp [setSession], .refl⟩
        rw [session_setSession w i _ hi]
        by_cases hj : j = i
        · subst hj
          rw [Function.update_self]
          exact .inr ⟨hstart.2, rfl⟩
        · rw [Function.update_of_ne hj]
          exact .inl rfl
      · exact .refl w

theorem ensureRtcpSocket_carries (w : World) (c : IngressClient) : Carries w (ensureRtcpSocket w c).2 := by
  simp only [ensureRtcpSocket]
  split
  · exact .refl w
  · split
    · exact .refl w
    · split
      · exact .of_clients rfl rfl rfl
      · split
        all_goals
          refine Carries.trans ?_ (updateClient_carries _ _ fun c => ⟨by constructor <;> rfl, rfl⟩)
          exact .of_clients rfl rfl rfl

theorem logForward_carries (w : World) (c : IngressClient) (channel : Channel) (payload : List UInt8) :
    Carries w (logForward w c channel payload) := .of_clients rfl rfl rfl

theorem forwardRtp_carries (w : World) (c : IngressClient) (payload : List UInt8) :
    Carries w (forwardRtp w c payload) := by
  simp only [forwardRtp]
  split
  · refine Carries.trans ?_ (activateOwner_carries _ _)
    refine (logForward_carries w c .rtp payload).trans (updateClient_carries _ _ fun c => ?_)
    exact ⟨by constructor <;> rfl, rfl⟩
  · exact updateClient_carries _ _ fun c => ⟨by constructor <;> rfl, rfl⟩

theorem forwardRtcp_carries (w : World) (c : IngressClient) (payload : List UInt8) :
    Carries w (forwardRtcp w c payload) := by
  simp only [forwardRtcp]
  split
  · have hsock := ensureRtcpSocket_carries w c
    generalize ensureRtcpSocket w c = answer at hsock ⊢
    obtain ⟨ready, w₁⟩ := answer
    have hsock₁ : Carries w w₁ := hsock
    refine Carries.trans (hsock₁.trans ?_) (updateClient_carries _ _ fun c => ⟨by constructor <;> rfl, rfl⟩)
    cases ready
    · exact .refl w₁
    · exact logForward_carries w₁ c .rtcp payload
  · exact updateClient_carries _ _ fun c => ⟨by constructor <;> rfl, rfl⟩

theorem withClient_carries {w : World} {f : IngressClient → World} (e : Nat) (hf : ∀ c, Carries w (f c)) :
    Carries w (withClient w e f) := by
  simp only [withClient]
  split
  · exact .refl w
  · exact hf _

theorem dispatchFrame_carries (w : World) (e : Nat) (type : UInt8) (payload : List UInt8) :
    Carries { w with dispatched := w.dispatched ++ [⟨e, type, payload⟩] } (dispatchFrame w e type payload) := by
  simp only [dispatchFrame]
  split
  · exact (stampRtp_carries _ e).trans (withClient_carries e fun c => forwardRtp_carries _ c payload)
  · split
    · refine Carries.trans ?_ (withClient_carries e fun c => forwardRtcp_carries _ c payload)
      exact (Carries.of_clock (advance_clockOnly _)).trans
        (updateClient_carries _ _ fun c => ⟨by constructor <;> rfl, rfl⟩)
    · split
      · exact updateClient_carries _ _ fun c => ⟨by constructor <;> rfl, rfl⟩
      · exact .refl _

theorem expireOwner_ends (w : World) (sn : CString) : Ends w (expireOwner w sn) :=
  ends_of_settles (expireOwner_settles w sn)

theorem cameraConnectionCurrent_ends (w : World) (c : IngressClient) : Ends w (cameraConnectionCurrent w c).2 := by
  simp only [cameraConnectionCurrent]
  split
  · exact .refl w
  · split
    · exact .refl w
    · split
      · exact ends_of_sessions rfl
      · split
        · exact expireOwner_ends w c.sn
        · exact (expireOwner_ends w c.sn).trans (ends_of_sessions rfl)

theorem dispatchFrame_steady (w : World) (e : Nat) (type : UInt8) (payload : List UInt8) :
    Steady w (dispatchFrame w e type payload) := by
  have h := (dispatchFrame_carries w e type payload).steady
  exact ⟨h.length, h.slot⟩

theorem dispatchFrame_ends (w : World) (e : Nat) (type : UInt8) (payload : List UInt8) :
    Ends w (dispatchFrame w e type payload) := (dispatchFrame_steady w e type payload).ends

theorem handleFrame_ends (w : World) (e : Nat) (type : UInt8) (payload : List UInt8) :
    Ends w (handleFrame w e type payload).2 := by
  simp only [handleFrame]
  cases findClient w e with
  | none => exact .refl w
  | some c =>
      have hcur := cameraConnectionCurrent_ends w c
      dsimp only
      generalize cameraConnectionCurrent w c = answer at hcur ⊢
      obtain ⟨ok, w₁⟩ := answer
      have hcur₁ : Ends w w₁ := hcur
      cases ok with
      | false => exact hcur₁.trans (ends_of_sessions rfl)
      | true => exact hcur₁.trans ((expireOwner_ends w₁ c.sn).trans (dispatchFrame_ends _ e type payload))

theorem frameLoop_ends (e fuel : Nat) (w : World) (buf : List UInt8) : Ends w (frameLoop e fuel w buf).2 := by
  induction fuel generalizing w buf with
  | zero => exact ends_of_sessions rfl
  | succ fuel ih =>
      simp only [frameLoop]
      split
      · exact ends_of_sessions rfl
      · exact ends_of_sessions rfl
      next type payload rest _ =>
        have hframe := handleFrame_ends w e type payload
        generalize handleFrame w e type payload = answer at hframe ⊢
        obtain ⟨ok, w₁⟩ := answer
        have hframe₁ : Ends w w₁ := hframe
        cases ok with
        | false => exact hframe₁
        | true => exact hframe₁.trans (ih w₁ rest)

theorem completePreamble_sessions (w : World) (e : Nat) (sn : List UInt8) :
    (completePreamble w e sn).2.sessions = w.sessions := by
  simp only [completePreamble]
  split
  · rfl
  · exact closeDuplicate_sessions w e (untilNul sn)

theorem parseBuffer_ends (w : World) (c : IngressClient) (buf : List UInt8) : Ends w (parseBuffer w c buf).2 := by
  simp only [parseBuffer]
  split
  · exact frameLoop_ends _ _ w buf
  · split
    · exact ends_of_sessions rfl
    · exact ends_of_sessions rfl
    next sn rest _ =>
      have hdone := completePreamble_sessions w c.epoch sn
      generalize completePreamble w c.epoch sn = answer at hdone ⊢
      obtain ⟨ok, w₁⟩ := answer
      have hdone₁ : Ends w w₁ := ends_of_sessions hdone
      cases ok with
      | false => exact hdone₁
      | true => exact hdone₁.trans (frameLoop_ends _ _ w₁ rest)

theorem recvStep_ends (w : World) (e : Nat) (r : Recv) : Ends w (recvStep w e r).2 := by
  simp only [recvStep]
  split
  · exact .refl w
  · split
    · exact ends_of_sessions rfl
    · split
      · exact .refl w
      · exact ends_of_sessions rfl
      · exact ends_of_sessions rfl
      · split
        · exact ends_of_sessions rfl
        · exact (stampActivity_carries w e).steady.ends.trans (parseBuffer_ends _ _ _)

theorem recvLoop_ends (e : Nat) (recvs : List Recv) (w : World) : Ends w (recvLoop e recvs w) := by
  induction recvs generalizing w with
  | nil => exact .refl w
  | cons r rest ih =>
      simp only [recvLoop]
      have hstep := recvStep_ends w e r
      generalize recvStep w e r = answer at hstep ⊢
      obtain ⟨ok, w₁⟩ := answer
      have hstep₁ : Ends w w₁ := hstep
      cases ok with
      | false => exact hstep₁
      | true => exact hstep₁.trans (ih w₁)

theorem processIngressData_ends (w : World) (e : Nat) (recvs : List Recv) : Ends w (processIngressData w e recvs) := by
  simp only [processIngressData, ifCurrent]
  cases findClient w e with
  | none => exact .refl w
  | some c =>
      have hcur := cameraConnectionCurrent_ends w c
      dsimp only
      generalize cameraConnectionCurrent w c = answer at hcur ⊢
      obtain ⟨ok, w₁⟩ := answer
      have hcur₁ : Ends w w₁ := hcur
      cases ok with
      | false => exact hcur₁.trans (ends_of_sessions rfl)
      | true => exact hcur₁.trans (recvLoop_ends e recvs w₁)

theorem Unexpired.before {w w₁ w₂ : World} (h : Unexpired w w₂) (he : Ends w₁ w₂) : Unexpired w w₁ := he.trans h

theorem Unexpired.since {w₀ w w' : World} (h : Unexpired w₀ w') (hs : Steady w₀ w) : Unexpired w w' :=
  Ends.trans h hs.ends

theorem expireOwner_unexpired {w : World} {sn : CString} (h : Unexpired w (expireOwner w sn)) :
    ClockOnly w (expireOwner w sn) := by
  simp only [expireOwner] at h ⊢
  cases hown : findActiveSessionForSn w sn with
  | none => exact .refl w
  | some i =>
      rw [hown] at h
      dsimp only at h ⊢
      split
      next hv =>
        rw [if_pos hv] at h
        apply (advance_clockOnly w).trans
        rcases expireMediaSession_spec (advance w) i (now w) with ⟨_, hclock⟩ | ⟨_, w₁, hclock, hstop⟩
        · exact hclock
        · rw [hstop] at h ⊢
          cases hk : stoppable w₁ (session (advance w) i).sessionId with
          | none =>
              rw [stopMediaSession_none hk]
              exact hclock
          | some k =>
              obtain ⟨hne, hst⟩ := stopMediaSession_stops hk (bytes "ttl_expired")
              obtain ⟨_, _, _, rfl⟩ := hclock
              exact absurd (h k hst) hne
      · exact .refl w

end EtranProcessing.Ingress.Carriage
