import EtranProcessing.Ingress.ModernPaths

namespace EtranProcessing.Ingress.ConnectionPaths

open Relation Library.Tables Library.Runs
open State Clock Feedback Routes Stores Lifecycle MediaV2 Framing Moves Settling

/-- Worlds that differ only quietly and in what the connections count. -/
structure Recounts (w w' : World) : Prop where
  env : w'.env = w.env
  sessions : w'.sessions = w.sessions
  routes : w'.routes = w.routes
  nextEpoch : w'.nextEpoch = w.nextEpoch
  forwarded : w'.forwarded = w.forwarded
  clients : ∃ f, w'.clients = w.clients.map f ∧ ∀ c, SameBinding c (f c)

variable {p : Policy} {w w' : World} {c : IngressClient}

theorem Recounts.of_quiet (h : Quiet w w') : Recounts w w' :=
  ⟨h.env, h.sessions, h.routes, h.nextEpoch, h.forwarded, id, by simp [h.clients], fun c => .refl c⟩

theorem Recounts.refl (w : World) : Recounts w w := .of_quiet (.refl w)

theorem Recounts.trans {u v w : World} (h : Recounts u v) (h' : Recounts v w) : Recounts u w := by
  obtain ⟨f, hf, hb⟩ := h.clients
  obtain ⟨g, hg, hb'⟩ := h'.clients
  refine ⟨h'.env.trans h.env, h'.sessions.trans h.sessions, h'.routes.trans h.routes, h'.nextEpoch.trans h.nextEpoch,
    h'.forwarded.trans h.forwarded, g ∘ f, by rw [hg, hf, List.map_map], fun c => ?_⟩
  exact (hb c).trans (hb' (f c))

theorem Recounts.session_eq (h : Recounts w w') : session w' = session w := by
  funext j
  simp only [session, h.sessions]

theorem Recounts.path (h : Recounts w w') : Path p (registry w) (registry w') := by
  obtain ⟨f, hf, hb⟩ := h.clients
  have he : registry w' = { registry w with clients := w.clients.map f } := by
    simp only [registry, h.session_eq, h.routes, hf, h.nextEpoch, h.forwarded]
  rw [he]
  exact .single (Move.recount f hb)

theorem updateClient_recounts (w : World) (e : Nat) (f : IngressClient → IngressClient)
    (hf : ∀ c, SameBinding c (f c)) : Recounts w (updateClient w e f) := by
  refine ⟨rfl, rfl, rfl, rfl, rfl, fun c => if c.epoch = e then f c else c, rfl, fun c => ?_⟩
  by_cases h : c.epoch = e
  · simpa [h] using hf c
  · simpa [h] using SameBinding.refl c

theorem updateClient_path (w : World) (e : Nat) (f : IngressClient → IngressClient)
    (hf : ∀ c, SameBinding c (f c)) : Path p (registry w) (registry (updateClient w e f)) :=
  (updateClient_recounts w e f hf).path

theorem findClient_map {f : IngressClient → IngressClient} (hf : w'.clients = w.clients.map f)
    (he : ∀ c, (f c).epoch = c.epoch) (e : Nat) : findClient w' e = (findClient w e).map f := by
  have hcomp : ((fun c : IngressClient => c.epoch == e) ∘ f) = fun c => c.epoch == e := by
    funext c
    simp only [Function.comp, he]
  simp only [findClient, hf, List.find?_map, hcomp]

theorem findClient_epoch {w : World} {e : Nat} (h : findClient w e = some c) :
    c.epoch = e ∧ c ∈ w.clients :=
  ⟨by simpa using List.find?_some h, List.mem_of_find?_eq_some h⟩

def Muted (w : World) (e : Nat) : Prop :=
  ∀ c, findClient w e = some c → c.cameraRouteRevoked = true → c.rtpPort = 0 ∧ c.rtcpPort = 0

theorem Muted.recounts {e : Nat} (h : Muted w e) (hr : Recounts w w') : Muted w' e := by
  obtain ⟨f, hf, hb⟩ := hr.clients
  intro c' hc' hrev
  rw [findClient_map hf fun c => (hb c).epoch, Option.map_eq_some_iff] at hc'
  obtain ⟨c, hc, rfl⟩ := hc'
  rw [(hb c).revoked] at hrev
  rw [(hb c).rtpPort, (hb c).rtcpPort]
  exact h c hc hrev

theorem Muted.settles {e : Nat} (h : Muted w e) (hs : Settles w w') : Muted w' e := by
  obtain ⟨f, hf, hd⟩ := hs.clients
  intro c' hc' hrev
  rw [findClient_map hf fun c => (hd c).epoch, Option.map_eq_some_iff] at hc'
  obtain ⟨c, hc, rfl⟩ := hc'
  rcases (hd c).ports with hb | hz
  · rw [hb.revoked] at hrev
    rw [hb.rtpPort, hb.rtcpPort]
    exact h c hc hrev
  · exact hz

theorem removeIngressClient_path (w : World) (e : Nat) :
    Path p (registry w) (registry (removeIngressClient w e)) := .single (Move.remove e)

theorem revokeClient_path (w : World) (e : Nat) :
    Path p (registry w) (registry (revokeClient w e)) := by
  have he : registry (revokeClient w e) = { registry w with
      clients := w.clients.map fun c => if (c.epoch == e) = true then { c with cameraRouteRevoked := true } else c } := by
    simp only [revokeClient, updateClient, beq_iff_eq]
    rfl
  rw [he]
  exact .single (Move.revoke fun c => c.epoch == e)

theorem addIngressClient_path (w : World) : Path p (registry w) (registry (addIngressClient w)) := by
  simp only [addIngressClient]
  split
  · exact .refl
  · have hq := readMonotonic_quiet { advance w with nextEpoch := w.nextEpoch + 1 }
    have hreg : registry { advance w with nextEpoch := w.nextEpoch + 1 } =
      { registry w with nextEpoch := w.nextEpoch + 1 } := rfl
    have hnext : (readMonotonic { advance w with nextEpoch := w.nextEpoch + 1 }).nextEpoch = w.nextEpoch + 1 :=
      hq.nextEpoch
    have he := hq.registry_eq.trans hreg
    generalize readMonotonic { advance w with nextEpoch := w.nextEpoch + 1 } = w₁ at he hnext ⊢
    split
    · have hadd : ∀ c : IngressClient, registry { advance w₁ with clients := w₁.clients ++ [c] } =
          { registry w₁ with clients := w₁.clients ++ [c] } := fun _ => rfl
      have hclients : w₁.clients = w.clients := congrArg Registry.clients he
      rw [hadd, he, hclients]
      refine .single (Move.accept _ ?_ rfl rfl rfl)
      simp [hnext, registry]
    · have hadv : registry (advance w₁) = registry w₁ := rfl
      rw [hadv, he]
      exact .single Move.burn

theorem expireOwner_settles (w : World) (sn : CString) : Settles w (expireOwner w sn) := by
  simp only [expireOwner]
  split
  · exact .refl w
  · split
    · exact (advance_quiet w).settles.trans (expireMediaSession_settles _ _ _)
    · exact .refl w

theorem expireOwner_path (w : World) (sn : CString) :
    Path p (registry w) (registry (expireOwner w sn)) := by
  simp only [expireOwner]
  split
  · exact .refl
  · split
    · exact expireMediaSession_path (advance w) _ _
    · exact .refl

theorem cameraConnectionCurrent_path (w : World) (c : IngressClient) :
    Path p (registry w) (registry (cameraConnectionCurrent w c).2) := by
  simp only [cameraConnectionCurrent]
  split
  · exact .refl
  · split
    · exact .refl
    · split
      · exact revokeClient_path w c.epoch
      · split
        · exact expireOwner_path w c.sn
        · exact (expireOwner_path w c.sn).trans (revokeClient_path _ c.epoch)

theorem cameraConnectionCurrent_true
    (h : cameraConnectionCurrent w c = (true, w')) : c.cameraRouteRevoked = false ∧ Settles w w' := by
  simp only [cameraConnectionCurrent] at h
  split at h
  · simp at h
  next hr =>
    refine ⟨by simpa using hr, ?_⟩
    split at h
    · simp only [Prod.mk.injEq, true_and] at h
      exact h ▸ .refl w
    · split at h
      · simp at h
      · split at h
        · simp only [Prod.mk.injEq, true_and] at h
          exact h ▸ expireOwner_settles w c.sn
        · simp at h

theorem stampRtp_recounts (w : World) (e : Nat) : Recounts w (stampRtp w e) := by
  have h₁ : Recounts w (updateClient (advance w) e fun c => { c with lastRtpTime := now w }) :=
    (Recounts.of_quiet (advance_quiet w)).trans (updateClient_recounts _ _ _ fun c => by constructor <;> rfl)
  simp only [stampRtp]
  split
  · exact h₁.trans (.of_quiet (readMonotonic_quiet _))
  · exact h₁.trans ((Recounts.of_quiet (readMonotonic_quiet _)).trans
      (updateClient_recounts _ _ _ fun c => by constructor <;> rfl))

theorem stampActivity_recounts (w : World) (e : Nat) : Recounts w (stampActivity w e) := by
  have h₁ : Recounts w (updateClient (advance w) e fun c => { c with lastActivity := now w }) :=
    (Recounts.of_quiet (advance_quiet w)).trans (updateClient_recounts _ _ _ fun c => by constructor <;> rfl)
  simp only [stampActivity]
  split
  · exact h₁.trans (.of_quiet (readMonotonic_quiet _))
  · exact h₁.trans ((Recounts.of_quiet (readMonotonic_quiet _)).trans
      (updateClient_recounts _ _ _ fun c => by constructor <;> rfl))

theorem ensureRtcpSocket_recounts (w : World) (c : IngressClient) : Recounts w (ensureRtcpSocket w c).2 := by
  simp only [ensureRtcpSocket]
  split
  · exact .refl w
  · split
    · exact .refl w
    · split
      · exact .of_quiet (advance_quiet w)
      · have hq : Quiet w (advance { advance w with nextRtcpGeneration := w.nextRtcpGeneration + 1 }) :=
          by constructor <;> rfl
        split
        · exact (Recounts.of_quiet hq).trans (updateClient_recounts _ _ _ fun c => by constructor <;> rfl)
        · exact (Recounts.of_quiet hq).trans (updateClient_recounts _ _ _ fun c => by constructor <;> rfl)

theorem logForward_path (w : World) (c : IngressClient) (channel : Channel) (payload : List UInt8)
    (hc : c ∈ w.clients) (hr : c.cameraRouteRevoked = false) :
    Path p (registry w) (registry (logForward w c channel payload)) := by
  refine .single (Move.forward ⟨c, w.sessions, channel, payload⟩ hc hr fun s hs => ?_)
  obtain ⟨i, hi, rfl⟩ := List.getElem_of_mem hs
  exact ⟨i, by simp [registry, session, hi]⟩

theorem activateOwner_path (w : World) (sn : CString) :
    Path p (registry w) (registry (activateOwner w sn)) := by
  simp only [activateOwner]
  cases hown : findActiveSessionForSn w sn with
  | none => exact .refl
  | some i =>
      obtain ⟨hi, hl, _, _⟩ := findActiveSessionForSn_some hown
      dsimp only
      split
      · rw [(mvPersist_quiet _ _).registry_eq]
        exact touch_path w i _ hi hl rfl (by constructor <;> rfl)
      · exact .refl

theorem countUnrouted_recounts (w : World) (e : Nat) : Recounts w (countUnrouted w e) :=
  updateClient_recounts _ _ _ fun _ => by constructor <;> rfl

theorem Muted.open {w : World} (h : Muted w c.epoch) (hc : findClient w c.epoch = some c)
    (hp : 0 < c.rtpPort ∨ 0 < c.rtcpPort) : c.cameraRouteRevoked = false := by
  by_contra hr
  obtain ⟨h1, h2⟩ := h c hc (by simpa using hr)
  omega

theorem forwardRtp_path (w : World) (c : IngressClient) (payload : List UInt8)
    (hc : findClient w c.epoch = some c) (hm : Muted w c.epoch) :
    Path p (registry w) (registry (forwardRtp w c payload)) := by
  simp only [forwardRtp]
  split
  next hp =>
    apply (logForward_path w c .rtp payload (findClient_epoch hc).2 (hm.open hc (.inl hp))).trans
    refine .trans ?_ (activateOwner_path _ c.sn)
    exact updateClient_path _ _ _ fun c => by constructor <;> rfl
  · exact (countUnrouted_recounts w c.epoch).path

theorem Recounts.logForward (h : Recounts w w') (c : IngressClient) (channel : Channel)
    (payload : List UInt8) : Recounts (logForward w c channel payload) (logForward w' c channel payload) := by
  refine ⟨h.env, h.sessions, h.routes, h.nextEpoch, ?_, h.clients⟩
  simp only [Framing.logForward, h.forwarded, h.sessions]

theorem forwardRtcp_path (w : World) (c : IngressClient) (payload : List UInt8)
    (hc : findClient w c.epoch = some c) (hm : Muted w c.epoch) :
    Path p (registry w) (registry (forwardRtcp w c payload)) := by
  simp only [forwardRtcp]
  split
  next hp =>
    refine .trans ?_ (updateClient_path _ _ _ fun c => by constructor <;> rfl)
    have hr := ensureRtcpSocket_recounts w c
    split
    · apply (logForward_path w c .rtcp payload (findClient_epoch hc).2 (hm.open hc (.inr hp))).trans
      exact (hr.logForward c .rtcp payload).path
    · exact hr.path
  · exact (countUnrouted_recounts w c.epoch).path

theorem dispatchFrame_path (w : World) (e : Nat) (type : UInt8) (payload : List UInt8)
    (hm : Muted w e) : Path p (registry w) (registry (dispatchFrame w e type payload)) := by
  have hq : Quiet w { w with dispatched := w.dispatched ++ [⟨e, type, payload⟩] } := by constructor <;> rfl
  have hm₁ := hm.recounts (.of_quiet hq)
  simp only [dispatchFrame]
  apply hq.path.trans
  generalize ({ w with dispatched := w.dispatched ++ [⟨e, type, payload⟩] } : World) = w₁ at hm₁ ⊢
  split
  · have hr := stampRtp_recounts w₁ e
    apply hr.path.trans
    have hm₂ := hm₁.recounts hr
    simp only [withClient]
    split
    · exact .refl
    next c hc =>
      obtain rfl := (findClient_epoch hc).1
      exact forwardRtp_path _ c payload hc hm₂
  · split
    · have hr : Recounts w₁ (updateClient (advance w₁) e fun c => { c with lastRtcpTime := now w₁ }) :=
        (Recounts.of_quiet (advance_quiet w₁)).trans
          (updateClient_recounts _ _ _ fun c => by constructor <;> rfl)
      apply hr.path.trans
      have hm₂ := hm₁.recounts hr
      simp only [withClient]
      split
      · exact .refl
      next c hc =>
        obtain rfl := (findClient_epoch hc).1
        exact forwardRtcp_path _ c payload hc hm₂
    · split
      · exact updateClient_path _ _ _ fun c => by constructor <;> rfl
      · exact .refl

theorem handleFrame_path (w : World) (e : Nat) (type : UInt8) (payload : List UInt8) :
    Path p (registry w) (registry (handleFrame w e type payload).2) := by
  simp only [handleFrame]
  cases hc : findClient w e with
  | none => exact .refl
  | some c =>
      obtain rfl := (findClient_epoch hc).1
      have hpath := cameraConnectionCurrent_path (p := p) w c
      dsimp only
      cases hcur : cameraConnectionCurrent w c with
      | mk current w₁ =>
          rw [hcur] at hpath
          cases current with
          | false => exact hpath.trans (removeIngressClient_path w₁ c.epoch)
          | true =>
              obtain ⟨hrev, hset⟩ := cameraConnectionCurrent_true hcur
              refine hpath.trans ((expireOwner_path w₁ c.sn).trans (dispatchFrame_path _ c.epoch type payload ?_))
              have hm : Muted w c.epoch := by
                intro d hd hdr
                rw [hc, Option.some.injEq] at hd
                rw [← hd, hrev] at hdr
                exact absurd hdr (by simp)
              exact (hm.settles hset).settles (expireOwner_settles w₁ c.sn)

theorem keepBuffer_path (w : World) (e : Nat) (buf : List UInt8) :
    Path p (registry w) (registry (updateClient w e fun c => { c with rxBuf := buf })) :=
  updateClient_path _ _ _ fun _ => by constructor <;> rfl

theorem frameLoop_path (e fuel : Nat) (w : World) (buf : List UInt8) :
    Path p (registry w) (registry (frameLoop e fuel w buf).2) := by
  induction fuel generalizing w buf with
  | zero => exact keepBuffer_path w e buf
  | succ fuel ih =>
      simp only [frameLoop]
      split
      · exact keepBuffer_path w e buf
      · exact removeIngressClient_path w e
      next type payload rest _ =>
        have hpath := handleFrame_path (p := p) w e type payload
        generalize handleFrame w e type payload = answer at hpath ⊢
        obtain ⟨alive, w₁⟩ := answer
        cases alive with
        | false => exact hpath
        | true => exact hpath.trans (ih w₁ rest)

theorem closeDuplicate_path (w : World) (e : Nat) (sn : CString) :
    Path p (registry w) (registry (closeDuplicate w e sn)) := by
  simp only [closeDuplicate]
  split
  · exact .refl
  · exact removeIngressClient_path w _

theorem closeDuplicate_sessions (w : World) (e : Nat) (sn : CString) :
    (closeDuplicate w e sn).sessions = w.sessions := by
  simp only [closeDuplicate]
  split <;> rfl

theorem camera_owner {w : World} (hs : Sane (registry w)) {sn : CString} {i : Nat} (hl : live (session w i) = true)
    (hsn : (session w i).sn = sn) (hcam : (session w i).cameraSource = true) : findActiveSessionForSn w sn = some i := by
  have hne := ((hs.record i).sn (live_not_empty hl)).1
  change (session w i).sn ≠ [] at hne
  cases hown : findActiveSessionForSn w sn with
  | none => exact absurd hsn (findActiveSessionForSn_none (hsn ▸ hne) hown i hl)
  | some k =>
      obtain ⟨_, hlk, hsnk, _⟩ := findActiveSessionForSn_some hown
      by_contra hki
      have hik : i ≠ k := fun h => hki (by rw [h])
      have hid := (hs.pair hik).device hl hlk (hsn.trans hsnk.symm)
      have hnamed := ((hs.record i).sessionId (live_not_empty hl)).1
      have hmod := (hs.record i).camera hcam
      rw [((hs.pair hik).id hid hnamed).1] at hmod
      exact absurd hmod (by simp)

theorem closeDuplicate_alone {w : World} (hd : Doors (registry w)) (e : Nat) {sn : CString} (hsn : sn ≠ [])
    (hc : c ∈ (closeDuplicate w e sn).clients) (he : c.epoch ≠ e) : c.sn ≠ sn := by
  intro hcn
  simp only [closeDuplicate] at hc
  split at hc
  next hnone => exact absurd (List.find?_eq_none.mp hnone c hc) (by simp [he, hcn])
  next old hold =>
    obtain ⟨hmem, hne⟩ := List.mem_filter.mp hc
    have hfound := List.find?_some hold
    simp only [Bool.and_eq_true, bne_iff_ne, beq_iff_eq] at hfound
    have hsame := hd.named_inj hmem (List.mem_of_find?_eq_some hold) (hcn.trans hfound.2.symm) (hcn ▸ hsn)
    simp [hsame] at hne

theorem completePreamble_path (hh : p.hello) (w : World) (e : Nat) (snBytes : List UInt8)
    (hs : Sane (registry w)) :
    Path p (registry w) (registry (completePreamble w e snBytes).2) := by
  simp only [completePreamble]
  split
  · exact removeIngressClient_path w e
  next hold =>
    have hpath := closeDuplicate_path (p := p) w e (untilNul snBytes)
    have hsess := closeDuplicate_sessions w e (untilNul snBytes)
    refine hpath.trans (.single (Move.bind e (untilNul snBytes) _ (fun c => ?_) hh fun hsn c hc hce => ?_))
    rotate_left
    · exact closeDuplicate_alone hs.doors e hsn hc hce
    have hs₁ := hpath.sane hs
    have hold₁ : tooOld (closeDuplicate w e (untilNul snBytes)) e (untilNul snBytes) = false := by
      simp only [tooOld, findActiveSessionForSn, session, hsess]
      simpa [tooOld, findActiveSessionForSn, session] using hold
    generalize closeDuplicate w e (untilNul snBytes) = w₁ at hs₁ hold₁ ⊢
    generalize untilNul snBytes = sn at hold₁ ⊢
    refine ⟨rfl, rfl, rfl, rfl, rfl, rfl, fun hce i hl hsn hcam => ?_⟩
    have hown := camera_owner hs₁ hl hsn hcam
    have hcam' : (session w₁ i).cameraSource = true := hcam
    constructor
    · simp only [bindClient, hown, Option.map_some, hcam', if_true]
      rfl
    · simp only [tooOld, hown, hcam', Bool.true_and, decide_eq_false_iff_not, Nat.not_lt] at hold₁
      rw [hce]
      exact hold₁

theorem parseBuffer_path (hh : p.hello) (w : World) (c : IngressClient) (buf : List UInt8)
    (hs : Sane (registry w)) :
    Path p (registry w) (registry (parseBuffer w c buf).2) := by
  simp only [parseBuffer]
  split
  · exact frameLoop_path _ _ w buf
  · split
    · exact keepBuffer_path w c.epoch buf
    · exact removeIngressClient_path w c.epoch
    next sn rest _ =>
      have hpath := completePreamble_path hh w c.epoch sn hs
      generalize completePreamble w c.epoch sn = answer at hpath ⊢
      obtain ⟨alive, w₁⟩ := answer
      cases alive with
      | false => exact hpath
      | true => exact hpath.trans (frameLoop_path _ _ w₁ rest)

theorem recvStep_path (hh : p.hello) (w : World) (e : Nat) (r : Recv) (hs : Sane (registry w)) :
    Path p (registry w) (registry (recvStep w e r).2) := by
  simp only [recvStep]
  split
  · exact .refl
  · split
    · exact removeIngressClient_path w e
    · split
      · exact .refl
      · exact removeIngressClient_path w e
      · exact removeIngressClient_path w e
      · split
        · exact removeIngressClient_path w e
        · have hpath := (stampActivity_recounts w e).path (p := p)
          exact hpath.trans (parseBuffer_path hh _ _ _ (hpath.sane hs))

theorem recvLoop_path (hh : p.hello) (e : Nat) (recvs : List Recv) (w : World) (hs : Sane (registry w)) :
    Path p (registry w) (registry (recvLoop e recvs w)) := by
  induction recvs generalizing w with
  | nil => exact .refl
  | cons r rest ih =>
      simp only [recvLoop]
      have hpath := recvStep_path hh w e r hs
      generalize recvStep w e r = answer at hpath ⊢
      obtain ⟨more, w₁⟩ := answer
      cases more with
      | false => exact hpath
      | true => exact hpath.trans (ih w₁ (hpath.sane hs))

theorem ifCurrent_path (w : World) (e : Nat) (f : World → World) (hs : Sane (registry w))
    (hf : ∀ w, Sane (registry w) → Path p (registry w) (registry (f w))) :
    Path p (registry w) (registry (ifCurrent w e f)) := by
  simp only [ifCurrent]
  split
  · exact .refl
  next c _ =>
    have hpath := cameraConnectionCurrent_path (p := p) w c
    generalize cameraConnectionCurrent w c = answer at hpath ⊢
    obtain ⟨current, w₁⟩ := answer
    cases current with
    | false => exact hpath.trans (removeIngressClient_path w₁ e)
    | true => exact hpath.trans (hf w₁ (hpath.sane hs))

theorem processIngressData_path (hh : p.hello) (w : World) (e : Nat) (recvs : List Recv)
    (hs : Sane (registry w)) :
    Path p (registry w) (registry (processIngressData w e recvs)) :=
  ifCurrent_path w e _ hs fun w hs => recvLoop_path hh e recvs w hs

theorem startFrame_binding (c : IngressClient) : SameBinding c (startFrame c) := by
  simp only [startFrame]
  split <;> constructor <;> rfl

theorem flushLoop_binding (sends : List SendOutcome) (c : IngressClient) : SameBinding c (flushLoop sends c).2 := by
  induction sends generalizing c with
  | nil =>
      simp only [flushLoop]
      split
      · exact startFrame_binding c
      · exact .refl c
  | cons outcome rest ih =>
      have hstart := startFrame_binding c
      simp only [flushLoop]
      split
      · cases outcome with
        | wouldBlock => exact hstart
        | interrupted => exact hstart.trans (ih _)
        | failed => exact hstart
        | wrote n =>
            dsimp only
            split
            · exact hstart
            · refine hstart.trans (.trans ?_ (ih _))
              constructor <;> rfl
      · exact .refl c

theorem flushQueue_binding (sends : List SendOutcome) (c : IngressClient) : SameBinding c (flushQueue c sends).2 := by
  simp only [flushQueue]
  have h := flushLoop_binding sends c
  generalize flushLoop sends c = answer at h ⊢
  obtain ⟨ok, d⟩ := answer
  cases ok with
  | false => exact h
  | true =>
      dsimp only
      split
      · exact h.trans (by constructor <;> rfl)
      · exact h

theorem coalesceLoop_binding (fuel : Nat) (c : IngressClient) (rest : List UInt8) (nowMs : Nat) :
    SameBinding c (coalesceLoop fuel c rest nowMs).1 := by
  induction fuel generalizing c rest with
  | zero => exact .refl c
  | succ fuel ih =>
      simp only [coalesceLoop]
      split
      · exact .refl c
      · split
        · refine .trans ?_ (ih _ _)
          constructor <;> rfl
        · refine .trans ?_ (ih _ _)
          split <;> constructor <;> rfl

theorem queueDatagram_binding (c : IngressClient) (data : List UInt8) (nowMs : Nat) :
    SameBinding c (queueDatagram c data nowMs) := by
  have h : SameBinding c (coalesceFeedback c data nowMs).1 := by
    simp only [coalesceFeedback]
    split
    · exact .refl c
    · exact coalesceLoop_binding _ _ _ _
  simp only [queueDatagram]
  split
  · exact .refl c
  · split
    · constructor <;> rfl
    · split
      · exact h
      · exact h.trans (by constructor <;> rfl)

theorem queueBatch_binding (limit : Nat) (c : IngressClient) (reads : List RecvOutcome) :
    SameBinding c (queueBatch limit c reads) := by
  fun_induction queueBatch limit c reads with
  | case1 | case2 | case6 => exact .refl _
  | case3 limit c data nowMs rest ih => exact (queueDatagram_binding c data nowMs).trans ih
  | case4 limit c rest ih => exact ih
  | case5 limit c rest ih => exact ih

theorem flushFeedback_path (w : World) (e : Nat) (sends : List SendOutcome) (hs : Sane (registry w)) :
    Path p (registry w) (registry (flushFeedback w e sends)) := by
  apply ifCurrent_path w e _ hs
  intro w _
  simp only [withClient]
  split
  · exact .refl
  · have hpath := updateClient_path (p := p) w e _ (flushQueue_binding sends)
    split
    · exact hpath
    · exact hpath.trans (removeIngressClient_path _ e)

theorem receiveFeedback_path (w : World) (e : Nat) (reads : List RecvOutcome) (sends : List SendOutcome)
    (hs : Sane (registry w)) : Path p (registry w) (registry (receiveFeedback w e reads sends)) := by
  apply ifCurrent_path w e _ hs
  intro w hs
  have hpath := updateClient_path (p := p) w e _ fun c => queueBatch_binding feedbackBatchLimit c reads
  exact hpath.trans (flushFeedback_path _ e sends (hpath.sane hs))

theorem ingressClientIdle_quiet (w : World) (c : IngressClient) (wall : Int) :
    Quiet w (ingressClientIdle w c wall).2 := by
  simp only [ingressClientIdle]
  split
  · exact .refl w
  · split
    · exact readMonotonic_quiet w
    · exact .refl w

theorem sweepClient_path (wall : Int) (w : World) (e : Nat) (hs : Sane (registry w)) :
    Path p (registry w) (registry (sweepClient wall w e)) := by
  apply ifCurrent_path w e _ hs
  intro w _
  simp only [withClient]
  split
  · exact .refl
  next c _ =>
    have hq := ingressClientIdle_quiet w c wall
    generalize ingressClientIdle w c wall = answer at hq ⊢
    obtain ⟨idle, w₁⟩ := answer
    have hq₁ : Quiet w w₁ := hq
    cases idle with
    | false => exact hq₁.path
    | true => exact hq₁.path.trans (removeIngressClient_path w₁ e)

theorem foldl_path {α : Type} (f : World → α → World)
    (hf : ∀ w a, Sane (registry w) → Path p (registry w) (registry (f w a))) (l : List α) (w : World)
    (hs : Sane (registry w)) : Path p (registry w) (registry (l.foldl f w)) := by
  induction l generalizing w with
  | nil => exact .refl
  | cons a l ih =>
      have hpath := hf w a hs
      exact hpath.trans (ih (f w a) (hpath.sane hs))

theorem idleSweep_path (w : World) (wall : Int) (hs : Sane (registry w)) :
    Path p (registry w) (registry (idleSweep w wall)) :=
  foldl_path _ (fun w e hs => sweepClient_path wall w e hs) _ w hs

theorem expirySweep_path (w : World) (t : Int) (hs : Sane (registry w)) :
    Path p (registry w) (registry (expirySweep w t)) :=
  foldl_path _ (fun w i _ => expireMediaSession_path w i t) _ w hs

end EtranProcessing.Ingress.ConnectionPaths
