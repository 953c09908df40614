import EtranProcessing.Ingress.LegacyPaths

namespace EtranProcessing.Ingress.ModernPaths

open Relation Library.Tables Library.Runs
open State Clock Lease Routes Stores Lifecycle MediaV2 Moves Settling

/-- A record that is being prepared by mv_start. -/
structure Candidate (c : MediaSession) : Prop where
  sessionId : msUuid c.sessionId = true
  sn : c.sn ≠ [] ∧ c.sn.length < 128
  modern : modern c = true
  request : ∃ r, c.v2Request = some r ∧ Transcribes c r
  pin : c.pin.length < 513

/-- The members of a candidate that the server's own choices leave alone. -/
structure SameRequest (c d : MediaSession) : Prop where
  sessionId : d.sessionId = c.sessionId
  operationId : d.operationId = c.operationId
  leaseId : d.leaseId = c.leaseId
  streamInstanceId : d.streamInstanceId = c.streamInstanceId
  sn : d.sn = c.sn
  contractVersion : d.contractVersion = c.contractVersion
  cameraSource : d.cameraSource = c.cameraSource
  descriptor : d.descriptor = c.descriptor
  v2Request : d.v2Request = c.v2Request

variable {p : Policy} {c : MediaSession} {w w' : World} {r : MediaStart}

variable {c d : MediaSession} {w : World}

theorem Transcribes.request (h : Transcribes c r) (hr : SameRequest c d) :
    Transcribes d r :=
  ⟨h.admitted, hr.contractVersion.trans h.contractVersion, hr.cameraSource.trans h.cameraSource, hr.sessionId.trans h.sessionId,
    hr.operationId.trans h.operationId, hr.leaseId.trans h.leaseId, hr.sn.trans h.sn,
    hr.streamInstanceId.trans h.streamInstanceId, hr.descriptor.trans h.descriptor⟩

theorem msUuid_length {id : CString} (h : msUuid id = true) : id.length = 36 := by
  simp only [msUuid, Bool.and_eq_true, beq_iff_eq] at h
  exact h.1

theorem Candidate.named (h : Candidate c) : c.sessionId ≠ [] ∧ c.sessionId.length < 64 := by
  have hlen := msUuid_length h.sessionId
  refine ⟨?_, by omega⟩
  intro he
  rw [he] at hlen
  exact absurd hlen (by simp)

theorem Candidate.same (h : Candidate c) (hr : SameRequest c d) (hpin : d.pin.length < 513) :
    Candidate d where
  sessionId := hr.sessionId ▸ h.sessionId
  sn := hr.sn ▸ h.sn
  modern := by
    simp only [State.modern, hr.contractVersion]
    exact h.modern
  request := by
    obtain ⟨r, he, ht⟩ := h.request
    exact ⟨r, hr.v2Request.trans he, Transcribes.request ht hr⟩
  pin := hpin

theorem filled_transcribes (h : Admitted r) : Transcribes (filled r) r := by
  have h1 := msUuid_length h.sessionId
  have h2 := msUuid_length h.operationId
  have h3 := msUuid_length h.leaseId
  have h4 := msUuid_length h.streamInstanceId
  have h5 := h.snLength
  refine ⟨h, rfl, rfl, ?_, ?_, ?_, ?_, ?_, rfl⟩ <;> exact safeStrcpy_of_lt (by omega)

theorem safeStrcpy_length (size : Nat) (s : CString) (h : 0 < size) : (safeStrcpy size s).length < size := by
  simp only [safeStrcpy, List.length_take]
  omega

theorem filled_candidate (hr : Admitted r) : Candidate (filled r) := by
  have ht := filled_transcribes hr
  have hsn : r.sn ≠ [] := by
    intro he
    have := hr.sn
    rw [he] at this
    exact absurd this (by decide)
  have hsize := hr.snLength
  refine ⟨ht.sessionId ▸ hr.sessionId, ?_, ?_, ⟨r, rfl, ht⟩, safeStrcpy_length 513 _ (by decide)⟩
  · rw [ht.sn]
    exact ⟨hsn, by omega⟩
  · rcases hr.contract with h | h <;> simp [State.modern, filled, h]

theorem mvFill_some (h : mvFill w r = some c) : c = filled r := by
  simp only [mvFill] at h
  split at h
  · exact absurd h (by simp)
  · exact (Option.some.inj h).symm

structure Vacant (w : World) (c : MediaSession) : Prop where
  sane : Sane (registry w)
  candidate : Candidate c
  fresh : ∀ j, (session w j).sessionId ≠ c.sessionId

theorem Vacant.same (h : Vacant w c) (hr : SameRequest c d)
    (hpin : d.pin.length < 513) : Vacant w d where
  sane := h.sane
  candidate := h.candidate.same hr hpin
  fresh j := hr.sessionId ▸ h.fresh j

theorem Vacant.quiet (h : Vacant w c) (hq : Quiet w w') : Vacant w' c where
  sane := hq.registry_eq ▸ h.sane
  candidate := h.candidate
  fresh j := by
    rw [hq.session_eq]
    exact h.fresh j

theorem Vacant.vacates {i : Nat} (h : Vacant w c) (hv : Vacates w i w') :
    Vacant w' c where
  sane := (hv.path (p := anything) fun _ => trivial).sane h.sane
  candidate := h.candidate
  fresh j he := by
    rcases hv.slot j with hs | hs
    · exact h.fresh j (hs ▸ he)
    · rw [hs] at he
      exact h.candidate.named.1 he.symm

theorem fenced_request (c : MediaSession) (epoch : Nat) : SameRequest c (fenced c epoch) := by
  simp only [fenced]
  split <;> constructor <;> rfl

/-- What the server has chosen for a candidate. -/
structure Assigned (c : MediaSession) : Prop where
  starting : c.state = .starting
  mountpointId : c.mountpointId < 2 ^ 32
  routeGeneration : c.routeGeneration < 2 ^ 32
  rtpPort : 1 ≤ c.rtpPort ∧ c.rtpPort ≤ 65535
  rtcpPort : 1 ≤ c.rtcpPort ∧ c.rtcpPort ≤ 65535

theorem Assigned.documented (h : Assigned c) (hc : Candidate c) : Documented c :=
  ⟨hc.request, hc.pin, h.mountpointId, h.routeGeneration, h.rtpPort, h.rtcpPort⟩

theorem Assigned.fenced (h : Assigned c) (epoch : Nat) : Assigned (fenced c epoch) := by
  simp only [MediaV2.fenced]
  split
  · exact ⟨h.starting, h.mountpointId, h.routeGeneration, h.rtpPort, h.rtcpPort⟩
  · exact h

theorem mvChecked_path (w : World) (i : Nat) : Path p (registry w) (registry (mvChecked w i).2) := by
  have hexp : Path p (registry w) (registry (expireMediaSession (advance w) i (now w))) :=
    expireMediaSession_path (advance w) i (now w)
  simp only [mvChecked]
  split
  · exact hexp
  · rw [((mvPersist_quiet _ _).trans (countStarted_quiet _)).registry_eq]
    exact hexp

theorem revokeSn_path (w : World) (sn : CString) :
    Path p (registry w) (registry (mediaRevokeCameraClients w sn)) := by
  have he : registry (mediaRevokeCameraClients w sn) = { registry w with
      clients := w.clients.map fun c => if (c.sn == sn) = true then { c with cameraRouteRevoked := true } else c } := by
    simp only [mediaRevokeCameraClients, beq_iff_eq]
    rfl
  rw [he]
  exact .single (Move.revoke fun c => c.sn == sn)

theorem limitKeyframes_path (w : World) (sn : CString) :
    Path p (registry w) (registry (limitKeyframes w sn)) := by
  refine .single (Move.recount (fun c => if c.sn = sn then { c with keyframeFeedbackIntervalMs := 500 } else c) ?_)
  intro c
  split
  · constructor <;> rfl
  · exact .refl c

structure TakesOver (w : World) (c : MediaSession) (w' : World) : Prop where
  sessions : w'.sessions = w.sessions
  routes : w'.routes = w.routes
  fence : c.cameraSource = true → ∀ d ∈ w'.clients, d.sn = c.sn → d.cameraRouteRevoked = true

theorem takeOver_spec (w : World) (c : MediaSession) : TakesOver w c (takeOver w c) := by
  simp only [takeOver]
  split
  · refine ⟨rfl, rfl, fun _ d hd hsn => ?_⟩
    obtain ⟨d₀, _, rfl⟩ := List.mem_map.mp hd
    by_cases h₀ : d₀.sn = c.sn
    · simp [h₀]
    · simp [h₀] at hsn
  next hcam => exact ⟨rfl, rfl, fun h => absurd h hcam⟩

theorem takeOver_path (w : World) (c : MediaSession) :
    Path p (registry w) (registry (takeOver w c)) := by
  simp only [takeOver]
  split
  · exact revokeSn_path w c.sn
  · exact .refl

theorem TakesOver.session_eq (h : TakesOver w c w') : session w' = session w := by
  funext j
  simp only [session, h.sessions]

structure Available (p : Policy) (w : World) (c : MediaSession) : Prop extends Vacant w c, Assigned c where
  device : ∀ j, live (session w j) = true → (session w j).sn ≠ c.sn
  ports : PortsFree p w c.rtpPort c.rtcpPort

theorem TakesOver.opens {i : Nat} (h : TakesOver w c w')
    (hc : Available p w c) (hv : (session w i).state = .empty) : Opens p (registry w') i c := by
  have hs : (registry w').slots = session w := h.session_eq
  refine ⟨⟨?_, hc.candidate.named, hc.candidate.sn, fun _ => hc.candidate.modern, fun _ => hc.candidate.sessionId,
    fun _ => hc.toAssigned.documented hc.candidate, ?_⟩, hc.starting, ?_, ?_, h.fence⟩
  · rw [hs]
    exact hv
  · intro j he
    rw [hs] at he
    exact absurd he (hc.fresh j)
  · intro j hl he
    rw [hs] at hl he
    exact absurd he (hc.device j hl)
  · have hports := hc.ports
    simp only [PortsFree, ← h.routes] at hports
    rw [hs]
    exact hports

theorem mvCommit_path (w : World) (i : Nat) (c : MediaSession) (hi : i < w.sessions.length)
    (hc : Available p w (fenced c w.nextEpoch)) (hv : (session w i).state = .empty) :
    Path p (registry w) (registry (mvCommit w i c).2) := by
  simp only [mvCommit]
  generalize fenced c w.nextEpoch = d at hc ⊢
  have htake := takeOver_spec w d
  apply (takeOver_path w d).trans
  generalize takeOver w d = w₁ at htake ⊢
  have ho := htake.opens hc hv
  cases hup : upsertRoute w₁ d.sn d.rtpPort d.rtcpPort with
  | none => exact (janusSend_quiet _ _).path
  | some w₂ =>
      dsimp only
      refine .trans ?_ ((limitKeyframes_path _ d.sn).trans (mvChecked_path _ i))
      obtain rfl := upsertRoute_some hup
      rw [registry_setSession _ i d (by rw [htake.sessions]; exact hi)]
      exact .single (Move.start i d ho)

theorem Available.quiet (h : Available p w c) (hq : Quiet w w') :
    Available p w' c where
  toVacant := h.toVacant.quiet hq
  toAssigned := h.toAssigned
  device j := by
    rw [hq.session_eq]
    exact h.device j
  ports := by
    have hports := h.ports
    rwa [PortsFree, ← hq.routes, ← hq.session_eq] at hports

theorem Available.fenced (h : Available p w c) (epoch : Nat) :
    Available p w (fenced c epoch) := by
  have hr := fenced_request c epoch
  have hpin : (MediaV2.fenced c epoch).pin.length < 513 := by
    simp only [MediaV2.fenced]
    split <;> exact h.candidate.pin
  refine ⟨h.toVacant.same hr hpin, h.toAssigned.fenced epoch, ?_, ?_⟩
  · rw [hr.sn]
    exact h.device
  · have hports := h.ports
    simp only [MediaV2.fenced]
    split <;> exact hports

theorem mvReadBack_path (w : World) (i : Nat) (c : MediaSession) (hi : i < w.sessions.length)
    (hc : Available p w c) (hv : (session w i).state = .empty) :
    Path p (registry w) (registry (mvReadBack w i c).2) := by
  simp only [mvReadBack]
  have hq := mvEnsure_quiet w c
  generalize mvEnsure w c = answer at hq ⊢
  obtain ⟨outcome, w₁⟩ := answer
  have hq₁ : Quiet w w₁ := hq
  cases outcome with
  | ready =>
      refine hq₁.path.trans (mvCommit_path w₁ i c ?_ ((hc.quiet hq₁).fenced _) ?_)
      · rw [hq₁.sessions]
        exact hi
      · rw [hq₁.session_eq]
        exact hv
  | unavailable | conflict => exact (hq₁.trans (janusSend_quiet _ _)).path

theorem mvCreate_path (w : World) (i : Nat) (c : MediaSession) (t : Track) (hi : i < w.sessions.length)
    (hc : Available p w c) (hv : (session w i).state = .empty) :
    Path p (registry w) (registry (mvCreate w i c t).2) := by
  simp only [mvCreate]
  have hq := janusSend_quiet w (.info c.mountpointId)
  split
  · exact hq.path
  · split
    · exact hq.path
    · have hq₂ := hq.trans (janusCreateFormat_quiet (janusSend w (.info c.mountpointId)) c.mountpointId c.rtpPort
        c.rtcpPort c.pin t.codec t.payloadType (safeStrcpy 256 (mvFmtp t)))
      generalize janusCreateFormat (janusSend w (.info c.mountpointId)) c.mountpointId c.rtpPort c.rtcpPort c.pin t.codec
        t.payloadType (safeStrcpy 256 (mvFmtp t)) = answer at hq₂ ⊢
      obtain ⟨created, w₂⟩ := answer
      have hq₁ : Quiet w w₂ := hq₂
      cases created with
      | false => exact hq₁.path
      | true =>
          refine hq₁.path.trans (mvReadBack_path w₂ i c ?_ (hc.quiet hq₁) ?_)
          · rw [hq₁.sessions]
            exact hi
          · rw [hq₁.session_eq]
            exact hv

theorem portPool_range {port : Int} (h : port ∈ portPool) : 6010 ≤ port ∧ port ≤ 6200 := by
  have hall : ∀ port ∈ portPool, 6010 ≤ port ∧ port ≤ 6200 := by decide
  exact hall port h

theorem mvRecord_assigned (c : MediaSession) {rtp rtcp : Int} {generation : Nat} (now deadline : Int)
    (hrtp : rtp ∈ portPool) (hrtcp : rtcp = rtp + 1) (hg : generation ≤ int32Max) :
    Assigned (mvRecord c rtp rtcp generation now deadline) := by
  have hrange := portPool_range hrtp
  simp only [int32Max] at hg
  refine ⟨rfl, ?_, ?_, ?_, ?_⟩ <;> simp only [mvRecord] <;> omega

theorem mvAllocate_path (w : World) (c : MediaSession) (r : MediaStart) (t : Int) (hc : Vacant w c)
    (hdevice : ∀ j, live (session w j) = true → (session w j).sn ≠ c.sn) (hevict : ∀ i, Evicts w i → p.evict i) :
    Path p (registry w) (registry (mvAllocate w c r t).2) := by
  simp only [mvAllocate]
  cases hports : allocatePortPair w with
  | none => exact .refl
  | some pair =>
      dsimp only
      cases hslot : allocateSessionSlot w with
      | none => exact .refl
      | some slot =>
          obtain ⟨i, w₁⟩ := slot
          have hv := allocateSessionSlot_spec hslot
          dsimp only
          apply (hv.path fun hf => hevict i ⟨w, w₁, .refl w, hslot, hf⟩).trans
          split
          · exact .refl
          next hgeneration =>
            have hq : Quiet w₁ (nextRouteGeneration w₁) := by constructor <;> rfl
            have hfree := allocatePortPair_some hports
            refine hq.path.trans (mvCreate_path _ i _ _ hv.lt ⟨?_, ?_, ?_, ?_⟩ hv.vacant)
            · exact ((hc.vacates hv).quiet hq).same (by constructor <;> rfl) hc.candidate.pin
            · exact mvRecord_assigned c t r.leaseExpiresAt (allocatePortPair_pool hports) hfree.1
                (Nat.succ_le_of_lt (Nat.lt_of_not_le hgeneration))
            · intro j hl
              have he := hv.live j hl
              change live (session w₁ j) = true at hl
              change (session w₁ j).sn ≠ c.sn
              rw [he] at hl ⊢
              exact hdevice j hl
            · exact hv.portsFree (.inr hfree)

theorem mvRandomPin_length {pin : CString} (h : mvRandomPin w = some pin) : pin.length = 48 := by
  obtain ⟨random, _, rfl⟩ := Option.map_eq_some_iff.mp h
  simp

theorem mvPin_path (w : World) (c : MediaSession) (r : MediaStart) (t : Int) (hc : Vacant w c)
    (hdevice : ∀ j, live (session w j) = true → (session w j).sn ≠ c.sn) (hevict : ∀ i, Evicts w i → p.evict i) :
    Path p (registry w) (registry (mvPin w c r t).2) := by
  simp only [mvPin]
  split
  · exact mvAllocate_path w c r t hc hdevice hevict
  · split
    · exact .refl
    next pin hpin =>
      have hlen := mvRandomPin_length hpin
      have hc₁ : Vacant (advance w) { c with pin := pin } :=
        (hc.quiet (advance_quiet w)).same (by constructor <;> rfl) (by simp only; omega)
      exact mvAllocate_path (advance w) _ r t hc₁ hdevice fun i he => hevict i ((advance_quiet w).settles.evicts he)

theorem Vacant.settles (h : Vacant w c) (hset : Settles w w')
    (hs : Sane (registry w')) : Vacant w' c where
  sane := hs
  candidate := h.candidate
  fresh j := by
    rw [(hset.identity j).sessionId]
    exact h.fresh j

theorem mvAdmit_path (w : World) (c : MediaSession) (r : MediaStart) (t : Int) (hc : Vacant w c)
    (hevict : ∀ i, Evicts w i → p.evict i) :
    Path p (registry w) (registry (mvAdmit w c r t).2) := by
  simp only [mvAdmit]
  have hpath := expireOptional_path (p := p) w (findActiveSessionForSn w c.sn) t
  have hset := expireOptional_settles w (findActiveSessionForSn w c.sn) t
  have hc₁ := hc.settles hset (hpath.sane hc.sane)
  have hevict₁ := fun i he => hevict i (hset.evicts (i := i) he)
  apply hpath.trans
  generalize expireOptional w (findActiveSessionForSn w c.sn) t = w₁ at hc₁ hevict₁ ⊢
  split
  · exact .refl
  next hfree =>
    split
    · exact .refl
    · refine mvPin_path w₁ c r t hc₁ (fun j hl => ?_) hevict₁
      exact findActiveSessionForSn_none hc.candidate.sn.1 (by simpa using hfree) j hl

theorem mvFresh_path (w : World) (c : MediaSession) (r : MediaStart) (t : Int) (hc : Vacant w c)
    (hevict : ∀ i, Evicts w i → p.evict i) :
    Path p (registry w) (registry (mvFresh w c r t).2) := by
  simp only [mvFresh]
  split
  · obtain ⟨hclock, hcase⟩ := begin_cases w c r.leaseExpiresAt
    have hq := Quiet.of_clockOnly hclock
    generalize mediaV3BeginDeadline w c r.leaseExpiresAt = answer at hq hcase ⊢
    obtain ⟨accepted, w₁⟩ := answer
    have hq₁ : Quiet w w₁ := hq
    obtain rfl | ⟨d, rfl, _, _⟩ := hcase
    · exact hq₁.path
    · have hc₁ := (hc.quiet hq₁).same (d := { c with issuerExpiryUtc := r.leaseExpiresAt, monotonicDeadlineMs := d })
        (by constructor <;> rfl) hc.candidate.pin
      exact hq₁.path.trans (mvAdmit_path w₁ _ r t hc₁ fun i he => hevict i (hq₁.settles.evicts he))
  · exact mvAdmit_path w c r t hc hevict

theorem mvReplay_path (w : World) (i : Nat) (c : MediaSession) (r : MediaStart) (t : Int) :
    Path p (registry w) (registry (mvReplay w i c r t).2) := by
  simp only [mvReplay]
  split
  · exact .refl
  · apply (expireMediaSession_path w i t).trans
    generalize expireMediaSession w i t = w₁
    split
    · have hq := mvEnsure_quiet w₁ (session w₁ i)
      generalize mvEnsure w₁ (session w₁ i) = answer at hq ⊢
      obtain ⟨outcome, w₂⟩ := answer
      have hq₁ : Quiet w₁ w₂ := hq
      cases outcome <;> exact hq₁.path
    · exact .refl

theorem mvStart_path (w : World) (r : MediaStart) (hr : Admitted r) (hs : Sane (registry w))
    (hevict : ∀ i, Evicts w i → p.evict i) :
    Path p (registry w) (registry (mvStart w r).2) := by
  simp only [mvStart]
  cases hfill : mvFill (advance w) r with
  | none => exact .refl
  | some c =>
      have hcand : Candidate c := mvFill_some hfill ▸ filled_candidate hr
      dsimp only
      split
      · exact .refl
      · split
        · exact .refl
        · cases hfind : findSessionById (advance w) c.sessionId with
          | some i => exact mvReplay_path (advance w) i c r _
          | none =>
              refine mvFresh_path (advance w) c r _ ⟨hs, hcand, findSessionById_none hcand.named.1 hfind⟩ fun i he => ?_
              exact hevict i ((advance_quiet w).settles.evicts he)

theorem mediaV2Start_path (w : World) (negotiated : Bool) (r : AdmittedStart) (hs : Sane (registry w))
    (hevict : ∀ i, Evicts w i → p.evict i) :
    Path p (registry w) (registry (mediaV2Start w negotiated r.1).2) := by
  simp only [mediaV2Start]
  split
  · exact .refl
  · exact mvStart_path w r.1 r.2 hs hevict

theorem mvRenewed_path (w : World) (i : Nat) (s : MediaSession) (t : Int) (hi : i < w.sessions.length)
    (hl : live (session w i) = true) (hs : SameIdentity (session w i) s) (hst : live s = true) :
    Path p (registry w) (registry (mvRenewed w i s t).2) := by
  simp only [mvRenewed]
  rw [(mvPersist_quiet _ _).registry_eq]
  exact touch_path w i _ hi hl hst (hs.trans (renewed_identity _ _ _))

theorem mvRenew_path (w : World) (i : Nat) (deadline : Int) (hi : i < w.sessions.length) :
    Path p (registry w) (registry (mvRenew w i deadline).2) := by
  simp only [mvRenew]
  split
  · exact .refl
  next hlive =>
    have hl : live (session (advance w) i) = true := by simpa using hlive
    split
    · obtain ⟨hclock, hcase⟩ := renew_cases (advance w) (session (advance w) i) deadline
      have hq := Quiet.of_clockOnly hclock
      generalize mediaV3RenewDeadline (advance w) (session (advance w) i) deadline = answer at hq hcase ⊢
      obtain ⟨accepted, w₁⟩ := answer
      have hq₁ : Quiet (advance w) w₁ := hq
      have hi₁ : i < w₁.sessions.length := by rw [hq₁.sessions]; exact hi
      have hl₁ : live (session w₁ i) = true := by rw [hq₁.session_eq]; exact hl
      obtain rfl | ⟨rfl, _⟩ | ⟨d, ttl, rfl, _⟩ := hcase
      · exact hq₁.path
      · refine hq₁.path.trans (mvRenewed_path w₁ i _ _ hi₁ hl₁ ?_ hl)
        rw [hq₁.session_eq]
        exact .refl _
      · refine hq₁.path.trans (mvRenewed_path w₁ i _ _ hi₁ hl₁ ?_ hl)
        rw [hq₁.session_eq]
        constructor <;> rfl
    · split
      · exact .refl
      · exact mvRenewed_path (advance w) i _ _ hi hl (renewed_identity _ _ _) hl

theorem mvHealth_quiet (w : World) (s : MediaSession) : Quiet w (mvHealth w s).2 := by
  simp only [mvHealth]
  split
  · exact .refl w
  · split
    · exact .refl w
    · split
      · exact readMonotonic_quiet w
      · split
        · exact .refl w
        · exact advance_quiet w

theorem modern_state {r : Registry} (h : Sane r) {i : Nat} (hm : modern (r.slots i) = true) :
    live (r.slots i) = true ∨ (r.slots i).state = .stopped := by
  have hwf := h.record i
  have h1 : (r.slots i).state ≠ .empty := by
    intro he
    rw [hwf.zero he] at hm
    exact absurd hm (by decide)
  have h2 := hwf.settled
  have h3 := hwf.proper hm
  rw [live_iff]
  cases hstate : (r.slots i).state <;> simp_all

theorem mvUpdate_path (w : World) (r : MediaUpdate) (negotiated : Bool) (hs : Sane (registry w)) :
    Path p (registry w) (registry (mvUpdate w r negotiated).2) := by
  simp only [mvUpdate]
  cases hfind : findSessionById w r.sessionId with
  | none => exact .refl
  | some i =>
      dsimp only
      split
      · exact .refl
      next hident =>
        split
        · exact .refl
        · have hmod : modern (session w i) = true := by
            simp only [mvIdentity, Bool.not_eq_false, Bool.and_eq_true] at hident
            exact hident.1.1.1.1.1.1
          have hpath : Path p (registry w) (registry (expireMediaSession (advance w) i (now w))) :=
            expireMediaSession_path (advance w) i (now w)
          have hset : Settles w (expireMediaSession (advance w) i (now w)) :=
            (advance_quiet w).settles.trans (expireMediaSession_settles (advance w) i (now w))
          apply hpath.trans
          have hs₁ := hpath.sane hs
          generalize expireMediaSession (advance w) i (now w) = w₁ at hs₁ hset ⊢
          have hmod₁ : modern (session w₁ i) = true := by
            rw [(hset.identity i).modern_eq]
            exact hmod
          have hi₁ : i < w₁.sessions.length := by
            rw [hset.length]
            exact (findSessionById_some hfind).1
          cases r.kind with
          | stop reason =>
              dsimp only
              rw [(mvPersist_quiet _ _).registry_eq]
              refine stopMediaSession_path w₁ _ reason fun j hj hstate => .inr (.inl ⟨i, ?_, rfl⟩)
              rcases modern_state hs₁ hmod₁ with hl | hst
              · exact hl
              · obtain ⟨_, hid, hne⟩ := findSessionById_some hj
                by_cases hij : i = j
                · subst hij
                  exact absurd hst hstate
                · have := ((hs₁.pair hij).id hid.symm hne).1
                  change modern (session w₁ i) = false at this
                  rw [hmod₁] at this
                  exact absurd this (by simp)
          | renew deadline => exact mvRenew_path w₁ i deadline hi₁
          | health => exact (mvHealth_quiet w₁ _).path

end EtranProcessing.Ingress.ModernPaths
