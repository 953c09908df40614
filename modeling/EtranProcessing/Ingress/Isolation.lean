import EtranProcessing.Ingress.CameraFence
import EtranProcessing.Ingress.Footprint

namespace EtranProcessing.Ingress.Isolation

open State Clock JsonText Stores Lifecycle MediaV2 Control EventLoop Moves Settling LegacyPaths Refinement
open SessionTable CameraFence Footprint

def Overdue (w : World) (s : MediaSession) : Prop := live s = true ∧ leaseOver (advance w) s (now w) = true

/-- What the end of its lease makes of a record. -/
def Lapsed (s t : MediaSession) : Prop :=
  ∃ stoppedAt packets total last, t = { s with
    state := .stopped
    stoppedAt := stoppedAt
    stopReason := bytes "ttl_expired"
    finalRtpPackets := packets
    finalBytes := total
    lastRtpAt := last }

/-- A request leaves slot j and the stored record of its session as they are.
What it may do is to end a lease that is over, and to reuse the slot of a
finished record when all slots are in use. -/
structure Isolated (late reuse : Prop) (j : Nat) (w w' : World) : Prop where
  stored : ¬ late → redisGet w' (.session (session w j).sessionId) = redisGet w (.session (session w j).sessionId)
  record : session w' j = session w j ∨ late ∧ Lapsed (session w j) (session w' j) ∨
    reuse ∧ maxMediaSessions ≤ w.sessions.length ∧ (finished (session w j) = true ∨ late)

section Modern

variable {w : World} {j : Nat}

variable {late reuse : Prop} {r : StartRequest}

theorem Isolated.of_untouched {w' : World} (h : Untouched (· = j) (session w j).sessionId w w') :
    Isolated late reuse j w w' :=
  ⟨fun _ => h.stored, .inl (h.record j rfl)⟩

theorem named_self (w : World) (j : Nat) : Named (· = j) (session w j).sessionId w := by
  rintro i rfl
  rfl

theorem modern_named (hs : Sane (registry w)) (hm : modern (session w j) = true) : (session w j).sessionId ≠ [] := by
  have huuid : msUuid (session w j).sessionId = true := (hs.record j).uuid hm
  intro hnil
  rw [hnil] at huuid
  exact absurd huuid (by decide)

theorem modern_unique (hs : Sane (registry w)) (hm : modern (session w j) = true) {i : Nat}
    (hi : (session w i).sessionId = (session w j).sessionId) : i = j := by
  by_contra hij
  have hpair := (hs.pair hij).id hi
  have hlegacy := (hpair (hi ▸ modern_named hs hm)).2
  exact absurd (hm.symm.trans hlegacy) (by simp)

theorem modern_resolves (hs : Sane (registry w)) (hm : modern (session w j) = true) :
    findSessionById w (session w j).sessionId = some j := by
  cases hfind : findSessionById w (session w j).sessionId with
  | none => exact absurd rfl (findSessionById_none (modern_named hs hm) hfind j)
  | some i => rw [modern_unique hs hm (findSessionById_some hfind).2.1]

theorem stoppedRecord_lapsed (w : World) (i : Nat) : Lapsed (session w i) (stoppedRecord w i (bytes "ttl_expired")) := by
  simp only [stoppedRecord, harvest]
  split
  · exact ⟨_, _, _, _, rfl⟩
  · exact ⟨_, _, _, _, rfl⟩

theorem startPorts_isolated (hs : Sane (registry w)) (hm : modern (session w j) = true)
    (hr : Legible r) (hne : r.fields.sessionId ≠ (session w j).sessionId) (late : Prop) :
    Isolated late True j w (startPorts w r).2 := by
  by_cases hslot : ∀ i w₁, allocateSessionSlot w = some (i, w₁) → i ≠ j
  · exact .of_untouched (startPorts_untouched (named_self w j) hr hne hslot)
  · push Not at hslot
    obtain ⟨i, w₁, halloc, rfl⟩ := hslot
    have hnone : Named (fun _ => False) (session w i).sessionId w := fun _ h => h.elim
    have hstored := startPorts_untouched hnone hr hne fun _ _ _ h => h
    refine ⟨fun _ => hstored.stored, .inr (.inr ?_)⟩
    have hvac := allocateSessionSlot_spec halloc
    rcases hvac.slots with hsame | ⟨⟨hfinished, hfull⟩, _⟩
    · have hempty := hvac.vacant
      rw [hsame] at hempty
      exact absurd hempty ((hs.record i).named (modern_named hs hm))
    · exact ⟨trivial, hfull, .inl hfinished⟩

theorem Isolated.after {w₁ w' : World} (h : Untouched (· = j) (session w j).sessionId w w₁)
    (hlen : w₁.sessions.length = w.sessions.length) (h' : Isolated late reuse j w₁ w') :
    Isolated late reuse j w w' := by
  obtain ⟨hstored, hrecord⟩ := h'
  rw [h.record j rfl] at hstored hrecord
  rw [hlen] at hrecord
  exact ⟨fun hover => (hstored hover).trans h.stored, hrecord⟩

theorem Isolated.lapsed {w₁ w' : World} (hover : late) (hl : Lapsed (session w j) (session w₁ j))
    (hlen : w₁.sessions.length = w.sessions.length) (h' : Isolated late reuse j w₁ w') :
    Isolated late reuse j w w' := by
  refine ⟨fun hnot => absurd hover hnot, ?_⟩
  rcases h'.record with hsame | ⟨_, _, _, _, _, hagain⟩ | ⟨hreuse, hfull, _⟩
  · exact .inr (.inl ⟨hover, hsame ▸ hl⟩)
  · obtain ⟨_, _, _, _, hfirst⟩ := hl
    rw [hfirst] at hagain
    exact .inr (.inl ⟨hover, _, _, _, _, hagain⟩)
  · exact .inr (.inr ⟨hreuse, hlen ▸ hfull, .inr hover⟩)

theorem expire_inTime {i : Nat} {t : Int} (h : ¬ (live (session w i) = true ∧ leaseOver w (session w i) t = true)) :
    ClockOnly w (expireMediaSession w i t) := by
  rcases expireMediaSession_spec w i t with ⟨_, hclock⟩ | ⟨hover, _⟩
  · exact hclock
  · exact absurd hover h

theorem expire_modern (hs : Sane (registry w)) (hm : modern (session w j) = true) (i : Nat) (t : Int) :
    Untouched (· = j) (session w j).sessionId w (expireMediaSession w i t) ∨
    (live (session w j) = true ∧ leaseOver w (session w j) t = true) ∧
      Lapsed (session w j) (session (expireMediaSession w i t) j) := by
  by_cases hij : i = j
  · subst hij
    by_cases hover : live (session w i) = true ∧ leaseOver w (session w i) t = true
    · obtain ⟨w₁, hclock, hrecord⟩ := expire_resolved (modern_resolves hs hm) hover.1 hover.2
      have hlapsed := stoppedRecord_lapsed w₁ i
      rw [(Quiet.of_clockOnly hclock).session_eq, ← hrecord] at hlapsed
      exact .inr ⟨hover, hlapsed⟩
    · exact .inl (.of_clock (expire_inTime hover))
  · refine .inl (expireMediaSession_untouched (named_self w j) t ?_)
    exact fun he => hij (modern_unique hs hm he)

theorem startFresh_isolated (hs : Sane (registry w)) (hm : modern (session w j) = true)
    (hr : Legible r) (hne : r.fields.sessionId ≠ (session w j).sessionId) :
    Isolated (live (session w j) = true ∧ leaseOver w (session w j) r.requestAt = true) True j w
      (startFresh w r).2 := by
  have hpath := expireOptional_path (p := anything) w (findActiveSessionForSn w r.fields.sn) r.requestAt
  have hset := expireOptional_settles w (findActiveSessionForSn w r.fields.sn) r.requestAt
  have hexp : Untouched (· = j) (session w j).sessionId w
      (expireOptional w (findActiveSessionForSn w r.fields.sn) r.requestAt) ∨
      (live (session w j) = true ∧ leaseOver w (session w j) r.requestAt = true) ∧
        Lapsed (session w j) (session (expireOptional w (findActiveSessionForSn w r.fields.sn) r.requestAt) j) := by
    cases findActiveSessionForSn w r.fields.sn with
    | none => exact .inl (.refl w)
    | some i => exact expire_modern hs hm i r.requestAt
  simp only [startFresh]
  generalize expireOptional w (findActiveSessionForSn w r.fields.sn) r.requestAt = w₁ at hpath hset hexp ⊢
  have hsane : Sane (registry w₁) := hpath.sane hs
  have hid := hset.identity j
  have hports (late : Prop) : Isolated late True j w₁ (startPorts w₁ r).2 :=
    startPorts_isolated hsane (hid.modern_eq.trans hm) hr (hid.sessionId ▸ hne) late
  have hthen {w' : World} (hrest : ∀ late, Isolated late True j w₁ w') :
      Isolated (live (session w j) = true ∧ leaseOver w (session w j) r.requestAt = true) True j w w' := by
    rcases hexp with huntouched | ⟨hover, hlapsed⟩
    · exact .after huntouched hset.length (hrest _)
    · exact .lapsed hover hlapsed hset.length (hrest _)
  split
  · split
    · exact hthen fun _ => .of_untouched (.refl w₁)
    · exact hthen hports
  · exact hthen hports

theorem startLookup_isolated (hs : Sane (registry w)) (hm : modern (session w j) = true)
    (hr : Legible r) (hne : r.fields.sessionId ≠ (session w j).sessionId) :
    Isolated (live (session w j) = true ∧ leaseOver w (session w j) r.requestAt = true) True j w
      (startLookup w r).2 := by
  simp only [startLookup]
  cases hfind : findSessionById w r.fields.sessionId with
  | none => exact startFresh_isolated hs hm hr hne
  | some i =>
      obtain ⟨_, hid, _⟩ := findSessionById_some hfind
      have hother : (session w i).sessionId ≠ (session w j).sessionId := hid ▸ hne
      have hexp : Untouched (· = j) (session w j).sessionId w (expireMediaSession w i r.requestAt) :=
        expireMediaSession_untouched (named_self w j) r.requestAt hother
      have hset := expireMediaSession_settles w i r.requestAt
      dsimp only
      split
      · exact .of_untouched hexp
      · split
        · refine .of_untouched (hexp.trans (startExisting_untouched (hexp.named (named_self w j)) r ?_))
          rw [(hset.identity i).sessionId]
          exact hother
        next hdead =>
          split
          · split
            · exact .of_untouched hexp
            · exact .of_untouched hexp
          next hst =>
            -- a record that is neither live nor STOPPED after its lease check was not live before it
            have hwas : live (session w i) = false := by
              by_contra hl
              rw [Bool.not_eq_false] at hl
              by_cases hover : leaseOver w (session w i) r.requestAt = true
              · obtain ⟨_, _, hrecord⟩ := expire_resolved (hid ▸ hfind) hl hover
                rw [hrecord] at hst
                exact hst rfl
              · have hclock := expire_inTime (t := r.requestAt) (w := w) (i := i) fun h => hover h.2
                rw [(Quiet.of_clockOnly hclock).session_eq] at hdead
                exact hdead hl
            have hsame : expireMediaSession w i r.requestAt = w := by simp [expireMediaSession, hwas]
            rw [hsame]
            exact startFresh_isolated hs hm hr hne

theorem handleMediaSessionStart_isolated (hs : Sane (registry w)) (hm : modern (session w j) = true) (body : CString)
    (hne : jsonGetString body "session_id" 64 ≠ (session w j).sessionId) :
    Isolated (Overdue w (session w j)) True j w (handleMediaSessionStart w body).2 := by
  have hclock : Untouched (· = j) (session w j).sessionId w (advance w) := .of_clock (advance_clockOnly w)
  simp only [handleMediaSessionStart]
  split
  · exact .of_untouched (.refl w)
  · split
    · exact .of_untouched (.refl w)
    next h =>
      simp only [not_or] at h
      split
      · exact .of_untouched hclock
      next ttl bound _ =>
        have hr : Legible ⟨startFields body, ttl, bound, now w⟩ :=
          ⟨⟨h.1, jsonGetString_length body "session_id" 64 (by decide)⟩,
            ⟨h.2, jsonGetString_length body "sn" 128 (by decide)⟩⟩
        exact .after hclock rfl (startLookup_isolated (w := advance w) hs hm hr hne)

theorem passed_id (hs : Sane (registry w)) (hm : modern (session w j) = true) {id : CString}
    (h : ownedByModern w (findSessionById w id) = false) : id ≠ (session w j).sessionId := by
  rintro rfl
  rw [modern_resolves hs hm] at h
  simp [ownedByModern, hm] at h

theorem passed_body (hs : Sane (registry w)) (hm : modern (session w j) = true) {path body : CString}
    (h : mediaV1Conflicts w path body = false) : jsonGetString body "session_id" 64 ≠ (session w j).sessionId := by
  intro he
  have hfound := modern_resolves hs hm
  simp only [mediaV1Conflicts, Bool.or_eq_false_iff, he, hfound] at h
  simp [ownedByModern, hm] at h

/-- The id of the body names a record of contract 1: then the guard does not
look at the device. -/
def NamesLegacy (w : World) (body : CString) : Prop :=
  ∃ i, findSessionById w (jsonGetString body "session_id" 64) = some i ∧ modern (session w i) = false

theorem passed_device (hs : Sane (registry w)) (hm : modern (session w j) = true) {path body : CString}
    (h : mediaV1Conflicts w path body = false) (hbody : ¬ NamesLegacy w body) {k : Nat}
    (hk : findActiveSessionForSn w (jsonGetString body "sn" 128) = some k) :
    (session w k).sessionId ≠ (session w j).sessionId := by
  intro he
  obtain rfl := modern_unique hs hm he
  simp only [mediaV1Conflicts, Bool.or_eq_false_iff] at h
  cases hid : findSessionById w (jsonGetString body "session_id" 64) with
  | none =>
      rw [hid] at h
      simp [hk, ownedByModern, hm] at h
  | some i =>
      rw [hid] at h
      exact hbody ⟨i, hid, by simpa [ownedByModern] using h.2⟩

end Modern

theorem splitAt?_some {keyword text before rest : CString} (h : splitAt? keyword text = some (before, rest)) :
    text = before ++ rest ∧ keyword <+: rest := by
  obtain ⟨tail, htail, he⟩ := Option.map_eq_some_iff.mp h
  obtain ⟨start, rfl, hprefix⟩ := strstr_split htail
  simp only [Prod.mk.injEq, List.length_append, Nat.add_sub_cancel, List.take_left] at he
  obtain ⟨rfl, rfl⟩ := he
  exact ⟨rfl, hprefix⟩

theorem msUuid_segment {id : CString} (h : msUuid id = true) : ∀ c ∈ id, (c != 47 && c != 63) = true := by
  simp only [msUuid, Bool.and_eq_true, List.all_eq_true] at h
  intro c hc
  obtain ⟨i, hi⟩ := List.mem_iff_getElem?.mp hc
  have hchar : (c == 45) = true ∨ isHexDigit c = true := by
    have hdigit := h.2 (c, i) (List.mk_mem_zipIdx_iff_getElem?.mpr hi)
    dsimp only at hdigit
    split at hdigit
    · exact .inl hdigit
    · exact .inr hdigit
  simp only [Bool.and_eq_true, bne_iff_ne, ne_eq]
  constructor
  · rintro rfl
    rcases hchar with h | h <;> exact absurd h (by decide)
  · rintro rfl
    rcases hchar with h | h <;> exact absurd h (by decide)

theorem pathId_uuid {path id tail : CString} (hpath : sessionPath path = some (id ++ tail)) (hid : msUuid id = true)
    (htail : ∀ c ∈ tail.head?, (c != 47 && c != 63) = false) : pathId path = id := by
  have hlen : id.length = 36 := ModernPaths.msUuid_length hid
  have hcut : (tail.take 27).takeWhile (fun c => c != 47 && c != 63) = [] := by
    cases tail with
    | nil => rfl
    | cons c tail => simp only [List.take_succ_cons, List.takeWhile_cons, htail c (by simp), Bool.false_eq_true, if_false]
  simp only [pathId, hpath, safeStrcpy, List.take_append, hlen]
  rw [List.take_of_length_le (by omega), List.takeWhile_append_of_pos (msUuid_segment hid), hcut, List.append_nil]

theorem pathId_split {path keyword rest segment tail : CString} (hpath : sessionPath path = some rest)
    (hkey : keyword.head? = some 47) (hsplit : splitAt? keyword rest = some (segment, tail))
    (hid : msUuid (safeStrcpy 64 segment) = true) : pathId path = safeStrcpy 64 segment := by
  obtain ⟨rfl, more, rfl⟩ := splitAt?_some hsplit
  have hlen := ModernPaths.msUuid_length hid
  simp only [safeStrcpy, List.length_take] at hlen
  rw [safeStrcpy_of_lt (by omega)] at hid ⊢
  apply pathId_uuid hpath hid
  intro c hc
  rw [List.head?_append, hkey] at hc
  obtain rfl := Option.some.inj hc
  rfl

def Endpoint.id? : Endpoint → Option CString
  | .renew id => some id
  | .health id => some id
  | .stop id => some id
  | _ => none

variable {path id : CString}

theorem postEndpoint_id (h : Endpoint.id? (postEndpoint path) = some id) (hid : msUuid id = true) :
    pathId path = id := by
  simp only [postEndpoint] at h
  split at h
  · simp [Endpoint.id?] at h
  · split at h
    · simp [Endpoint.id?] at h
    · split at h
      · simp [Endpoint.id?] at h
      · split at h
        · split at h <;> simp [Endpoint.id?] at h
        next rest hpath =>
          have hstop {segment tail : CString} (hsplit : splitAt? (bytes "/stop") rest = some (segment, tail))
              (h : Endpoint.id? (.stop (safeStrcpy 64 segment)) = some id) : pathId path = id := by
            obtain rfl := Option.some.inj h
            exact pathId_split hpath rfl hsplit hid
          split at h
          next segment tail hsplit =>
            split at h
            · obtain rfl := Option.some.inj h
              exact pathId_split hpath rfl hsplit hid
            · split at h
              next hsplit => exact hstop hsplit h
              · simp [Endpoint.id?] at h
          · split at h
            next hsplit => exact hstop hsplit h
            · simp [Endpoint.id?] at h

theorem getEndpoint_id (h : Endpoint.id? (getEndpoint path) = some id) (hid : msUuid id = true) :
    pathId path = id := by
  simp only [getEndpoint] at h
  split at h
  next rest hpath =>
    have hseg : (safeStrcpy 64 rest).takeWhile (fun c => c != 63) = id := Option.some.inj h
    have hnested := List.takeWhile_takeWhile (fun c : UInt8 => c != 47) (fun c => c != 63) (safeStrcpy 64 rest)
    have hwhole : id.takeWhile (fun c => c != 47) = id := by
      apply List.takeWhile_eq_self_iff.mpr
      intro c hc
      exact (Bool.and_eq_true_iff.mp (msUuid_segment hid c hc)).1
    simp only [pathId, hpath]
    simp only [hseg, hwhole, Bool.decide_and, Bool.decide_coe] at hnested
    exact hnested.symm
  · split at h <;> simp [Endpoint.id?] at h

theorem endpoint_id {method : Method} (h : Endpoint.id? (endpoint method path) = some id)
    (hid : msUuid id = true) : pathId path = id := by
  cases method with
  | post => exact postEndpoint_id h hid
  | get => exact getEndpoint_id h hid
  | _ => simp [endpoint, Endpoint.id?] at h

theorem Isolated.reusing {late reuse : Prop} {j : Nat} {w w' : World} (hreuse : reuse) (h : Isolated late True j w w') :
    Isolated late reuse j w w' := by
  refine ⟨h.stored, ?_⟩
  rcases h.record with hsame | hlapsed | ⟨_, hreused⟩
  · exact .inl hsame
  · exact .inr (.inl hlapsed)
  · exact .inr (.inr ⟨hreuse, hreused⟩)

theorem serve_isolated {w : World} {j : Nat} (hs : Sane (registry w)) (hm : modern (session w j) = true)
    {method : Method} {path body : CString} (hpass : mediaV1Conflicts w path body = false)
    (hbody : endpoint method path = .stopBySn ∨ endpoint method path = .renewBySn → ¬ NamesLegacy w body) :
    Isolated (Overdue w (session w j)) (endpoint method path = .start) j w
      (serve w body (endpoint method path)).2 := by
  have huuid : msUuid (session w j).sessionId = true := (hs.record j).uuid hm
  have hnamed := named_self w j
  have hpathId : pathId path ≠ (session w j).sessionId := by
    simp only [mediaV1Conflicts, Bool.or_eq_false_iff] at hpass
    exact passed_id hs hm hpass.1
  have hother {id : CString} (he : Endpoint.id? (endpoint method path) = some id) : id ≠ (session w j).sessionId := by
    rintro rfl
    exact hpathId (endpoint_id he huuid)
  cases hend : endpoint method path with
  | start => exact .reusing rfl (handleMediaSessionStart_isolated hs hm body (passed_body hs hm hpass))
  | stopBySn =>
      apply Isolated.of_untouched
      simp only [serve, stopMediaSessionForSn]
      split
      · exact .refl w
      · split
        · exact .refl w
        next k hk =>
          split
          · exact .refl w
          · exact stopMediaSession_untouched hnamed _ (passed_device hs hm hpass (hbody (.inl hend)) hk)
  | renewBySn =>
      apply Isolated.of_untouched
      simp only [serve, renewMediaSessionForSn]
      split
      · exact .refl w
      next k hk => exact renewMediaSession_untouched hnamed body (passed_device hs hm hpass (hbody (.inr hend)) hk)
  | renew id =>
      exact .of_untouched (renewMediaSession_untouched hnamed body (hother (by rw [hend]; rfl)))
  | health id =>
      exact .of_untouched (getMediaSessionHealth_untouched hnamed (hother (by rw [hend]; rfl)))
  | stop id =>
      exact .of_untouched (stopMediaSession_untouched hnamed _ (hother (by rw [hend]; rfl)))
  | reconcile => exact .of_untouched (reconcileResources_untouched w)
  | metrics => exact .of_untouched (.of_clock (advance_clockOnly w))
  | unknown => exact .of_untouched (.refl w)

def cameraDoor : World := run cameraWorld (cameraEvents.take 2)

def stopDoorBody : CString := bytes "\x7b\"sn\":\"door\",\"lease_id\":\"00000000-0000-0000-0000-000000000001\"\x7d"

def fickleJanus : World := { env := sampleEnv fun tick => decide (tick ≠ 12) }

def desktopRequest : MediaStart :=
  { cameraRequest with contractVersion := 2, descriptor := ⟨[], uuid "5", bytes "desktop", none, cameraTrack⟩ }

theorem desktopRequest_admitted : Admitted desktopRequest := by decide

def startWithPorts (id sn : String) : CString :=
  bytes ("\x7b\"session_id\":\"" ++ id ++ "\",\"sn\":\"" ++ sn ++ "\",\"rtp_port\":1,\"rtcp_port\":2\x7d")

/-- A contract 2 session that was stopped, and a table that is full of live
sessions otherwise. -/
def crowdedTable : World :=
  run fickleJanus ([.start false ⟨desktopRequest, by decide⟩,
    .update false ⟨2, bytes "door", uuid "1", uuid "3", uuid "4", uuid "5", .stop []⟩] ++
    List.replicate 128 (.v1 .post (sessionsPrefix ++ bytes "start") (startWithPorts "a" "gate")))

def refusedGate : World :=
  run cameraWorld (cameraEvents.take 2 ++ [post "start" "\x7b\"session_id\":\"a\",\"sn\":\"gate\"\x7d"])

end EtranProcessing.Ingress.Isolation
