import EtranProcessing.Ingress.Isolation

namespace EtranProcessing.Ingress.Restart

open Library.Tables Library.Runs
open State Clock Routes Stores Lifecycle MediaV2 EventLoop Moves Settling ModernPaths Refinement
open SessionTable CameraFence Footprint Isolation

/-- A stored monotonic deadline is taken up again only under the boot id it was
stored with. The deadline itself is kept either way. -/
def mvRestoreDeadline (w : World) (s : MediaSession) (p : PersistedSession) (expiry : Int) :
    Bool × MediaSession × World :=
  let s := { s with issuerExpiryUtc := expiry, monotonicDeadlineMs := p.monotonicDeadlineMs.getD 0 }
  match mediaMonotonicBootId w.env with
  | none => (false, s, w)
  | some boot =>
      if boot ≠ p.monotonicBootId.getD [] then (false, s, w)
      else
        match mediaMonotonicMs w with
        | none => (false, s, readMonotonic w)
        | some now =>
            if s.monotonicDeadlineMs ≤ now ∨ 7200000 < s.monotonicDeadlineMs - now then (false, s, readMonotonic w)
            else (true, { s with ttlSec := ((s.monotonicDeadlineMs - now + 999) / 1000 : Nat) }, readMonotonic w)

/-- The server's own choices, read back into a candidate through the casts to
int and uint32_t. -/
def restoreChoices (c : MediaSession) (p : PersistedSession) : MediaSession :=
  { c with
    mountpointId := p.mountpointId % 2 ^ 32
    rtpPort := toInt p.rtpPort
    rtcpPort := toInt p.rtcpPort
    routeGeneration := p.routeGeneration % 2 ^ 32
    createdAt := p.createdAt
    startedAt := p.startedAt
    renewedAt := p.renewedAt }

def complete (c : MediaSession) (p : PersistedSession) : Bool :=
  !c.pin.isEmpty && decide (1 ≤ c.rtpPort) && decide (c.rtpPort ≤ 65535) && decide (1 ≤ c.rtcpPort) &&
    decide (c.rtcpPort ≤ 65535) && c.mountpointId != 0 && c.routeGeneration != 0 &&
    (p.request.contractVersion == 3 ||
      (decide (0 < p.request.leaseExpiresAt - c.renewedAt) && decide (p.request.leaseExpiresAt - c.renewedAt ≤ 7200)))

def storedLive (p : PersistedSession) : Bool := p.state == .active || p.state == .starting

/-- The lease of a candidate: still running, or over. -/
def restoreLease (w : World) (c : MediaSession) (p : PersistedSession) : MediaSession × World :=
  if p.request.contractVersion = 3 then
    match mvRestoreDeadline w { c with ttlSec := 1 } p p.request.leaseExpiresAt with
    | (anchored, c, w) => ({ c with state := if storedLive p && anchored then .starting else .stopped }, w)
  else
    let c := { c with ttlSec := toInt (p.request.leaseExpiresAt - c.renewedAt) }
    if storedLive p then
      ({ c with state := if now w < p.request.leaseExpiresAt then .starting else .stopped }, advance w)
    else ({ c with state := .stopped }, w)

def occupy (w : World) (i : Nat) (c : MediaSession) : World :=
  { setSession w i c with routeGeneration := max w.routeGeneration c.routeGeneration }

/-- A candidate that is live again needs its route back. -/
def restoreInto (w : World) (c : MediaSession) : World :=
  match allocateSessionSlot w with
  | none => w
  | some (i, w) =>
      if c.state = .stopped then occupy w i c
      else
        match upsertRoute w c.sn c.rtpPort c.rtcpPort with
        | none => w
        | some w => occupy w i c

section Schema

/- The frozen schemas, as far as they decide about a stored request. -/
variable (valid : MediaStart → Bool)

def legible (p : PersistedSession) : Bool :=
  (p.request.contractVersion == 2 || p.request.contractVersion == 3) &&
    p.formatVersion == p.request.contractVersion && valid p.request

def candidate (w : World) (p : PersistedSession) : Option MediaSession :=
  if legible valid p then
    ((mvFill w p.request).map fun c => restoreChoices c p).filter fun c => complete c p
  else none

def restoreRecord (w : World) (p : PersistedSession) : World :=
  match candidate valid w p with
  | none => w
  | some c =>
      if (findSessionById w p.request.sessionId).isSome ∨ (findActiveSessionForSn w c.sn).isSome then w
      else
        match restoreLease w c p with
        | (c, w) => restoreInto w (fenced c w.nextEpoch)

def restoreKey (w : World) (id : CString) : World :=
  match redisGet w (.session id) with
  | some (.record p) => restoreRecord valid w p
  | _ => w

def mediaV2Restore (w : World) (keys : List CString) : World :=
  if w.redis.isNone then w else keys.foldl (restoreKey valid) w

end Schema

/-- What the lease check can make of a candidate. -/
structure Resumes (w : World) (p : PersistedSession) (c t : MediaSession) : Prop where
  identity : SameIdentity c t
  startedAt : t.startedAt = c.startedAt
  renewedAt : t.renewedAt = c.renewedAt
  state : t.state = .starting ∧ storedLive p = true ∨ t.state = .stopped
  ttl : p.request.contractVersion ≠ 3 → t.ttlSec = toInt (p.request.leaseExpiresAt - c.renewedAt)
  deadline : p.request.contractVersion = 3 → t.monotonicDeadlineMs = p.monotonicDeadlineMs.getD 0
  anchor : p.request.contractVersion = 3 → t.state = .starting →
    mediaMonotonicBootId w.env = some (p.monotonicBootId.getD [])

theorem mvRestoreDeadline_spec (w : World) (s : MediaSession) (p : PersistedSession) (expiry : Int) :
    ClockOnly w (mvRestoreDeadline w s p expiry).2.2 ∧
    (∃ ttl, (mvRestoreDeadline w s p expiry).2.1 = { s with
      issuerExpiryUtc := expiry, monotonicDeadlineMs := p.monotonicDeadlineMs.getD 0, ttlSec := ttl }) ∧
    ((mvRestoreDeadline w s p expiry).1 = true → mediaMonotonicBootId w.env = some (p.monotonicBootId.getD [])) := by
  simp only [mvRestoreDeadline]
  cases hboot : mediaMonotonicBootId w.env with
  | none => exact ⟨.refl w, ⟨_, rfl⟩, by simp⟩
  | some boot =>
      dsimp only
      by_cases hsame : boot = p.monotonicBootId.getD []
      · rw [if_neg (not_not_intro hsame)]
        have hclock := readMonotonic_clockOnly w
        cases mediaMonotonicMs w with
        | none => exact ⟨hclock, ⟨_, rfl⟩, by simp⟩
        | some t =>
            dsimp only
            split
            · exact ⟨hclock, ⟨_, rfl⟩, by simp⟩
            · exact ⟨hclock, ⟨_, rfl⟩, fun _ => by rw [hsame]⟩
      · rw [if_pos hsame]
        exact ⟨.refl w, ⟨_, rfl⟩, by simp⟩

theorem restoreLease_spec (w : World) (c : MediaSession) (p : PersistedSession) :
    ClockOnly w (restoreLease w c p).2 ∧ Resumes w p c (restoreLease w c p).1 := by
  simp only [restoreLease]
  split
  next hv =>
    obtain ⟨hclock, ⟨ttl, hs⟩, hanchor⟩ := mvRestoreDeadline_spec w { c with ttlSec := 1 } p p.request.leaseExpiresAt
    generalize mvRestoreDeadline w { c with ttlSec := 1 } p p.request.leaseExpiresAt = answer at hclock hs hanchor ⊢
    obtain ⟨anchored, d, w₁⟩ := answer
    obtain rfl : d = _ := hs
    refine ⟨hclock, by constructor <;> rfl, rfl, rfl, ?_, fun hne => absurd hv hne, fun _ => rfl, fun _ hst => ?_⟩
    · cases storedLive p <;> cases anchored <;> simp
    · cases anchored with
      | true => exact hanchor rfl
      | false => simp at hst
  next hv =>
    split
    next hlive =>
      refine ⟨advance_clockOnly w, by constructor <;> rfl, rfl, rfl, ?_, fun _ => rfl, fun he => absurd he hv,
        fun he => absurd he hv⟩
      by_cases hin : now w < p.request.leaseExpiresAt
      · simp [hin, hlive]
      · simp [hin]
    · exact ⟨.refl w, by constructor <;> rfl, rfl, rfl, .inr rfl, fun _ => rfl, fun he => absurd he hv,
        fun he => absurd he hv⟩

/-- What a restored record can do to the tables: it gets a slot, or nothing but
the slot it would have got is cleared. -/
structure Occupies (w : World) (c : MediaSession) (w' : World) : Prop where
  slot : ∀ j, session w' j = session w j ∨ session w' j = {} ∨
    session w' j = c ∧ c.routeGeneration ≤ w'.routeGeneration
  generation : w.routeGeneration ≤ w'.routeGeneration
  redis : w'.redis = w.redis
  env : w'.env = w.env

theorem Occupies.refl (w : World) (c : MediaSession) : Occupies w c w := ⟨fun _ => .inl rfl, le_refl _, rfl, rfl⟩

theorem occupy_occupies {w w₁ w₂ : World} {i : Nat} (h : allocateSessionSlot w = some (i, w₁))
    (hs : w₂.sessions = w₁.sessions) (hg : w₂.routeGeneration = w.routeGeneration) (hr : w₂.redis = w.redis)
    (he : w₂.env = w.env) (c : MediaSession) : Occupies w c (occupy w₂ i c) := by
  have hv := allocateSessionSlot_spec h
  have hlt : i < w₂.sessions.length := hs ▸ hv.lt
  have hslots : session (occupy w₂ i c) = Function.update (session w₁) i c := by
    have hsame : session w₂ = session w₁ := by
      funext j
      simp only [session, hs]
    rw [← hsame]
    exact session_setSession w₂ i c hlt
  refine ⟨fun j => ?_, hg ▸ Nat.le_max_left _ _, hr, he⟩
  rw [hslots]
  by_cases hj : j = i
  · subst hj
    rw [Function.update_self]
    exact .inr (.inr ⟨rfl, Nat.le_max_right _ _⟩)
  · rw [Function.update_of_ne hj]
    rcases hv.slot j with hkept | hcleared
    · exact .inl hkept
    · exact .inr (.inl hcleared)

theorem restoreInto_occupies (w : World) (c : MediaSession) : Occupies w c (restoreInto w c) := by
  simp only [restoreInto]
  cases halloc : allocateSessionSlot w with
  | none => exact .refl w c
  | some slot =>
      obtain ⟨i, w₁⟩ := slot
      have hv := allocateSessionSlot_spec halloc
      obtain ⟨sessions, hw₁⟩ := allocateSessionSlot_sessions halloc
      dsimp only
      split
      · exact occupy_occupies halloc rfl (by rw [hw₁]) (by rw [hw₁]) (by rw [hw₁]) c
      · cases hup : upsertRoute w₁ c.sn c.rtpPort c.rtcpPort with
        | none =>
            refine ⟨fun j => ?_, by rw [hw₁], by rw [hw₁], by rw [hw₁]⟩
            rcases hv.slot j with hkept | hcleared
            · exact .inl hkept
            · exact .inr (.inl hcleared)
        | some w₂ =>
            obtain rfl := upsertRoute_some hup
            refine occupy_occupies halloc ?_ ?_ ?_ ?_ c
            · rfl
            all_goals rw [hw₁]

variable {valid : MediaStart → Bool} {w : World} {p : PersistedSession}

theorem candidate_some {c : MediaSession}
    (h : candidate valid w p = some c) :
    c = restoreChoices (filled p.request) p ∧ legible valid p = true ∧ complete c p = true := by
  simp only [candidate] at h
  split at h
  next hlegible =>
    obtain ⟨hmap, hcomplete⟩ := Option.filter_eq_some_iff.mp h
    obtain ⟨d, hfill, rfl⟩ := Option.map_eq_some_iff.mp hmap
    rw [mvFill_some hfill]
    exact ⟨rfl, hlegible, mvFill_some hfill ▸ hcomplete⟩
  · exact absurd h (by simp)

def Revived (valid : MediaStart → Bool) (w : World) (p : PersistedSession) (t : MediaSession) : Prop :=
  ∃ c s epoch, candidate valid w p = some c ∧ Resumes w p c s ∧ t = fenced s epoch

theorem restoreRecord_spec (valid : MediaStart → Bool) (w : World) (p : PersistedSession) :
    (∀ j, session (restoreRecord valid w p) j = session w j ∨ session (restoreRecord valid w p) j = {} ∨
      Revived valid w p (session (restoreRecord valid w p) j) ∧
        (session (restoreRecord valid w p) j).routeGeneration ≤ (restoreRecord valid w p).routeGeneration) ∧
    w.routeGeneration ≤ (restoreRecord valid w p).routeGeneration ∧ (restoreRecord valid w p).redis = w.redis ∧
    (restoreRecord valid w p).env = w.env := by
  have hnone : ∀ q : Nat → Prop, (∀ j, session w j = session w j ∨ q j) ∧ w.routeGeneration ≤ w.routeGeneration ∧
      w.redis = w.redis ∧ w.env = w.env := fun q => ⟨fun _ => .inl rfl, le_refl _, rfl, rfl⟩
  simp only [restoreRecord]
  cases hc : candidate valid w p with
  | none => exact hnone _
  | some c =>
      dsimp only
      split
      · exact hnone _
      · obtain ⟨hclock, hresumes⟩ := restoreLease_spec w c p
        generalize restoreLease w c p = answer at hclock hresumes ⊢
        obtain ⟨s, w₁⟩ := answer
        have hq := Quiet.of_clockOnly hclock
        obtain ⟨_, _, _, hw₁⟩ := hclock
        have hspec := restoreInto_occupies w₁ (fenced s w₁.nextEpoch)
        dsimp only at hw₁ hresumes hq hspec ⊢
        refine ⟨fun j => ?_, ?_, hspec.redis.trans (by rw [hw₁]), hspec.env.trans hq.env⟩
        · rcases hspec.slot j with hkept | hcleared | ⟨hnew, hle⟩
          · exact .inl (hkept.trans (by rw [hq.session_eq]))
          · exact .inr (.inl hcleared)
          · rw [hnew]
            exact .inr (.inr ⟨⟨c, s, w₁.nextEpoch, hc, hresumes, rfl⟩, hle⟩)
        · have hle := hspec.generation
          rw [hw₁] at hle ⊢
          exact hle

theorem candidate_env {w w' : World} (h : w'.env = w.env) (p : PersistedSession) :
    candidate valid w' p = candidate valid w p := by
  simp only [candidate, mvFill, h]

theorem Revived.env {w w' : World} {t : MediaSession}
    (h : Revived valid w' p t) (he : w'.env = w.env) : Revived valid w p t := by
  obtain ⟨c, s, epoch, hc, hr, ht⟩ := h
  refine ⟨c, s, epoch, (candidate_env he p).symm.trans hc, ?_, ht⟩
  exact ⟨hr.identity, hr.startedAt, hr.renewedAt, hr.state, hr.ttl, hr.deadline, he ▸ hr.anchor⟩

/-- The slot holds what it held, or nothing, or a record from the store whose
generation the counter has reached. -/
def Accounted (valid : MediaStart → Bool) (w : World) (keys : List CString) (w' : World) (j : Nat) : Prop :=
  session w' j = session w j ∨ session w' j = {} ∨
    (∃ id ∈ keys, ∃ p, redisGet w (.session id) = some (.record p) ∧ Revived valid w p (session w' j)) ∧
      (session w' j).routeGeneration ≤ w'.routeGeneration

theorem restoreKey_spec (valid : MediaStart → Bool) (w : World) (id : CString) :
    (∀ j, Accounted valid w [id] (restoreKey valid w id) j) ∧
    w.routeGeneration ≤ (restoreKey valid w id).routeGeneration ∧ (restoreKey valid w id).redis = w.redis ∧
    (restoreKey valid w id).env = w.env := by
  simp only [restoreKey]
  split
  next p hp =>
    obtain ⟨hslot, hrest⟩ := restoreRecord_spec valid w p
    refine ⟨fun j => ?_, hrest⟩
    rcases hslot j with hkept | hcleared | ⟨hrevived, hle⟩
    · exact .inl hkept
    · exact .inr (.inl hcleared)
    · exact .inr (.inr ⟨⟨id, by simp, p, hp, hrevived⟩, hle⟩)
  · exact ⟨fun _ => .inl rfl, le_refl _, rfl, rfl⟩

theorem mediaV2Restore_spec (valid : MediaStart → Bool) (w : World) (keys : List CString) :
    (∀ j, Accounted valid w keys (mediaV2Restore valid w keys) j) ∧
    w.routeGeneration ≤ (mediaV2Restore valid w keys).routeGeneration := by
  simp only [mediaV2Restore]
  split
  · exact ⟨fun _ => .inl rfl, le_refl _⟩
  · induction keys generalizing w with
    | nil => exact ⟨fun _ => .inl rfl, le_refl _⟩
    | cons id keys ih =>
        obtain ⟨hfirst, hle, hredis, henv⟩ := restoreKey_spec valid w id
        rw [List.foldl_cons]
        generalize restoreKey valid w id = w₁ at hfirst hle hredis henv ⊢
        obtain ⟨hrest, hle'⟩ := ih w₁ (by rwa [hredis])
        refine ⟨fun j => ?_, hle.trans hle'⟩
        rcases hrest j with hkept | hcleared | ⟨⟨id', hid', p, hp, hrevived⟩, hreached⟩
        · rcases hfirst j with hkept₁ | hcleared₁ | ⟨⟨id', hid', p, hp, hrevived⟩, hreached⟩
          · exact .inl (hkept.trans hkept₁)
          · exact .inr (.inl (hkept.trans hcleared₁))
          · rw [List.mem_singleton] at hid'
            refine .inr (.inr ⟨⟨id', by simp [hid'], p, hp, ?_⟩, ?_⟩)
            · rw [hkept]
              exact hrevived
            · rw [hkept]
              exact hreached.trans hle'
        · exact .inr (.inl hcleared)
        · refine .inr (.inr ⟨⟨id', List.mem_cons_of_mem _ hid', p, ?_, hrevived.env henv⟩, hreached⟩)
          rw [← hp]
          simp only [redisGet, hredis]

theorem redisGet_redisSetEx (w : World) (key : RedisKey) (value : RedisValue) (ttl : Int) :
    redisGet (redisSetEx w key value ttl) key = w.redis.map fun _ => value := by
  simp only [redisGet, redisSetEx]
  cases w.redis with
  | none => rfl
  | some store => simp

theorem mvPersist_record {s : MediaSession} {r : MediaStart}
    (hm : modern s = true) (hr : s.v2Request = some r)
    (h : redisGet (mvPersist w s) (.session s.sessionId) = some (.record p)) : p = persistedSession w s r := by
  have hget : redisGet (mvPersist w s) (.session s.sessionId) =
      w.redis.map fun _ => .record (persistedSession w s r) := by
    rw [← redisGet_redisSetEx w (.session s.sessionId) _ (mediaRedisTtlFor s.ttlSec)]
    simp only [mvPersist, hm, hr]
    split
    · have hroute (u : World) : Untouched (fun _ => False) s.sessionId u (mediaRedisSaveRoute u s) :=
        mediaRedisSaveRoute_untouched u s
      have hother (u : World) (key : RedisKey) (hk : key ≠ .session s.sessionId) : Untouched (fun _ => False) s.sessionId u
          (redisSetEx u key (.text s.sessionId) (mediaRedisTtlFor s.ttlSec)) := redisSetEx_untouched u _ _ hk
      rw [(hroute _).stored, (hother _ _ (by simp)).stored, (hother _ _ (by simp)).stored]
    · rfl
  rw [hget] at h
  obtain ⟨_, _, he⟩ := Option.map_eq_some_iff.mp h
  simpa using he.symm

theorem fenced_keeps (c : MediaSession) (epoch : Nat) :
    ∃ minimum, fenced c epoch = { c with minimumCameraConnectionEpoch := minimum } := by
  simp only [fenced]
  split
  · exact ⟨epoch, rfl⟩
  · exact ⟨c.minimumCameraConnectionEpoch, rfl⟩

theorem bmod_small {n : Int} (h : 1 ≤ n ∧ n ≤ 65535) : toInt n = n := by
  simp only [toInt]
  rw [Int.bmod_eq_of_le] <;> omega

section Sanity

variable {valid : MediaStart → Bool} {w : World} {p : PersistedSession} {c s : MediaSession}

theorem restored_request (hc : candidate valid w p = some c) (hr : Resumes w p c s) :
    SameRequest (filled p.request) s := by
  obtain ⟨rfl, _, _⟩ := candidate_some hc
  have hi := hr.identity
  exact ⟨hi.sessionId, hi.operationId, hi.leaseId, hi.streamInstanceId, hi.sn, hi.contractVersion, hi.cameraSource,
    hi.descriptor, hi.v2Request⟩

theorem restored_candidate (hvalid : ∀ r, valid r = true → Admitted r) (hc : candidate valid w p = some c)
    (hr : Resumes w p c s) : Candidate s := by
  have hadmitted : Admitted p.request := by
    obtain ⟨_, hlegible, _⟩ := candidate_some hc
    simp only [legible, Bool.and_eq_true] at hlegible
    exact hvalid _ hlegible.2
  refine (filled_candidate hadmitted).same (restored_request hc hr) ?_
  obtain ⟨rfl, _, _⟩ := candidate_some hc
  rw [hr.identity.pin]
  exact (filled_candidate hadmitted).pin

theorem restored_id (hvalid : ∀ r, valid r = true → Admitted r) (hc : candidate valid w p = some c) :
    (filled p.request).sessionId = p.request.sessionId := by
  obtain ⟨_, hlegible, _⟩ := candidate_some hc
  simp only [legible, Bool.and_eq_true] at hlegible
  exact (filled_transcribes (hvalid _ hlegible.2)).sessionId

theorem restored_documented (hvalid : ∀ r, valid r = true → Admitted r) (hc : candidate valid w p = some c)
    (hr : Resumes w p c s) : Documented s := by
  have hcand := restored_candidate hvalid hc hr
  obtain ⟨rfl, _, hcomplete⟩ := candidate_some hc
  simp only [complete, Bool.and_eq_true, decide_eq_true_eq] at hcomplete
  have hi := hr.identity
  refine ⟨hcand.request, hcand.pin, ?_, ?_, ?_, ?_⟩
  · rw [hi.mountpointId]
    exact Nat.mod_lt _ (by decide)
  · rw [hi.routeGeneration]
    exact Nat.mod_lt _ (by decide)
  · rw [hi.rtpPort]
    exact ⟨hcomplete.1.1.1.1.1.1.2, hcomplete.1.1.1.1.1.2⟩
  · rw [hi.rtcpPort]
    exact ⟨hcomplete.1.1.1.1.2, hcomplete.1.1.1.2⟩

theorem Resumes.not_empty (hr : Resumes w p c s) : s.state = .starting ∨ s.state = .stopped := by
  rcases hr.state with ⟨h, _⟩ | h
  · exact .inl h
  · exact .inr h

theorem fenced_wellFormed (hvalid : ∀ r, valid r = true → Admitted r) (hc : candidate valid w p = some c)
    (hr : Resumes w p c s) (epoch : Nat) : WellFormed (fenced s epoch) := by
  have hcand := restored_candidate hvalid hc hr
  have hdoc := restored_documented hvalid hc hr
  have hstate := hr.not_empty
  obtain ⟨minimum, he⟩ := fenced_keeps s epoch
  rw [he]
  have hne : s.state ≠ .empty ∧ s.state ≠ .stopping ∧ s.state ≠ .failed := by
    rcases hstate with h | h <;> simp [h]
  refine ⟨fun h => absurd h hne.1, fun _ => hcand.named, fun _ => hcand.sn, hne.2.1, fun _ => hcand.modern,
    fun _ => hcand.sessionId, fun _ => ?_, fun _ => hne.2.2⟩
  obtain ⟨r, hv2, ht⟩ := hdoc.request
  refine ⟨⟨r, hv2, ?_⟩, hdoc.pin, hdoc.mountpointId, hdoc.routeGeneration, hdoc.rtpPort, hdoc.rtcpPort⟩
  exact ⟨ht.admitted, ht.contractVersion, ht.cameraSource, ht.sessionId, ht.operationId, ht.leaseId, ht.sn,
    ht.streamInstanceId,
    ht.descriptor⟩

theorem occupy_sane {i : Nat} {t : MediaSession} (hs : Sane (registry w)) (hi : i < w.sessions.length)
    (ht : WellFormed t) (hid : ∀ j, (session w j).sessionId ≠ t.sessionId)
    (hdevice : ∀ j, live (session w j) = true → (session w j).sn ≠ t.sn) : Sane (registry (occupy w i t)) := by
  have hreg : registry (occupy w i t) = { registry w with slots := Function.update (session w) i t } :=
    registry_setSession w i t hi
  rw [hreg]
  apply hs.write i ht
  intro j _
  exact ⟨fun he _ => absurd he.symm (hid j), fun _ hj he => absurd he.symm (hdevice j hj)⟩

theorem restoreInto_sane {t : MediaSession} (hs : Sane (registry w)) (ht : WellFormed t) (hn : t.sessionId ≠ [])
    (hid : ∀ j, (session w j).sessionId ≠ t.sessionId)
    (hdevice : ∀ j, live (session w j) = true → (session w j).sn ≠ t.sn) : Sane (registry (restoreInto w t)) := by
  simp only [restoreInto]
  cases halloc : allocateSessionSlot w with
  | none => exact hs
  | some slot =>
      obtain ⟨i, w₁⟩ := slot
      have hv := allocateSessionSlot_spec halloc
      have hs₁ : Sane (registry w₁) := (hv.path (p := anything) fun _ => trivial).sane hs
      have hid₁ : ∀ j, (session w₁ j).sessionId ≠ t.sessionId := by
        intro j
        rcases hv.slot j with h | h
        · rw [h]
          exact hid j
        · rw [h]
          exact hn.symm
      have hdevice₁ : ∀ j, live (session w₁ j) = true → (session w₁ j).sn ≠ t.sn := by
        intro j hj
        have h := hv.live j hj
        rw [h] at hj ⊢
        exact hdevice j hj
      dsimp only
      split
      · exact occupy_sane hs₁ hv.lt ht hid₁ hdevice₁
      · cases hup : upsertRoute w₁ t.sn t.rtpPort t.rtcpPort with
        | none => exact hs₁
        | some w₂ =>
            obtain rfl := upsertRoute_some hup
            refine occupy_sane (hs₁.of_slots rfl ?_) hv.lt ht hid₁ hdevice₁
            exact hs₁.doors.map rfl (retarget_peers _ _ _ w₁.clients)

theorem restoreRecord_sane (hvalid : ∀ r, valid r = true → Admitted r) (hs : Sane (registry w)) (p : PersistedSession) :
    Sane (registry (restoreRecord valid w p)) := by
  simp only [restoreRecord]
  cases hc : candidate valid w p with
  | none => exact hs
  | some c =>
      dsimp only
      split
      · exact hs
      next htables =>
        rw [not_or] at htables
        obtain ⟨hclock, hresumes⟩ := restoreLease_spec w c p
        have hcand := restored_candidate hvalid hc hresumes
        have hrequest := restored_request hc hresumes
        have hwell := fenced_wellFormed hvalid hc hresumes
        have hsn := hresumes.identity.sn
        generalize restoreLease w c p = answer at hclock hcand hrequest hwell hsn ⊢
        obtain ⟨s, w₁⟩ := answer
        dsimp only at hclock hcand hrequest hwell hsn ⊢
        have hq := Quiet.of_clockOnly hclock
        obtain ⟨minimum, hfenced⟩ := fenced_keeps s w₁.nextEpoch
        apply restoreInto_sane (hq.registry_eq ▸ hs) (hwell _)
        · rw [hfenced]
          exact hcand.named.1
        · intro j
          have hid : s.sessionId = p.request.sessionId :=
            hrequest.sessionId.trans (restored_id hvalid hc)
          rw [hq.session_eq, hfenced]
          change (session w j).sessionId ≠ s.sessionId
          rw [hid]
          exact findSessionById_none (hid ▸ hcand.named.1) (by simpa using htables.1) j
        · intro j hl
          rw [hq.session_eq] at hl ⊢
          rw [hfenced]
          change (session w j).sn ≠ s.sn
          rw [hsn]
          exact findActiveSessionForSn_none (hsn ▸ hcand.sn.1) (by simpa using htables.2) j hl

end Sanity

theorem mediaV2Restore_sane (hvalid : ∀ r, valid r = true → Admitted r)
    (hs : Sane (registry w)) (keys : List CString) : Sane (registry (mediaV2Restore valid w keys)) := by
  simp only [mediaV2Restore]
  split
  · exact hs
  · have hfold : ∀ (keys : List CString) (w : World), Sane (registry w) →
        Sane (registry (keys.foldl (restoreKey valid) w)) := by
      intro keys
      induction keys with
      | nil => exact fun _ hs => hs
      | cons id keys ih =>
          intro w hs
          apply ih
          simp only [restoreKey]
          split
          · exact restoreRecord_sane hvalid hs _
          · exact hs
    exact hfold keys w hs

/-- The process when it starts to serve: its route file is read, and the
sessions of contracts 2 and 3 are restored from whatever Redis holds. -/
def Started (w : World) : Prop :=
  ∃ v valid keys, Initial v ∧ (∀ r, valid r = true → Admitted r) ∧ w = mediaV2Restore valid v keys

theorem Initial.started (h : Initial w) : Started w := by
  refine ⟨w, fun _ => false, [], h, by simp, ?_⟩
  simp [mediaV2Restore]

theorem Started.sane (h : Started w) : Sane (registry w) := by
  obtain ⟨v, valid, keys, hv, hvalid, rfl⟩ := h
  exact mediaV2Restore_sane hvalid (initial_sane hv) keys

theorem Started.run_sane (h : Started w) (events : List Event) : Sane (registry (run w events)) :=
  (run_moves h.sane events (along_of_forall permits_anything events w)).sane h.sane

/-- Session t of the process v is session s of the process w after a restart:
the same session, and a lease that does not end later. -/
structure Continues (w : World) (s : MediaSession) (v : World) (t : MediaSession) : Prop where
  sessionId : t.sessionId = s.sessionId
  operationId : t.operationId = s.operationId
  leaseId : t.leaseId = s.leaseId
  sn : t.sn = s.sn
  streamInstanceId : t.streamInstanceId = s.streamInstanceId
  descriptor : t.descriptor = s.descriptor
  pin : t.pin = s.pin
  rtpPort : t.rtpPort = s.rtpPort
  rtcpPort : t.rtcpPort = s.rtcpPort
  mountpointId : t.mountpointId = s.mountpointId
  routeGeneration : t.routeGeneration = s.routeGeneration
  contractVersion : t.contractVersion = s.contractVersion
  wallLease : s.contractVersion = 2 → t.renewedAt + t.ttlSec = s.renewedAt + s.ttlSec ∧ leaseStart t = leaseStart s
  monotonicLease : s.contractVersion = 3 → t.monotonicDeadlineMs = s.monotonicDeadlineMs ∧
    (live t = true → ∃ boot, mediaMonotonicBootId v.env = some boot ∧ mediaMonotonicBootId w.env = some boot)
  state : t.state = .starting ∨ t.state = .stopped
  stopped : live s = false → t.state = .stopped

theorem mediaMonotonicBootId_ne_nil {e : Env} {boot : CString} (h : mediaMonotonicBootId e = some boot) : boot ≠ [] := by
  obtain ⟨_, hshape⟩ := Option.filter_eq_some_iff.mp h
  rintro rfl
  exact absurd hshape (by decide)

section RoundTrip

variable {valid : MediaStart → Bool} {w v : World} {s c t u : MediaSession} {r : MediaStart}

theorem persisted_version (w : World) {s : MediaSession} {r : MediaStart} (h : Transcribes s r) :
    (persistedSession w s r).request.contractVersion = s.contractVersion := h.contractVersion.symm

theorem wallLease_roundTrip (ht : Transcribes s r) (hc : candidate valid v (persistedSession w s r) = some c)
    (hr : Resumes v (persistedSession w s r) c u) (hv : s.contractVersion = 2) :
    u.renewedAt = s.renewedAt ∧ u.startedAt = s.startedAt ∧ u.ttlSec = s.ttlSec := by
  have hversion := persisted_version w ht
  obtain ⟨rfl, _, hcomplete⟩ := candidate_some hc
  have hne : (persistedSession w s r).request.contractVersion ≠ 3 := by omega
  have hlease : (persistedSession w s r).request.leaseExpiresAt = s.renewedAt + s.ttlSec := by
    simp [persistedSession, hv]
  have hrenewed : (restoreChoices (filled (persistedSession w s r).request) (persistedSession w s r)).renewedAt =
    s.renewedAt := rfl
  refine ⟨hr.renewedAt, hr.startedAt, ?_⟩
  simp only [complete, Bool.and_eq_true, Bool.or_eq_true, beq_iff_eq, decide_eq_true_eq, hne, false_or] at hcomplete
  rw [hr.ttl hne, hlease, hrenewed]
  rw [hlease, hrenewed] at hcomplete
  have hsimp : s.renewedAt + s.ttlSec - s.renewedAt = s.ttlSec := by omega
  rw [hsimp] at hcomplete ⊢
  exact bmod_small ⟨by omega, by omega⟩

theorem monotonicLease_roundTrip (ht : Transcribes s r) (hr : Resumes v (persistedSession w s r) c u)
    (hv : s.contractVersion = 3) :
    u.monotonicDeadlineMs = s.monotonicDeadlineMs ∧
    (u.state = .starting → ∃ boot, mediaMonotonicBootId v.env = some boot ∧ mediaMonotonicBootId w.env = some boot) := by
  have hversion := (persisted_version w ht).trans hv
  constructor
  · rw [hr.deadline hversion]
    simp [persistedSession, hv]
  · intro hst
    have hboot := hr.anchor hversion hst
    have hstored : (persistedSession w s r).monotonicBootId = mediaMonotonicBootId w.env := by
      simp [persistedSession, hv]
    rw [hstored] at hboot
    cases hold : mediaMonotonicBootId w.env with
    | none =>
        rw [hold] at hboot
        exact absurd rfl (mediaMonotonicBootId_ne_nil hboot)
    | some boot =>
        rw [hold] at hboot
        exact ⟨boot, hboot, rfl⟩

theorem revived_continues (hd : Documented s) (ht : Transcribes s r)
    (h : Revived valid v (persistedSession w s r) t) : Continues w s v t := by
  obtain ⟨c, u, epoch, hc, hr, rfl⟩ := h
  have hwall := wallLease_roundTrip ht hc hr
  have hmono := monotonicLease_roundTrip ht hr
  have hfilled := filled_transcribes ht.admitted
  obtain ⟨rfl, _, _⟩ := candidate_some hc
  have hi := hr.identity
  have hstate := hr.not_empty
  have hstored : storedLive (persistedSession w s r) = live s := rfl
  obtain ⟨minimum, hfenced⟩ := fenced_keeps u epoch
  rw [hfenced]
  constructor
  · exact hi.sessionId.trans (hfilled.sessionId.trans ht.sessionId.symm)
  · exact hi.operationId.trans (hfilled.operationId.trans ht.operationId.symm)
  · exact hi.leaseId.trans (hfilled.leaseId.trans ht.leaseId.symm)
  · exact hi.sn.trans (hfilled.sn.trans ht.sn.symm)
  · exact hi.streamInstanceId.trans (hfilled.streamInstanceId.trans ht.streamInstanceId.symm)
  · exact hi.descriptor.trans ht.descriptor.symm
  · exact hi.pin.trans (safeStrcpy_of_lt hd.pin)
  · exact hi.rtpPort.trans (bmod_small hd.rtpPort)
  · exact hi.rtcpPort.trans (bmod_small hd.rtcpPort)
  · exact hi.mountpointId.trans (Nat.mod_eq_of_lt hd.mountpointId)
  · exact hi.routeGeneration.trans (Nat.mod_eq_of_lt hd.routeGeneration)
  · exact hi.contractVersion.trans ht.contractVersion.symm
  · intro hv
    obtain ⟨hrenewed, hstarted, httl⟩ := hwall hv
    simp [leaseStart, hrenewed, hstarted, httl]
  · intro hv
    refine ⟨(hmono hv).1, fun hl => (hmono hv).2 ?_⟩
    rcases hstate with h | h
    · exact h
    · simp [live, h] at hl
  · exact hstate
  · intro hdead
    rcases hr.state with ⟨_, hlive⟩ | h
    · rw [hstored, hdead] at hlive
      exact absurd hlive (by simp)
    · exact h

end RoundTrip

theorem safeStrcpy_inj {size : Nat} {s t : CString} (h : safeStrcpy size s = t) (ht : t.length < size - 1) : s = t := by
  have hlen := congrArg List.length h
  simp only [safeStrcpy, List.length_take] at hlen
  rw [← h]
  exact (List.take_of_length_le (by omega)).symm

theorem revived_id {t : MediaSession}
    (h : Revived valid w p t) (ht : msUuid t.sessionId = true) : p.request.sessionId = t.sessionId := by
  obtain ⟨c, u, epoch, hc, hr, rfl⟩ := h
  have hid := (restored_request hc hr).sessionId
  rw [(fenced_request u epoch).sessionId] at ht ⊢
  have hlen := msUuid_length ht
  exact safeStrcpy_inj hid.symm (by omega)

/-- A restart never extends a lease. Whatever session of contract 2 or 3 a run
has come to and mv_persist has stored, the next process either does not bring
it back, or brings it back as it was with the end of its lease; a session that
was not live comes back STOPPED; and the generation counter is not behind any
record that was brought back. -/
theorem restart_never_extends_lease {w : World} (h : Started w) (events : List Event) (i : Nat)
    (hm : modern (session (run w events) i) = true) {p : PersistedSession}
    (hp : redisGet (mvPersist (run w events) (session (run w events) i))
      (.session (session (run w events) i).sessionId) = some (.record p))
    (valid : MediaStart → Bool) (v : World) (keys : List CString)
    (hstore : ∀ id ∈ keys, ∀ q, redisGet v (.session id) = some (.record q) →
      q.request.sessionId = (session (run w events) i).sessionId → q = p) :
    (∀ j, (session (mediaV2Restore valid v keys) j).sessionId = (session (run w events) i).sessionId →
      session (mediaV2Restore valid v keys) j = session v j ∨
      Continues (run w events) (session (run w events) i) v (session (mediaV2Restore valid v keys) j)) ∧
    ∀ j, session (mediaV2Restore valid v keys) j = session v j ∨
      (session (mediaV2Restore valid v keys) j).routeGeneration ≤ (mediaV2Restore valid v keys).routeGeneration := by
  have hrecord := (h.run_sane events).record i
  have huuid : msUuid (session (run w events) i).sessionId = true := hrecord.uuid hm
  have hdoc : Documented (session (run w events) i) := hrecord.documented hm
  generalize session (run w events) i = s at hm hp hstore huuid hdoc ⊢
  obtain ⟨r, hr, ht⟩ := hdoc.request
  obtain rfl := mvPersist_record hm hr hp
  obtain ⟨hslots, _⟩ := mediaV2Restore_spec valid v keys
  constructor
  · intro j hj
    rcases hslots j with hkept | hcleared | ⟨⟨id, hid, q, hq, hrevived⟩, _⟩
    · exact .inl hkept
    · rw [hcleared] at hj
      rw [← hj] at huuid
      exact absurd huuid (by decide)
    · have hsame := (revived_id hrevived (hj ▸ huuid)).trans hj
      obtain rfl := hstore id hid q hq hsame
      exact .inr (revived_continues hdoc ht hrevived)
  · intro j
    rcases hslots j with hkept | hcleared | ⟨_, hle⟩
    · exact .inl hkept
    · rw [hcleared]
      exact .inr (Nat.zero_le _)
    · exact .inr hle

def storedDoor : World := run cameraWorld (.store (some []) :: cameraEvents.take 2)

def nextProcess : World := { env := cameraEnv, redis := storedDoor.redis }

theorem restart_never_extends_lease_door :
    live (session (mediaV2Restore (fun _ => true) nextProcess [uuid "1"]) 0) = true ∧
    Continues storedDoor (session storedDoor 0) nextProcess
      (session (mediaV2Restore (fun _ => true) nextProcess [uuid "1"]) 0) := by
  have hinit : Initial cameraWorld := ⟨rfl, rfl, rfl, rfl, by simp [cameraWorld]⟩
  have hstored : redisGet (mvPersist storedDoor (session storedDoor 0)) (.session (uuid "1")) =
      some (.record (persistedSession storedDoor (session storedDoor 0) cameraRequest)) := by decide +kernel
  have hagain : redisGet nextProcess (.session (uuid "1")) =
      some (.record (persistedSession storedDoor (session storedDoor 0) cameraRequest)) := by decide +kernel
  have hid : (session storedDoor 0).sessionId = uuid "1" := by decide +kernel
  have hback : live (session (mediaV2Restore (fun _ => true) nextProcess [uuid "1"]) 0) = true ∧
      (session (mediaV2Restore (fun _ => true) nextProcess [uuid "1"]) 0).sessionId = uuid "1" := by decide +kernel
  have hall := restart_never_extends_lease (Initial.started hinit) (.store (some []) :: cameraEvents.take 2) 0
    (by decide +kernel) (p := persistedSession storedDoor (session storedDoor 0) cameraRequest)
    (by exact (congrArg _ (congrArg _ hid)).trans hstored) (fun _ => true) nextProcess [uuid "1"] (by
      intro id hkey q hq _
      rw [List.mem_singleton] at hkey
      rw [hkey, hagain] at hq
      simpa using hq.symm)
  refine ⟨hback.1, (hall.1 0 (hback.2.trans hid.symm)).resolve_left fun hsame => ?_⟩
  have hempty : live (session nextProcess 0) = false := by decide +kernel
  rw [← hsame, hback.1] at hempty
  exact absurd hempty (by simp)

end EtranProcessing.Ingress.Restart
