import EtranProcessing.Ingress.PortAgreement
import EtranProcessing.Ingress.Restart
import EtranProcessing.Library.Greedy

namespace EtranProcessing.Ingress.RestoreOrder

open Library.Greedy
open State Clock Routes Stores Lifecycle MediaV2 EventLoop Moves Settling ModernPaths PortAgreement
open SessionTable CameraFence Isolation Restart

structure Frozen (e : Env) : Prop where
  time : ∀ n, e.time n = e.time 0
  monotonic : ∀ n, e.monotonic n = e.monotonic 0

structure SameClock (w w' : World) : Prop where
  env : w'.env = w.env
  monotonic : mediaMonotonicMs w' = mediaMonotonicMs w

theorem SameClock.refl (w : World) : SameClock w w := ⟨rfl, rfl⟩

theorem SameClock.trans {u v w : World} (h : SameClock u v) (h' : SameClock v w) : SameClock u w :=
  ⟨h'.env.trans h.env, h'.monotonic.trans h.monotonic⟩

theorem mediaMonotonicMs_eq (w : World) :
    mediaMonotonicMs w = (Id.run (monotonicReading plainAdd (w.env.monotonic w.tick))).filter fun now =>
      !w.monotonicFailed && decide (w.monotonicLast ≤ now) && decide (now ≤ int64Max) := by
  simp only [mediaMonotonicMs, mediaMonotonicMsWith, Id.run_bind]
  cases Id.run (monotonicReading plainAdd (w.env.monotonic w.tick)) with
  | none => rfl
  | some now =>
      by_cases h : w.monotonicFailed = true ∨ now < w.monotonicLast ∨ int64Max < now
      · have hout : (!w.monotonicFailed && decide (w.monotonicLast ≤ now) && decide (now ≤ int64Max)) = false := by
          rcases h with h | h | h
          · simp [h]
          · simp [Nat.not_le.mpr h]
          · simp [Nat.not_le.mpr h]
        simp [h, Option.filter, hout]
      · have hin : (!w.monotonicFailed && decide (w.monotonicLast ≤ now) && decide (now ≤ int64Max)) = true := by
          simpa [not_or, and_assoc] using h
        simp [h, Option.filter, hin]

variable {inside : List MediaSession} {w : World} {t : MediaSession} {id : CString}

theorem Frozen.advance (h : Frozen w.env) : SameClock w (advance w) := by
  refine ⟨rfl, ?_⟩
  rw [mediaMonotonicMs_eq, mediaMonotonicMs_eq, h.monotonic w.tick]
  simp only [State.advance, h.monotonic (w.tick + 1)]
  rfl

theorem Frozen.readMonotonic (h : Frozen w.env) : SameClock w (readMonotonic w) := by
  obtain ⟨hnone, hw⟩ | ⟨t, hsome, hw, hok, hlast, hmax⟩ := mediaMonotonicMs_cases w
  · refine ⟨by rw [hw]; rfl, ?_⟩
    rw [hw, hnone, mediaMonotonicMs_eq]
    simp
  · refine ⟨by rw [hw]; rfl, ?_⟩
    rw [hw, hsome, mediaMonotonicMs_eq]
    rw [mediaMonotonicMs_eq, h.monotonic w.tick] at hsome
    obtain ⟨hread, _⟩ := Option.filter_eq_some_iff.mp hsome
    simp only [State.advance, h.monotonic (w.tick + 1), hread, hok]
    simp [Option.filter, hmax]

theorem mvRestoreDeadline_clock {w w' : World} (h : SameClock w w') (s : MediaSession) (p : PersistedSession)
    (expiry : Int) : (mvRestoreDeadline w' s p expiry).1 = (mvRestoreDeadline w s p expiry).1 ∧
      (mvRestoreDeadline w' s p expiry).2.1 = (mvRestoreDeadline w s p expiry).2.1 := by
  simp only [mvRestoreDeadline, h.env, h.monotonic]
  cases mediaMonotonicBootId w.env with
  | none => exact ⟨rfl, rfl⟩
  | some boot =>
      dsimp only
      split
      · exact ⟨rfl, rfl⟩
      · cases mediaMonotonicMs w with
        | none => exact ⟨rfl, rfl⟩
        | some now =>
            dsimp only
            split <;> exact ⟨rfl, rfl⟩

theorem mvRestoreDeadline_sameClock (h : Frozen w.env) (s : MediaSession) (p : PersistedSession)
    (expiry : Int) : SameClock w (mvRestoreDeadline w s p expiry).2.2 := by
  simp only [mvRestoreDeadline]
  split
  · exact .refl w
  · split
    · exact .refl w
    · split
      · exact h.readMonotonic
      · split <;> exact h.readMonotonic

theorem restoreLease_clock {w w' : World} (hf : Frozen w.env) (h : SameClock w w') (c : MediaSession)
    (p : PersistedSession) : (restoreLease w' c p).1 = (restoreLease w c p).1 := by
  simp only [restoreLease]
  split
  · obtain ⟨h1, h2⟩ := mvRestoreDeadline_clock h { c with ttlSec := 1 } p p.request.leaseExpiresAt
    rw [h1, h2]
  · have hnow : now w' = now w := by
      simp only [now, h.env, hf.time w'.tick, hf.time w.tick]
    split
    · rw [hnow]
    · rfl

theorem restoreLease_sameClock (hf : Frozen w.env) (c : MediaSession) (p : PersistedSession) :
    SameClock w (restoreLease w c p).2 := by
  simp only [restoreLease]
  split
  · exact mvRestoreDeadline_sameClock hf _ p _
  · split
    · exact hf.advance
    · exact .refl w

def records (w : World) : List MediaSession := w.sessions.filter fun s => s.state != .empty

def Zeroed (w : World) : Prop := ∀ s ∈ w.sessions, s.state = .empty → s = {}

theorem mem_records {s : MediaSession} : s ∈ records w ↔ s ∈ w.sessions ∧ s.state ≠ .empty := by
  simp [records]

theorem findSessionById_isSome (hz : Zeroed w) (hid : id ≠ []) :
    (findSessionById w id).isSome = true ↔ ∃ s ∈ records w, s.sessionId = id := by
  simp only [findSessionById, hid, if_false, List.findIdx?_isSome, List.any_eq_true, beq_iff_eq]
  constructor
  · rintro ⟨s, hs, he⟩
    refine ⟨s, mem_records.mpr ⟨hs, fun hempty => ?_⟩, he⟩
    rw [hz s hs hempty] at he
    exact hid he.symm
  · rintro ⟨s, hs, he⟩
    exact ⟨s, (mem_records.mp hs).1, he⟩

theorem findActiveSessionForSn_isSome {sn : CString} (hsn : sn ≠ []) :
    (findActiveSessionForSn w sn).isSome = true ↔ ∃ s ∈ records w, live s = true ∧ s.sn = sn := by
  simp only [findActiveSessionForSn, hsn, if_false, List.findIdx?_isSome, List.any_eq_true, Bool.and_eq_true, beq_iff_eq]
  constructor
  · rintro ⟨s, hs, hl, he⟩
    exact ⟨s, mem_records.mpr ⟨hs, live_not_empty hl⟩, hl, he⟩
  · rintro ⟨s, hs, hl, he⟩
    exact ⟨s, (mem_records.mp hs).1, hl, he⟩

theorem filter_set_perm {α : Type} (q : α → Bool) (l : List α) {i : Nat} (hi : i < l.length) (hq : q l[i] = false)
    {a : α} (ha : q a = true) : ((l.set i a).filter q).Perm (a :: l.filter q) := by
  have hl : l = l.take i ++ l[i] :: l.drop (i + 1) := by simp
  have hset : l.set i a = l.take i ++ a :: l.drop (i + 1) := List.set_eq_take_append_cons_drop.trans (by simp [hi])
  rw [hset]
  conv =>
    rhs
    rw [hl]
  simp only [List.filter_append, List.filter_cons, ha, hq, if_true]
  exact List.perm_middle

theorem allocate_with_room (hroom : w.sessions.length < maxMediaSessions) :
    ∃ i w₁, allocateSessionSlot w = some (i, w₁) ∧ w₁.sessions.length ≤ w.sessions.length + 1 ∧
      (∀ s ∈ w₁.sessions, s ∈ w.sessions ∨ s = {}) ∧
      ∀ t : MediaSession, t.state ≠ .empty → (records (setSession w₁ i t)).Perm (t :: records w) := by
  simp only [allocateSessionSlot]
  cases hfind : w.sessions.findIdx? fun s => s.state == .empty with
  | some i =>
      obtain ⟨hi, hq, _⟩ := List.findIdx?_eq_some_iff_getElem.mp hfind
      refine ⟨i, w, rfl, Nat.le_succ _, fun s hs => .inl hs, fun t ht => ?_⟩
      exact filter_set_perm _ w.sessions hi (by simpa using hq) (by simpa using ht)
  | none =>
      rw [if_pos hroom]
      refine ⟨_, _, rfl, by simp, by simp, fun t ht => ?_⟩
      have hset : (w.sessions ++ [({} : MediaSession)]).set w.sessions.length t = w.sessions ++ [t] := by simp
      have htail : [t].filter (fun s => s.state != .empty) = [t] := by simp [ht]
      simp only [records, setSession, hset, List.filter_append, htail]
      exact List.perm_append_singleton t _

def reroute (routes : List RouteEntry) (t : MediaSession) : List RouteEntry :=
  if live t then putEntry t.sn t.rtpPort t.rtcpPort routes else routes

/-- The restore has let these records in, in this order, since world w. -/
structure Progress (w : World) (inside : List MediaSession) (u : World) : Prop where
  clock : SameClock w u
  nextEpoch : u.nextEpoch = w.nextEpoch
  redis : u.redis = w.redis
  zeroed : Zeroed u
  records : (records u).Perm (inside ++ records w)
  routes : u.routes = inside.foldl reroute w.routes
  sessionRoom : u.sessions.length ≤ w.sessions.length + inside.length
  routeRoom : u.routes.length ≤ w.routes.length + inside.length

theorem Progress.start (h : Zeroed w) : Progress w [] w := by
  constructor
  · exact .refl w
  · rfl
  · rfl
  · exact h
  · exact .refl _
  · rfl
  · exact Nat.le_refl _
  · exact Nat.le_refl _

theorem putEntry_length (sn : CString) (rtp rtcp : Int) (routes : List RouteEntry) :
    (putEntry sn rtp rtcp routes).length ≤ routes.length + 1 := by
  have hlabels := congrArg List.length (overwriteFirst_label routes sn rtp rtcp)
  simp only [List.length_map] at hlabels
  simp only [putEntry]
  split
  · omega
  · simp

theorem upsertRoute_with_room (sn : CString) (rtp rtcp : Int) (hroom : w.routes.length < maxRoutes) :
    ∃ w', upsertRoute w sn rtp rtcp = some w' := by
  simp only [upsertRoute, if_pos hroom]
  split
  · exact ⟨_, rfl⟩
  · exact ⟨_, rfl⟩

theorem occupy_progress {w u w₁ w₂ : World} {i : Nat}
    (h : Progress w inside u) (halloc : allocateSessionSlot u = some (i, w₁))
    (hlen : w₁.sessions.length ≤ u.sessions.length + 1) (hold : ∀ s ∈ w₁.sessions, s ∈ u.sessions ∨ s = {})
    (hperm : (records (setSession w₁ i t)).Perm (t :: records u)) (ht : t.state ≠ .empty)
    (hw₂ : ∃ clients, w₂ = { w₁ with routes := reroute u.routes t, clients := clients }) :
    Progress w (inside ++ [t]) (occupy w₂ i t) := by
  obtain ⟨sessions, hw₁⟩ := allocateSessionSlot_sessions halloc
  obtain ⟨clients, rfl⟩ := hw₂
  have hmono : mediaMonotonicMs (occupy { w₁ with routes := reroute u.routes t, clients := clients } i t) =
      mediaMonotonicMs u := by
    rw [mediaMonotonicMs_eq, mediaMonotonicMs_eq, hw₁]
    rfl
  constructor
  · exact h.clock.trans ⟨by rw [hw₁]; rfl, hmono⟩
  · exact Eq.trans (by rw [hw₁]; rfl) h.nextEpoch
  · exact Eq.trans (by rw [hw₁]; rfl) h.redis
  · intro s hs hempty
    rcases List.mem_or_eq_of_mem_set hs with hs | hs
    · rcases hold s hs with hs | hs
      · exact h.zeroed s hs hempty
      · exact hs
    · exact absurd (hs ▸ hempty) ht
  · refine List.Perm.trans hperm ?_
    rw [List.append_assoc]
    exact (h.records.cons t).trans List.perm_middle.symm
  · rw [List.foldl_append, ← h.routes]
    rfl
  · have hset : (occupy { w₁ with routes := reroute u.routes t, clients := clients } i t).sessions.length =
        w₁.sessions.length := List.length_set
    have hroom := h.sessionRoom
    rw [hset, List.length_append, List.length_singleton]
    omega
  · have hput : (reroute u.routes t).length ≤ u.routes.length + 1 := by
      simp only [reroute]
      split
      · exact putEntry_length _ _ _ _
      · exact Nat.le_succ _
    have hroom := h.routeRoom
    rw [List.length_append, List.length_singleton]
    exact hput.trans (by omega)

theorem restoreInto_progress {w u : World}
    (h : Progress w inside u) (ht : t.state = .starting ∨ t.state = .stopped)
    (hsessions : w.sessions.length + inside.length < maxMediaSessions)
    (hroutes : w.routes.length + inside.length < maxRoutes) : Progress w (inside ++ [t]) (restoreInto u t) := by
  have hne : t.state ≠ .empty := by
    rcases ht with h | h <;> simp [h]
  obtain ⟨i, w₁, halloc, hlen, hold, hperm⟩ := allocate_with_room (Nat.lt_of_le_of_lt h.sessionRoom hsessions)
  obtain ⟨sessions, hw₁⟩ := allocateSessionSlot_sessions halloc
  have hsame : w₁.routes = u.routes := by rw [hw₁]
  simp only [restoreInto, halloc]
  split
  next hstopped =>
    have hkeeps : ∃ clients, w₁ = { w₁ with routes := reroute u.routes t, clients := clients } := by
      refine ⟨w₁.clients, ?_⟩
      simp [reroute, live, hstopped, ← hsame]
    exact occupy_progress h halloc hlen hold (hperm t hne) hne hkeeps
  next hrunning =>
    have hlive : live t = true := (live_iff t).mpr (.inr (ht.resolve_right hrunning))
    have hroom : w₁.routes.length < maxRoutes := by
      rw [hsame]
      exact Nat.lt_of_le_of_lt h.routeRoom hroutes
    obtain ⟨w₂, hup⟩ := upsertRoute_with_room t.sn t.rtpPort t.rtcpPort hroom
    have hputs : ∃ clients, w₂ = { w₁ with routes := reroute u.routes t, clients := clients } := by
      refine ⟨retarget t.sn t.rtpPort t.rtcpPort w₁.clients, ?_⟩
      rw [upsertRoute_some hup, hsame]
      simp only [reroute, hlive, if_true]
    rw [hup]
    exact occupy_progress h halloc hlen hold (hperm t hne) hne hputs

def blocks (s t : MediaSession) : Bool := live s && s.sn == t.sn

section Keys

variable (valid : MediaStart → Bool)

def revived (w : World) (p : PersistedSession) : Option MediaSession :=
  (candidate valid w p).bind fun c =>
    if (findSessionById w p.request.sessionId).isSome ∨ (findActiveSessionForSn w c.sn).isSome then none
    else some (fenced (restoreLease w c p).1 w.nextEpoch)

def comesBack (w : World) (id : CString) : Option MediaSession :=
  match redisGet w (.session id) with
  | some (.record p) => revived valid w p
  | _ => none

def Keyed (w : World) : Prop := ∀ id p, redisGet w (.session id) = some (.record p) → p.request.sessionId = id

end Keys

variable {valid : MediaStart → Bool} {w u : World}

theorem Progress.clockOnly {u' : World} (h : Progress w inside u) (hc : ClockOnly u u')
    (hs : SameClock u u') : Progress w inside u' := by
  have hclock := h.clock.trans hs
  obtain ⟨_, _, _, rfl⟩ := hc
  exact ⟨hclock, h.nextEpoch, h.redis, h.zeroed, h.records, h.routes, h.sessionRoom, h.routeRoom⟩

section Candidate

variable {p : PersistedSession} {c : MediaSession} {inside : List MediaSession}

theorem candidate_named (hvalid : ∀ r, valid r = true → Admitted r) (hc : candidate valid w p = some c) :
    p.request.sessionId ≠ [] ∧ c.sn ≠ [] := by
  have hresumes := (restoreLease_spec w c p).2
  have hcand := restored_candidate hvalid hc hresumes
  constructor
  · rw [← restored_id hvalid hc, ← (restored_request hc hresumes).sessionId]
    exact hcand.named.1
  · rw [← hresumes.identity.sn]
    exact hcand.sn.1

theorem tables_with_progress (h : Progress w inside u) (hz : Zeroed w) (hid : p.request.sessionId ≠ []) (hsn : c.sn ≠ [])
    (hnew : ∀ s ∈ inside, s.sessionId ≠ p.request.sessionId) :
    ((findSessionById u p.request.sessionId).isSome = true ∨ (findActiveSessionForSn u c.sn).isSome = true) ↔
      ((findSessionById w p.request.sessionId).isSome = true ∨ (findActiveSessionForSn w c.sn).isSome = true) ∨
      ∃ s ∈ inside, live s = true ∧ s.sn = c.sn := by
  rw [findSessionById_isSome h.zeroed hid, findSessionById_isSome hz hid, findActiveSessionForSn_isSome hsn,
    findActiveSessionForSn_isSome hsn]
  simp only [h.records.mem_iff, List.mem_append]
  constructor
  · rintro (⟨s, hs | hs, he⟩ | ⟨s, hs | hs, hl, he⟩)
    · exact absurd he (hnew s hs)
    · exact .inl (.inl ⟨s, hs, he⟩)
    · exact .inr ⟨s, hs, hl, he⟩
    · exact .inl (.inr ⟨s, hs, hl, he⟩)
  · rintro ((⟨s, hs, he⟩ | ⟨s, hs, hl, he⟩) | ⟨s, hs, hl, he⟩)
    · exact .inl ⟨s, .inr hs, he⟩
    · exact .inr ⟨s, .inr hs, hl, he⟩
    · exact .inr ⟨s, .inl hs, hl, he⟩

theorem revived_some {t : MediaSession} (h : revived valid w p = some t) :
    ∃ c, candidate valid w p = some c ∧
      ¬ ((findSessionById w p.request.sessionId).isSome = true ∨ (findActiveSessionForSn w c.sn).isSome = true) ∧
      t = fenced (restoreLease w c p).1 w.nextEpoch := by
  obtain ⟨c, hc, ht⟩ := Option.bind_eq_some_iff.mp h
  split at ht
  · exact absurd ht (by simp)
  next htables => exact ⟨c, hc, htables, by simpa using ht.symm⟩

theorem revived_facts (hvalid : ∀ r, valid r = true → Admitted r) {t : MediaSession} (h : revived valid w p = some t) :
    t.sessionId = p.request.sessionId ∧ WellFormed t ∧ t.state ≠ .empty := by
  obtain ⟨c, hc, _, rfl⟩ := revived_some h
  have hresumes := (restoreLease_spec w c p).2
  have hwell := fenced_wellFormed hvalid hc hresumes w.nextEpoch
  have hid := (restored_request hc hresumes).sessionId.trans (restored_id hvalid hc)
  have hstate := hresumes.not_empty
  obtain ⟨minimum, he⟩ := fenced_keeps (restoreLease w c p).1 w.nextEpoch
  refine ⟨?_, hwell, ?_⟩
  · rw [he]
    exact hid
  · rw [he]
    rcases hstate with h | h <;> simp [h]

theorem restoreRecord_progress (hvalid : ∀ r, valid r = true → Admitted r) (hf : Frozen w.env) (hz : Zeroed w)
    (h : Progress w inside u) (hnew : ∀ s ∈ inside, s.sessionId ≠ p.request.sessionId)
    (hsessions : w.sessions.length + inside.length < maxMediaSessions)
    (hroutes : w.routes.length + inside.length < maxRoutes) :
    Progress w ((revived valid w p).elim inside (admitOne blocks inside)) (restoreRecord valid u p) := by
  simp only [restoreRecord, candidate_env h.clock.env]
  cases hc : candidate valid w p with
  | none => simpa [revived, hc] using h
  | some c =>
      dsimp only
      obtain ⟨hid, hsn⟩ := candidate_named hvalid hc
      have htables := tables_with_progress (c := c) h hz hid hsn hnew
      by_cases hbase : (findSessionById w p.request.sessionId).isSome = true ∨ (findActiveSessionForSn w c.sn).isSome = true
      · rw [if_pos (htables.mpr (.inl hbase))]
        simpa [revived, hc, hbase] using h
      · have hback : revived valid w p = some (fenced (restoreLease w c p).1 w.nextEpoch) := by
          simp only [revived, hc, Option.bind_some, if_neg hbase]
        have hresumes := (restoreLease_spec w c p).2
        obtain ⟨minimum, hfenced⟩ := fenced_keeps (restoreLease w c p).1 w.nextEpoch
        have hany : (inside.any fun s => blocks s (fenced (restoreLease w c p).1 w.nextEpoch)) = true ↔
            ∃ s ∈ inside, live s = true ∧ s.sn = c.sn := by
          rw [hfenced, ← hresumes.identity.sn]
          simp [blocks]
        rw [hback, Option.elim_some, admitOne]
        by_cases hin : ∃ s ∈ inside, live s = true ∧ s.sn = c.sn
        · rw [if_pos (htables.mpr (.inr hin)), if_pos (hany.mpr hin)]
          exact h
        · rw [if_neg (fun hu => (htables.mp hu).elim hbase hin), if_neg (fun hu => hin (hany.mp hu))]
          have hclock := (restoreLease_spec u c p).1
          have hsame := restoreLease_sameClock (h.clock.env.symm ▸ hf) c p
          have hlease := restoreLease_clock hf h.clock c p
          generalize restoreLease u c p = answer at hclock hsame hlease ⊢
          obtain ⟨t, u₁⟩ := answer
          obtain rfl : t = _ := hlease
          have hp := h.clockOnly hclock hsame
          have hepoch : u₁.nextEpoch = w.nextEpoch := hp.nextEpoch
          dsimp only
          rw [hepoch]
          refine restoreInto_progress hp ?_ hsessions hroutes
          rw [hfenced]
          exact hresumes.not_empty

end Candidate

theorem Keyed.comesBack_id (hkeyed : Keyed w) (hvalid : ∀ r, valid r = true → Admitted r)
    (h : comesBack valid w id = some t) : t.sessionId = id := by
  simp only [comesBack] at h
  split at h
  next p hp => exact (revived_facts hvalid h).1.trans (hkeyed id p hp)
  · exact absurd h (by simp)

theorem admitOne_length (inside : List MediaSession) (t : MediaSession) :
    (admitOne blocks inside t).length ≤ inside.length + 1 := by
  simp only [admitOne]
  split <;> simp

theorem mem_admitOne {s t : MediaSession} (h : s ∈ admitOne blocks inside t) :
    s ∈ inside ∨ s = t := by
  simp only [admitOne] at h
  split at h
  · exact .inl h
  · simpa using h

theorem restoreKey_progress (hvalid : ∀ r, valid r = true → Admitted r) (hf : Frozen w.env) (hz : Zeroed w)
    (hkeyed : Keyed w) (h : Progress w inside u)
    (hnew : ∀ s ∈ inside, s.sessionId ≠ id) (hsessions : w.sessions.length + inside.length < maxMediaSessions)
    (hroutes : w.routes.length + inside.length < maxRoutes) :
    Progress w ((comesBack valid w id).elim inside (admitOne blocks inside)) (restoreKey valid u id) := by
  have hget : redisGet u (.session id) = redisGet w (.session id) := by simp only [redisGet, h.redis]
  simp only [restoreKey, comesBack, hget]
  cases hvalue : redisGet w (.session id) with
  | none => exact h
  | some value =>
      cases value with
      | record p =>
          rw [← hkeyed id p hvalue] at hnew
          exact restoreRecord_progress hvalid hf hz h hnew hsessions hroutes
      | text content => exact h

theorem restore_progress (hvalid : ∀ r, valid r = true → Admitted r) (hf : Frozen w.env) (hz : Zeroed w)
    (hkeyed : Keyed w) {keys : List CString} (hkeys : keys.Nodup) {u : World}
    (h : Progress w inside u) (hnew : ∀ s ∈ inside, s.sessionId ∉ keys)
    (hsessions : w.sessions.length + inside.length + keys.length ≤ maxMediaSessions)
    (hroutes : w.routes.length + inside.length + keys.length ≤ maxRoutes) :
    Progress w ((keys.filterMap (comesBack valid w)).foldl (admitOne blocks) inside) (keys.foldl (restoreKey valid) u) := by
  induction keys generalizing inside u with
  | nil => exact h
  | cons id keys ih =>
      obtain ⟨hid, hkeys⟩ := List.nodup_cons.mp hkeys
      simp only [List.length_cons] at hsessions hroutes
      have hfresh : ∀ s ∈ inside, s.sessionId ≠ id := fun s hs he => hnew s hs (he ▸ List.mem_cons_self)
      have hstep := restoreKey_progress hvalid hf hz hkeyed h hfresh (by omega) (by omega)
      rw [List.foldl_cons, List.filterMap_cons]
      cases hback : comesBack valid w id with
      | none =>
          rw [hback] at hstep
          exact ih hkeys hstep (fun s hs hmem => hnew s hs (List.mem_cons_of_mem _ hmem)) (by omega) (by omega)
      | some t =>
          rw [hback] at hstep
          have hlen := admitOne_length inside t
          refine ih hkeys hstep (fun s hs hmem => ?_) ?_ ?_
          · rcases mem_admitOne hs with hs | rfl
            · exact hnew s hs (List.mem_cons_of_mem _ hmem)
            · rw [hkeyed.comesBack_id hvalid hback] at hmem
              exact hid hmem
          · omega
          · omega

section RouteTable

variable {routes : List RouteEntry} {sn other : CString} (rtp rtcp rtp' rtcp' : Int)

theorem overwriteFirst_append (tail : List RouteEntry) (h : (lookupRoute routes sn).isSome = true) :
    overwriteFirst sn rtp rtcp (routes ++ tail) = overwriteFirst sn rtp rtcp routes ++ tail := by
  induction routes with
  | nil => simp [lookupRoute] at h
  | cons r routes ih =>
      by_cases he : r.sn = sn
      · simp [overwriteFirst, he]
      · have hrest : (lookupRoute routes sn).isSome = true := by simpa [lookupRoute, he] using h
        simp [overwriteFirst, he, ih hrest]

theorem overwriteFirst_comm (hne : other ≠ sn) : overwriteFirst sn rtp rtcp (overwriteFirst other rtp' rtcp' routes) =
    overwriteFirst other rtp' rtcp' (overwriteFirst sn rtp rtcp routes) := by
  induction routes with
  | nil => rfl
  | cons r routes ih =>
      by_cases he : r.sn = sn
      · have ho : r.sn ≠ other := fun h => hne (h.symm.trans he)
        simp [overwriteFirst, he, hne.symm]
      · by_cases ho : r.sn = other
        · simp [overwriteFirst, ho, hne]
        · simp [overwriteFirst, he, ho, ih]

end RouteTable

def known (routes : List RouteEntry) (t : MediaSession) : Bool := (lookupRoute routes t.sn).isSome

def overwrite (routes : List RouteEntry) (t : MediaSession) : List RouteEntry :=
  overwriteFirst t.sn t.rtpPort t.rtcpPort routes

def newEntry (t : MediaSession) : RouteEntry := ⟨safeStrcpy 128 t.sn, t.rtpPort, t.rtcpPort, false⟩

theorem known_overwrite (routes : List RouteEntry) (s t : MediaSession) :
    known (overwrite routes s) t = known routes t := by
  simp only [known, overwrite]
  by_cases h : t.sn = s.sn
  · rw [h, overwriteFirst_self]
    simp
  · rw [overwriteFirst_other routes s.rtpPort s.rtcpPort h]

theorem known_append {routes : List RouteEntry} {s t : MediaSession} (hlen : s.sn.length < 128) (h : s.sn ≠ t.sn) :
    known (routes ++ [newEntry s]) t = known routes t := by
  have hnew : (newEntry s).sn ≠ t.sn := by simpa [newEntry, safeStrcpy_of_lt hlen] using h
  simp only [known, lookupRoute, List.find?_append]
  have hnone : [newEntry s].find? (fun r => r.sn == t.sn) = none := by simpa using hnew
  rw [hnone, Option.or_none]

theorem foldl_overwrite_append (tail : List RouteEntry) (l : List MediaSession) (routes : List RouteEntry)
    (h : ∀ t ∈ l, known routes t = true) :
    l.foldl overwrite (routes ++ tail) = l.foldl overwrite routes ++ tail := by
  induction l generalizing routes with
  | nil => rfl
  | cons t l ih =>
      rw [List.foldl_cons, List.foldl_cons, overwrite, overwriteFirst_append _ _ tail (h t (by simp))]
      exact ih _ fun s hs => (known_overwrite routes t s).trans (h s (by simp [hs]))

theorem foldl_reroute (l : List MediaSession) (routes : List RouteEntry)
    (hlive : ∀ t ∈ l, live t = true) (hlen : ∀ t ∈ l, t.sn.length < 128) (hsn : l.Pairwise fun s t => s.sn ≠ t.sn) :
    l.foldl reroute routes =
      (l.filter (known routes)).foldl overwrite routes ++ (l.filter fun t => !known routes t).map newEntry := by
  induction l generalizing routes with
  | nil => simp
  | cons t l ih =>
      obtain ⟨hother, hsn⟩ := List.pairwise_cons.mp hsn
      have ih := fun routes => ih routes (fun s hs => hlive s (by simp [hs])) (fun s hs => hlen s (by simp [hs])) hsn
      cases hk : known routes t with
      | true =>
          have hstep : reroute routes t = overwrite routes t := by
            simp only [known] at hk
            simp only [reroute, hlive t (by simp), putEntry, hk, if_true]
            rfl
          have hsame : known (overwrite routes t) = known routes := funext (known_overwrite routes t)
          rw [List.foldl_cons, hstep, ih, hsame]
          simp [hk]
      | false =>
          have hstep : reroute routes t = routes ++ [newEntry t] := by
            simp only [known] at hk
            simp only [reroute, hlive t (by simp), putEntry, hk, if_true]
            rfl
          have hsame : ∀ s ∈ l, known (routes ++ [newEntry t]) s = known routes s :=
            fun s hs => known_append (hlen t (by simp)) (hother s hs)
          have hpresent : l.filter (known (routes ++ [newEntry t])) = l.filter (known routes) := List.filter_congr hsame
          have habsent : l.filter (fun s => !known (routes ++ [newEntry t]) s) = l.filter fun s => !known routes s :=
            List.filter_congr fun s hs => by rw [hsame s hs]
          rw [List.foldl_cons, hstep, ih, hpresent, habsent, foldl_overwrite_append]
          · simp [hk]
          · intro s hs
            exact (List.mem_filter.mp hs).2

theorem foldl_reroute_live (l : List MediaSession) (routes : List RouteEntry) :
    l.foldl reroute routes = (l.filter live).foldl reroute routes := by
  induction l generalizing routes with
  | nil => rfl
  | cons t l ih =>
      cases hl : live t with
      | true => simp [hl, ih]
      | false => simp [hl, ih, reroute]

theorem live_apart {l : List MediaSession} (h : l.Pairwise fun s t => blocks s t = false) :
    (l.filter live).Pairwise fun s t => s.sn ≠ t.sn := by
  rw [List.pairwise_filter]
  refine h.imp fun {s t} hst hs _ he => ?_
  simp [blocks, hs, he] at hst

theorem foldl_reroute_perm {l l' : List MediaSession} (routes : List RouteEntry) (h : l.Perm l')
    (hlen : ∀ t ∈ l, t.sn.length < 128) (hl : l.Pairwise fun s t => blocks s t = false)
    (hl' : l'.Pairwise fun s t => blocks s t = false) :
    (l.foldl reroute routes).Perm (l'.foldl reroute routes) := by
  have hlive := h.filter live
  have hapart := live_apart hl
  have hlen' : ∀ t ∈ l.filter live, t.sn.length < 128 := fun t ht => hlen t (List.mem_filter.mp ht).1
  rw [foldl_reroute_live l, foldl_reroute_live l',
    foldl_reroute _ routes (fun t ht => (List.mem_filter.mp ht).2) hlen' hapart,
    foldl_reroute _ routes (fun t ht => (List.mem_filter.mp ht).2) (fun t ht => hlen' t (hlive.mem_iff.mpr ht)) (live_apart hl')]
  have hold : ((l.filter live).filter (known routes)).foldl overwrite routes =
      ((l'.filter live).filter (known routes)).foldl overwrite routes := by
    apply (hlive.filter (known routes)).foldl_eq'
    intro s hs t ht z
    by_cases he : s = t
    · rw [he]
    · have hsymm : Std.Symm fun s t : MediaSession => s.sn ≠ t.sn := ⟨fun _ _ h => h.symm⟩
      exact overwriteFirst_comm _ _ _ _ (hapart.forall (List.mem_filter.mp hs).1 (List.mem_filter.mp ht).1 he)
  rw [hold]
  exact ((hlive.filter _).map newEntry).append_left _

theorem mediaV2Restore_progress (hvalid : ∀ r, valid r = true → Admitted r) (hf : Frozen w.env) (hz : Zeroed w)
    (hkeyed : Keyed w) {keys : List CString} (hkeys : keys.Nodup)
    (hsessions : w.sessions.length + keys.length ≤ maxMediaSessions) (hroutes : w.routes.length + keys.length ≤ maxRoutes) :
    Progress w (greedy blocks (keys.filterMap (comesBack valid w))) (mediaV2Restore valid w keys) := by
  simp only [mediaV2Restore]
  split
  next hnone =>
    have hback : keys.filterMap (comesBack valid w) = [] := by
      rw [List.filterMap_eq_nil_iff]
      intro id _
      simp [comesBack, redisGet, Option.isNone_iff_eq_none.mp hnone]
    rw [hback]
    exact .start hz
  · exact restore_progress hvalid hf hz hkeyed hkeys (.start hz) (by simp) hsessions hroutes

/-- The same records in use, and the same routes, in whatever order the tables
hold them. -/
structure SameTables (w w' : World) : Prop where
  records : (records w).Perm (records w')
  routes : w.routes.Perm w'.routes

theorem comesBack_facts (hvalid : ∀ r, valid r = true → Admitted r)
    (h : comesBack valid w id = some t) : t.sn.length < 128 := by
  simp only [comesBack] at h
  split at h
  next p hp =>
    obtain ⟨_, hwell, hne⟩ := revived_facts hvalid h
    exact (hwell.sn hne).2
  · exact absurd h (by simp)

/-- With room in the tables and the clocks standing still, the outcome of
media_v2_restore is free of the order of the keys exactly when no record that
comes back live shares its device with another record that comes back. -/
theorem restore_order_free_iff (hvalid : ∀ r, valid r = true → Admitted r) (hf : Frozen w.env) (hz : Zeroed w)
    (hkeyed : Keyed w) {keys : List CString} (hkeys : keys.Nodup)
    (hsessions : w.sessions.length + keys.length ≤ maxMediaSessions) (hroutes : w.routes.length + keys.length ≤ maxRoutes) :
    (∀ first second : List CString, first.Perm keys → second.Perm keys →
      SameTables (mediaV2Restore valid w first) (mediaV2Restore valid w second)) ↔
    ∀ id ∈ keys, ∀ id' ∈ keys, id ≠ id' → ∀ s t, comesBack valid w id = some s → comesBack valid w id' = some t →
      live s = true → s.sn ≠ t.sn := by
  have hprogress : ∀ order : List CString, order.Perm keys →
      Progress w (greedy blocks (order.filterMap (comesBack valid w))) (mediaV2Restore valid w order) := by
    intro order horder
    apply mediaV2Restore_progress hvalid hf hz hkeyed (horder.nodup_iff.mpr hkeys)
    · rwa [horder.length_eq]
    · rwa [horder.length_eq]
  constructor
  · intro hfree id hid id' hid' hne s t hs ht hlive hsn
    have hblocks : blocks s t = true := by simp [blocks, hlive, hsn]
    have hdiffer : s ≠ t := by
      rintro rfl
      exact hne ((hkeyed.comesBack_id hvalid hs).symm.trans (hkeyed.comesBack_id hvalid ht))
    obtain ⟨rest, hrest⟩ : ∃ rest, (id :: id' :: rest).Perm keys := by
      refine ⟨(keys.erase id).erase id', ?_⟩
      have hmem : id' ∈ keys.erase id := (List.mem_erase_of_ne hne.symm).mpr hid'
      exact ((List.perm_cons_erase hmem).symm.cons id).trans (List.perm_cons_erase hid).symm
    have hswap : (id' :: id :: rest).Perm keys := (List.Perm.swap id id' rest).trans hrest
    have hsame := (hprogress _ hswap).records.symm.trans
      ((hfree _ _ hswap hrest).records.trans (hprogress _ hrest).records)
    rw [List.perm_append_right_iff] at hsame
    simp only [List.filterMap_cons, hs, ht] at hsame
    exact greedy_swap_differs hblocks hdiffer _ hsame
  · intro hapart first second hfirst hsecond
    have hpairs : ∀ order : List CString, order.Perm keys →
        (order.filterMap (comesBack valid w)).Pairwise fun s t => blocks s t = false := by
      intro order horder
      rw [List.pairwise_filterMap]
      apply (horder.nodup_iff.mpr hkeys).pairwise_of_forall_ne
      intro id hid id' hid' hne s hs t ht
      have := hapart id (horder.mem_iff.mp hid) id' (horder.mem_iff.mp hid') hne s t hs ht
      simpa [blocks] using this
    have hperm := (hfirst.trans hsecond.symm).filterMap (comesBack valid w)
    have hone := hprogress first hfirst
    have htwo := hprogress second hsecond
    rw [greedy_free (hpairs first hfirst)] at hone
    rw [greedy_free (hpairs second hsecond)] at htwo
    constructor
    · exact hone.records.trans ((hperm.append_right _).trans htwo.records.symm)
    · rw [hone.routes, htwo.routes]
      refine foldl_reroute_perm w.routes hperm ?_ (hpairs first hfirst) (hpairs second hsecond)
      intro t ht
      obtain ⟨id, _, hback⟩ := List.mem_filterMap.mp ht
      exact comesBack_facts hvalid hback

def keyedEntry : RedisKey × RedisValue × Int → Bool
  | (.session id, .record p, _) => p.request.sessionId == id
  | _ => true

theorem Keyed.of_store {store : List (RedisKey × RedisValue × Int)} (hw : w.redis = some store)
    (h : store.all keyedEntry = true) : Keyed w := by
  intro id p hp
  simp only [redisGet, hw, Option.bind_some] at hp
  obtain ⟨entry, hfind, hvalue⟩ := Option.map_eq_some_iff.mp hp
  have hkey : entry.1 = .session id := by simpa using List.find?_some hfind
  have hentry := List.all_eq_true.mp h entry (List.mem_of_find?_eq_some hfind)
  obtain ⟨key, value, ttl⟩ := entry
  obtain rfl : key = _ := hkey
  obtain rfl : value = _ := hvalue
  simpa [keyedEntry] using hentry

def secondRequest : MediaStart :=
  { desktopRequest with sessionId := uuid "6", operationId := uuid "7", leaseId := uuid "8", streamInstanceId := uuid "9" }

def twoVisits : World :=
  run goodJanus [.store (some []), .start false ⟨desktopRequest, desktopRequest_admitted⟩,
    .update false ⟨2, bytes "door", uuid "1", uuid "3", uuid "4", uuid "5", .stop []⟩,
    .start false ⟨secondRequest, by decide⟩]

def afterTwoVisits : World := { env := goodJanus.env, redis := twoVisits.redis }

def schema (r : MediaStart) : Bool := decide (Admitted r)

theorem afterTwoVisits_keyed : Keyed afterTwoVisits :=
  Keyed.of_store (show afterTwoVisits.redis = some (afterTwoVisits.redis.getD []) by decide +kernel) (by decide +kernel)

theorem afterTwoVisits_frozen : Frozen afterTwoVisits.env := ⟨fun _ => rfl, fun _ => rfl⟩

theorem restore_order_matters_door :
    (∀ r, schema r = true → Admitted r) ∧ Frozen afterTwoVisits.env ∧ Zeroed afterTwoVisits ∧ Keyed afterTwoVisits ∧
    [uuid "1", uuid "6"].Perm [uuid "6", uuid "1"] ∧
    (records (mediaV2Restore schema afterTwoVisits [uuid "1", uuid "6"])).length = 2 ∧
    (records (mediaV2Restore schema afterTwoVisits [uuid "6", uuid "1"])).length = 1 ∧
    ¬ SameTables (mediaV2Restore schema afterTwoVisits [uuid "1", uuid "6"])
      (mediaV2Restore schema afterTwoVisits [uuid "6", uuid "1"]) := by
  have htwo : (records (mediaV2Restore schema afterTwoVisits [uuid "1", uuid "6"])).length = 2 := by decide +kernel
  have hone : (records (mediaV2Restore schema afterTwoVisits [uuid "6", uuid "1"])).length = 1 := by decide +kernel
  refine ⟨fun r h => of_decide_eq_true h, afterTwoVisits_frozen, ?_, afterTwoVisits_keyed, List.Perm.swap _ _ _, htwo, hone, ?_⟩
  · simp [Zeroed, afterTwoVisits]
  · intro hsame
    have hlen := hsame.records.length_eq
    omega

theorem restore_order_free_iff_door :
    (∀ first second : List CString, first.Perm [uuid "6"] → second.Perm [uuid "6"] →
      SameTables (mediaV2Restore schema afterTwoVisits first) (mediaV2Restore schema afterTwoVisits second)) ∧
    ¬ ∀ first second : List CString, first.Perm [uuid "1", uuid "6"] → second.Perm [uuid "1", uuid "6"] →
      SameTables (mediaV2Restore schema afterTwoVisits first) (mediaV2Restore schema afterTwoVisits second) := by
  have hvalid : ∀ r, schema r = true → Admitted r := fun r h => of_decide_eq_true h
  have hzeroed : Zeroed afterTwoVisits := by simp [Zeroed, afterTwoVisits]
  constructor
  · refine (restore_order_free_iff hvalid afterTwoVisits_frozen hzeroed afterTwoVisits_keyed (by simp) (by decide)
      (by decide)).mpr ?_
    intro id hid id' hid' hne
    rw [List.mem_singleton] at hid hid'
    exact absurd (hid.trans hid'.symm) hne
  · intro hfree
    have hlive : ((comesBack schema afterTwoVisits (uuid "6")).map fun t => (live t, t.sn)) = some (true, bytes "door") := by
      decide +kernel
    have hstopped : ((comesBack schema afterTwoVisits (uuid "1")).map fun t => t.sn) = some (bytes "door") := by
      decide +kernel
    obtain ⟨s, hs, hsl⟩ := Option.map_eq_some_iff.mp hlive
    obtain ⟨t, ht, htn⟩ := Option.map_eq_some_iff.mp hstopped
    obtain ⟨hl, hsn⟩ := Prod.mk.inj hsl
    exact (restore_order_free_iff hvalid afterTwoVisits_frozen hzeroed afterTwoVisits_keyed (by decide) (by decide)
      (by decide)).mp hfree (uuid "6") (by simp) (uuid "1") (by simp) (by decide) s t hs ht hl (hsn.trans htn.symm)

end EtranProcessing.Ingress.RestoreOrder
