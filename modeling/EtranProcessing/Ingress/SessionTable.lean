import EtranProcessing.Ingress.Refinement

namespace EtranProcessing.Ingress.SessionTable

open Library.Tables Library.Runs
open State Clock Lifecycle MediaV2 Framing Control EventLoop Moves Settling Refinement

def DistinctIds (s t : MediaSession) : Prop :=
  s.state ≠ .empty → t.state ≠ .empty → s.sessionId ≠ t.sessionId

def Distinct (r : Registry) : Prop := Pairwise (Function.onFun DistinctIds r.slots)

def noRetry : Policy := ⟨False, True, True, True, fun _ => True, True⟩

theorem DistinctIds.symm (s t : MediaSession) (h : DistinctIds s t) : DistinctIds t s :=
  fun ht hs he => h hs ht he.symm

theorem DistinctIds.same {s t u : MediaSession} (h : DistinctIds s u) (hi : SameIdentity s t)
    (hs : s.state ≠ .empty) : DistinctIds t u := by
  intro _ hu
  rw [hi.sessionId]
  exact h hs hu

variable {w : World} {i : Nat} {p : Policy} {r r' : Registry}

theorem Admits.distinct {r : Registry} {t : MediaSession} (h : Admits p r i t) (hp : ¬ p.retry)
    (j : Nat) : DistinctIds t (r.slots j) :=
  fun _ _ he => hp (h.fresh j he.symm).1

theorem Distinct.write (h : Distinct r) (i : Nat) {t : MediaSession}
    (hr : r'.slots = Function.update r.slots i t) (ht : ∀ j, j ≠ i → DistinctIds t (r.slots j)) : Distinct r' := by
  simp only [Distinct, hr]
  exact pairwise_update DistinctIds.symm h i t ht

theorem Distinct.move (hp : ¬ p.retry) (hm : Move p r r') (hs : Sane r)
    (h : Distinct r) : Distinct r' := by
  cases hm with
  | touch i t hl _ hi => exact h.write i rfl fun j hj => (h hj.symm).same hi (live_not_empty hl)
  | stop i t hst =>
      exact h.write i rfl fun j hj => (h hj.symm).same hst.identity ((hs.record i).named hst.named)
  | clear i _ =>
      refine h.write i rfl fun j _ => ?_
      intro he
      exact absurd rfl he
  | fail i t ha _ _ => exact h.write i rfl fun j _ => Admits.distinct ha hp j
  | start i t ho => exact h.write i rfl fun j _ => Admits.distinct ho.toAdmits hp j
  | _ => exact h

theorem Path.distinct (hp : ¬ p.retry) (hpath : Path p r r') (hs : Sane r)
    (h : Distinct r) : Distinct r' := by
  have hboth := kept_along (p := fun r => Sane r ∧ Distinct r)
    (fun a b hm hi => ⟨Sane.move a b hm hi.1, Distinct.move hp hm hi.1 hi.2⟩) hpath ⟨hs, h⟩
  exact hboth.2

/-- What the session table promises: an id names one record, and a device has
at most one live session. -/
structure Integrity (w : World) : Prop where
  ids : ∀ i j, i ≠ j → (session w i).state ≠ .empty → (session w j).state ≠ .empty →
    (session w i).sessionId ≠ (session w j).sessionId
  devices : ∀ i j, i ≠ j → live (session w i) = true → live (session w j) = true →
    (session w i).sn ≠ (session w j).sn

theorem integrity_of_distinct (hs : Sane (registry w)) (h : Distinct (registry w)) : Integrity w where
  ids _ _ hij := h hij
  devices _ _ hij hi hj he :=
    h hij (live_not_empty hi) (live_not_empty hj) ((hs.pair hij).device hi hj he)

theorem noRetry_permits {e : Event} (h : ¬ RetriesFailed w e) : Permits noRetry w e :=
  ⟨h, fun _ => trivial, fun _ => trivial, fun _ => trivial, fun _ _ _ => trivial, fun _ => trivial⟩

theorem initial_distinct (h : Initial w) : Distinct (registry w) := by
  intro i j _ hi
  simp [registry, session, h.sessions] at hi

theorem run_distinct (h : Initial w) (events : List Event)
    (hok : Along step (fun w e => ¬ RetriesFailed w e) w events) : Distinct (registry (run w events)) := by
  have hpath : Path noRetry (registry w) (registry (run w events)) :=
    run_moves (initial_sane h) events (Along.mono (fun _ _ => noRetry_permits) events w hok)
  exact Path.distinct (p := noRetry) id hpath (initial_sane h) (initial_distinct h)

/-- In every run in which no legacy start names a FAILED record, every state on
the way has an intact session table. -/
theorem session_table_integrity {w : World} (h : Initial w) (events : List Event)
    (hok : Along step (fun w e => ¬ RetriesFailed w e) w events) (n : Nat) :
    Integrity (run w (events.take n)) :=
  integrity_of_distinct (run_sane h _) (run_distinct h _ (hok.take n))

/-- Answers for the runs on fixed inputs below: the wall clock stands still,
Janus has no mountpoints, and creating one works when the argument says so. -/
def sampleEnv (created : Nat → Bool) : Env where
  time _ := 1000
  monotonic _ := none
  realtime _ := none
  bootId := none
  janusInfo _ := some {}
  janusCreated := created
  janusDestroyed _ := true
  janusList _ := some []
  random _ := some fun _ => 0
  socketReady _ := true
  requestDump _ := []

def post (path body : String) : Event := .v1 .post (sessionsPrefix ++ bytes path) (bytes body)

def startDoor : Event := post "start" "\x7b\"session_id\":\"a\",\"sn\":\"door\"\x7d"

def lateJanus : World := { env := sampleEnv fun tick => decide (3 < tick) }

def goodJanus : World := { env := sampleEnv fun _ => true }

theorem initial_sample (created : Nat → Bool) : Initial { env := sampleEnv created } :=
  ⟨rfl, rfl, rfl, rfl, by simp⟩

theorem startDoor_permitted : Along step (fun w e => ¬ RetriesFailed w e) goodJanus [startDoor] := by
  refine ⟨?_, trivial⟩
  rintro ⟨i, _, hi, _⟩
  exact absurd hi (by simp [findSessionById, goodJanus])

theorem session_table_integrity_door :
    Along step (fun w e => ¬ RetriesFailed w e) goodJanus [startDoor, startDoor] ∧
    Integrity (run goodJanus ([startDoor, startDoor].take 2)) := by
  have hok : Along step (fun w e => ¬ RetriesFailed w e) goodJanus [startDoor, startDoor] := by
    refine ⟨startDoor_permitted.1, ?_, trivial⟩
    · rintro ⟨i, _, hi, hf⟩
      have hfirst : findSessionById (step goodJanus startDoor) (bytes "a") = some 0 := by decide +kernel
      have hactive : (session (step goodJanus startDoor) 0).state = .active := by decide +kernel
      obtain rfl : 0 = i := Option.some.inj (hfirst.symm.trans hi)
      rw [hactive] at hf
      exact absurd hf (by simp)
  exact ⟨hok, session_table_integrity (initial_sample _) _ hok 2⟩

/-- A start that Janus refused is retried under its id. After one retry the id
names two records, after another the device has two live ones. -/
theorem retried_start_breaks_integrity :
    Initial lateJanus ∧ ¬ Integrity (run lateJanus [startDoor, startDoor]) ∧
    live (session (run lateJanus [startDoor, startDoor, startDoor]) 1) = true ∧
    live (session (run lateJanus [startDoor, startDoor, startDoor]) 2) = true ∧
    (session (run lateJanus [startDoor, startDoor, startDoor]) 1).sn =
      (session (run lateJanus [startDoor, startDoor, startDoor]) 2).sn := by
  refine ⟨initial_sample _, fun h => ?_, by decide +kernel, by decide +kernel, by decide +kernel⟩
  exact h.ids 0 1 (by decide) (by decide +kernel) (by decide +kernel) (by decide +kernel)

/-- A lease that has run out at wall time t. Contract 3 goes by the monotonic
sample the process takes next; a lease without renewal counts from its start. -/
def RunOut (w : World) (s : MediaSession) (t : Int) : Prop :=
  if s.contractVersion = 3 then
    ∀ sample, mediaMonotonicMs w = some sample → s.monotonicDeadlineMs = 0 ∨ s.monotonicDeadlineMs ≤ sample
  else 0 < s.ttlSec ∧ s.ttlSec ≤ t - leaseStart s

theorem leaseOver_iff (w : World) (s : MediaSession) (t : Int) : leaseOver w s t = true ↔ RunOut w s t := by
  simp only [leaseOver, RunOut]
  split
  · cases mediaMonotonicMs w with
    | none => simp
    | some sample => simp
  · simp

theorem expire_resolved {t : Int} (hfind : findSessionById w (session w i).sessionId = some i)
    (hl : live (session w i) = true) (hover : leaseOver w (session w i) t = true) :
    ∃ w₁, ClockOnly w w₁ ∧ session (expireMediaSession w i t) i = stoppedRecord w₁ i (bytes "ttl_expired") := by
  rcases expireMediaSession_spec w i t with ⟨hnot, _⟩ | ⟨_, w₁, hclock, hstop⟩
  · exact absurd ⟨hl, hover⟩ hnot
  rw [hstop]
  refine ⟨w₁, hclock, ?_⟩
  have hsame : session w₁ = session w := (Quiet.of_clockOnly hclock).session_eq
  have hresolved : findSessionById w₁ (session w i).sessionId = some i :=
    ((Quiet.of_clockOnly hclock).settles.findSessionById _).trans hfind
  have hstate : (session w₁ i).state ≠ .stopped := by
    rw [hsame]
    rcases (live_iff _).mp hl with h | h <;> simp [h]
  simp only [stopMediaSession, hresolved, hstate, if_false]
  have hslots := congrArg Registry.slots
    (teardown_spec w₁ i (bytes "ttl_expired") (findSessionById_some hresolved).1).2.2
  change session _ = _ at hslots
  rw [hslots]
  simp

theorem Distinct.resolves (hs : Sane (registry w)) (hd : Distinct (registry w))
    (hl : live (session w i) = true) : findSessionById w (session w i).sessionId = some i := by
  have hnamed : (session w i).sessionId ≠ [] := ((hs.record i).sessionId (live_not_empty hl)).1
  cases hfind : findSessionById w (session w i).sessionId with
  | none => exact absurd rfl (findSessionById_none hnamed hfind i)
  | some j =>
      obtain ⟨_, hid, _⟩ := findSessionById_some hfind
      by_contra hne
      have hji : j ≠ i := fun he => hne (congrArg some he)
      exact hd hji ((hs.record j).named (hid ▸ hnamed)) (live_not_empty hl) hid

theorem expire_stops {t : Int} (hs : Sane (registry w)) (hd : Distinct (registry w))
    (hl : live (session w i) = true) (hover : leaseOver w (session w i) t = true) :
    (session (expireMediaSession w i t) i).state = .stopped := by
  obtain ⟨w₁, _, hrecord⟩ := expire_resolved (hd.resolves hs hl) hl hover
  rw [hrecord]
  rfl

def sweepBefore (w : World) (t : Int) (i : Nat) : World :=
  (List.range i).foldl (fun w i => expireMediaSession w i t) w

theorem sweepBefore_succ (w : World) (t : Int) (i : Nat) :
    sweepBefore w t (i + 1) = expireMediaSession (sweepBefore w t i) i t := by
  simp [sweepBefore, List.range_succ]

theorem expirySweep_eq (w : World) (t : Int) : expirySweep w t = sweepBefore w t w.sessions.length := rfl

theorem sweepBefore_settles (w : World) (t : Int) (i n : Nat) : Settles (sweepBefore w t i) (sweepBefore w t (i + n)) := by
  induction n with
  | zero => exact .refl _
  | succ n ih =>
      rw [← Nat.add_assoc, sweepBefore_succ]
      exact ih.trans (expireMediaSession_settles _ _ _)

theorem sweepBefore_path (w : World) (t : Int) (i : Nat) :
    Path p (registry w) (registry (sweepBefore w t i)) := by
  induction i with
  | zero => exact .refl
  | succ i ih =>
      rw [sweepBefore_succ]
      exact ih.trans (expireMediaSession_path _ _ _)

theorem sweep_survivor {t : Int} (hs : Sane (registry w)) (hd : Distinct (registry w))
    (hl : live (session (expirySweep w t) i) = true) :
    leaseOver (sweepBefore w t i) (session (expirySweep w t) i) t = false := by
  rw [expirySweep_eq] at hl ⊢
  have hlt : i < w.sessions.length := by
    by_contra hge
    have hlen := (sweepBefore_settles w t 0 w.sessions.length).length
    rw [Nat.zero_add] at hlen
    have hout : (sweepBefore w t w.sessions.length).sessions.length ≤ i := by
      rw [hlen]
      exact Nat.le_of_not_lt hge
    simp [session, hout, live] at hl
  obtain ⟨n, hn⟩ := Nat.exists_eq_add_of_le (Nat.succ_le_of_lt hlt)
  have hafter : Settles (sweepBefore w t (i + 1)) (sweepBefore w t w.sessions.length) := by
    rw [hn]
    exact sweepBefore_settles w t (i + 1) n
  have hkept := hafter.live i hl
  have hlive := hl
  rw [hkept] at hlive
  rw [sweepBefore_succ] at hkept hlive
  have hsame := (expireMediaSession_settles (sweepBefore w t i) i t).live i hlive
  rw [hkept, hsame]
  rw [hsame] at hlive
  by_contra hover
  have hpath := sweepBefore_path (p := noRetry) w t i
  have hstop := expire_stops (t := t) (hpath.sane hs) (Path.distinct id hpath hs hd) hlive (by simpa using hover)
  rw [hsame] at hstop
  rcases (live_iff _).mp hlive with h | h <;> simp [h] at hstop

/-- In every run in which no legacy start names a FAILED record, a lease that
has run out ends with the check of its slot, and after a sweep every live slot
was in time when it was looked at. -/
theorem lease_enforced {w : World} (h : Initial w) (events : List Event)
    (hok : Along step (fun w e => ¬ RetriesFailed w e) w events) (n : Nat) (t : Int) :
    (∀ i, live (session (run w (events.take n)) i) = true →
      RunOut (run w (events.take n)) (session (run w (events.take n)) i) t →
      live (session (expireMediaSession (run w (events.take n)) i t) i) = false) ∧
    ∀ i, live (session (expirySweep (run w (events.take n)) t) i) = true →
      ¬ RunOut (sweepBefore (run w (events.take n)) t i) (session (expirySweep (run w (events.take n)) t) i) t := by
  have hs := run_sane h (events.take n)
  have hd := run_distinct h _ (hok.take n)
  constructor
  · intro i hl hover
    have hstop := expire_stops hs hd hl ((leaseOver_iff _ _ _).mpr hover)
    simp [live, hstop]
  · intro i hl hover
    have hsurvives := sweep_survivor hs hd hl
    rw [(leaseOver_iff _ _ _).mpr hover] at hsurvives
    exact absurd hsurvives (by simp)

theorem lease_enforced_door :
    live (session (run goodJanus ([startDoor].take 1)) 0) = true ∧
    RunOut (run goodJanus ([startDoor].take 1)) (session (run goodJanus ([startDoor].take 1)) 0) 1600 ∧
    live (session (expireMediaSession (run goodJanus ([startDoor].take 1)) 0 1600) 0) = false := by
  have hl : live (session (run goodJanus ([startDoor].take 1)) 0) = true := by decide +kernel
  have hover : RunOut (run goodJanus ([startDoor].take 1)) (session (run goodJanus ([startDoor].take 1)) 0) 1600 := by
    rw [← leaseOver_iff]
    decide +kernel
  exact ⟨hl, hover, (lease_enforced (initial_sample _) [startDoor] startDoor_permitted 1 1600).1 0 hl hover⟩

/-- The expiry of the second record of an id stops the first one: the lease has
run out and the slot stays live, after its own check and after a sweep. -/
theorem duplicate_outlives_its_lease :
    Initial lateJanus ∧
    live (session (run lateJanus [startDoor, startDoor]) 1) = true ∧
    RunOut (run lateJanus [startDoor, startDoor]) (session (run lateJanus [startDoor, startDoor]) 1) 1600 ∧
    live (session (expireMediaSession (run lateJanus [startDoor, startDoor]) 1 1600) 1) = true ∧
    live (session (expirySweep (run lateJanus [startDoor, startDoor]) 1600) 1) = true := by
  refine ⟨initial_sample _, by decide +kernel, ?_, by decide +kernel, by decide +kernel⟩
  rw [← leaseOver_iff]
  decide +kernel

end EtranProcessing.Ingress.SessionTable
