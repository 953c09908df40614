import EtranProcessing.Deployment.ActionHistory

namespace EtranProcessing.Deployment.ServiceDiscipline

open Library.Calls Library.Fallible Library.Histories Library.Runs Journal JournalFrames Records RemoteStatus
open JournalRecovery (Entry numbered)
open UpdateMarker (UpdateState stateValid)
open WorkerHandoff ActionRecords ServiceTransaction ActionHistory

variable {op : Operation} {m m' : Memory} {r : Record} {a : Action} {p : PendingAction}

section Writers

theorem history_intent (hr : r = ⟨100, r.sequence, actionEncode a⟩) (hrestoring : m.restoring = false)
    (hvalid : actionValid a 100) (hbound : actionBound op m r a) : history op m r = intentHistory m r a := by
  rw [hr] at hbound ⊢
  simp [history, hrestoring, actionDecode_encode hvalid, hbound, require, demand, bind, Except.bind]

theorem history_done (hr : r = ⟨101, r.sequence, actionEncode a⟩) (hrestoring : m.restoring = false)
    (hvalid : actionValid a 101) (hbound : actionBound op m r a) : history op m r = doneHistory m a := by
  rw [hr] at hbound ⊢
  simp [history, hrestoring, actionDecode_encode hvalid, hbound, require, demand, bind, Except.bind]

theorem history_restore (hr : r = ⟨104, r.sequence, actionEncode a⟩) (hvalid : actionValid a 104)
    (hbound : actionBound op m r a) : history op m r = restoreHistory m r a := by
  have hextended : extended 104 := by decide
  rw [hr] at hbound ⊢
  simp [history, hextended, actionDecode_encode hvalid, hbound, require, demand, bind, Except.bind]

theorem history_restored (hr : r = ⟨105, r.sequence, actionEncode a⟩) (hvalid : actionValid a 105)
    (hbound : actionBound op m r a) : history op m r = restoredHistory m r a := by
  have hextended : extended 105 := by decide
  rw [hr] at hbound ⊢
  simp [history, hextended, actionDecode_encode hvalid, hbound, require, demand, bind, Except.bind]

theorem history_abandon (hr : r = ⟨106, r.sequence, actionEncode a⟩) (hvalid : actionValid a 106)
    (hbound : actionBound op m r a) : history op m r = abandonHistory m a := by
  have hextended : extended 106 := by decide
  rw [hr] at hbound ⊢
  simp [history, hextended, actionDecode_encode hvalid, hbound, require, demand, bind, Except.bind]

end Writers

def announces (e : Entry) (n : Native) : Prop :=
  serviceIn e = n.service ∧ ((e.1 = 100 ∧ n.mutation = forwardMutation (actionRead e.2).action) ∨
    (e.1 = 104 ∧ n.mutation = backwardMutation (actionRead e.2).action))

structure Own (records : List Entry) (n : Native) (before : List Entry) (e : Entry) : Prop where
  place : ∃ after, records = before ++ e :: after
  last : n.records = before.length + 1
  announces : announces e n

variable {active : UpdateState} {e : Entry} {records : List Entry} {x : Completing} {n : Native}

theorem Own.concat {before : List Entry} (h : Own records n before e)
    (added : Entry) : Own (records ++ [added]) n before e where
  place := by
    obtain ⟨after, hafter⟩ := h.place
    exact ⟨after ++ [added], by simp [hafter]⟩
  last := h.last
  announces := h.announces

theorem Own.le {before : List Entry} (h : Own records n before e) :
    n.records ≤ records.length := by
  obtain ⟨after, rfl⟩ := h.place
  rw [h.last]
  simp

/-- The memory and a replay agree on what has been done and restored, and on what is open. -/
structure Agrees (m m' : Memory) : Prop where
  done : m.done = m'.done
  completed : m.completed = m'.completed
  restoreDone : m.restoreDone = m'.restoreDone
  restored : m.restored = m'.restored
  restoreSequences : m.restoreSequences = m'.restoreSequences
  pending : m.pending = m'.pending
  restoring : m.restoring = m'.restoring

theorem Agrees.refl (m : Memory) : Agrees m m := ⟨rfl, rfl, rfl, rfl, rfl, rfl, rfl⟩

def Retained (m : Memory) (retained : Nat → Option (UInt32 × UInt64)) : Prop :=
  ∀ i x, stoppedProcess m i = some x → retained i = some x

structure Inv (op : Operation) (w : World) (m : Memory) : Prop where
  replays : Replays op w.log.records m
  retained : Retained m w.retained
  own : ∀ n ∈ w.natives, ∃ before e, Own w.log.records n before e
  once : (w.natives.map Native.records).Pairwise (· < ·)

/-- What the memory is between calls: the replay of the journal, unless the journal can no
longer be read or the last reading of it was refused. -/
def Known (w : World) (m : Memory) : Prop :=
  w.log.poisoned = true ∨ Agrees w.memory m ∨ (w.memory = noMemory ∧ w.recoveryRequired = true)

def Good (op : Operation) (w : World) : Prop := ∃ m, Inv op w m ∧ Known w m

/-- What a call relies on once it has read the journal. -/
structure During (op : Operation) (w : World) (m : Memory) : Prop where
  inv : Inv op w m
  live : w.log.poisoned = false
  agrees : Agrees w.memory m
  planned : op.sequence.toNat ≤ w.log.records.length

variable {w w' : World}

theorem During.good (h : During op w m) : Good op w := ⟨m, h.inv, .inr (.inl h.agrees)⟩

theorem During.of_eq (h : During op w m) (hlog : w'.log = w.log) (hmemory : w'.memory = w.memory)
    (hnatives : w'.natives = w.natives) (hretained : Retained m w'.retained) : During op w' m where
  inv :=
    { replays := by
        rw [hlog]
        exact h.inv.replays
      retained := hretained
      own := by
        rw [hlog, hnatives]
        exact h.inv.own
      once := by
        rw [hnatives]
        exact h.inv.once }
  live := by
    rw [hlog]
    exact h.live
  agrees := by
    rw [hmemory]
    exact h.agrees
  planned := by
    rw [hlog]
    exact h.planned

theorem During.told (h : During op w m) : Told op w.log.records m := replays_told h.inv.replays

theorem Inv.concat (h : Inv op w m) (w' : World) (hlog : w'.log.records = w.log.records ++ [e])
    (hnatives : w'.natives = w.natives) (hr : history op m (nextRecord w.log.records e) = .ok m')
    (hretained : Retained m' w'.retained) : Inv op w' m' where
  replays := by
    rw [hlog]
    exact replays_concat.mpr ⟨m, h.replays, hr⟩
  retained := hretained
  own := by
    rw [hlog, hnatives]
    intro n hn
    obtain ⟨before, b, hown⟩ := h.own n hn
    exact ⟨before, b, hown.concat e⟩
  once := by
    rw [hnatives]
    exact h.once

section Rules

variable {post : Unit → World → Prop}

theorem append_wp {kind : UInt32} {bytes : Bytes} {fault : Option AppendFault} {next : Nat → World → Prop}
    (h : During op w m) (hr : history op m (nextRecord w.log.records (kind, bytes)) = .ok m')
    (hretained : Retained m' w.retained)
    (hpost : next (w.log.records.length + 1) { w with log := ⟨w.log.records ++ [(kind, bytes)], false⟩ }) :
    wp (append kind bytes fault) next (Good op) w := by
  rw [wp_run]
  change (∀ n, (appendRecord w.log kind bytes fault).1 = some n →
      next n { w with log := (appendRecord w.log kind bytes fault).2 }) ∧
    ((appendRecord w.log kind bytes fault).1 = none → Good op { w with log := (appendRecord w.log kind bytes fault).2 })
  rcases appendRecord_cases w.log kind bytes fault with ⟨hnone, _⟩ | ⟨hdone, _⟩
  · refine ⟨fun n hn => ?_, fun _ => ?_⟩
    · rw [hnone] at hn
      cases hn
    rcases appendRecord_lost hnone with hsame | ⟨hmore, hpoisoned⟩
    · refine ⟨m, ⟨?_, h.inv.retained, ?_, h.inv.once⟩, .inr (.inl h.agrees)⟩
      · simp only [hsame]
        exact h.inv.replays
      · simp only [hsame]
        exact h.inv.own
    · exact ⟨m', h.inv.concat _ hmore rfl hr hretained, .inl hpoisoned⟩
  · rw [hdone]
    refine ⟨fun n hn => ?_, fun hn => ?_⟩
    · cases hn
      exact hpost
    · cases hn

variable {next : Observation → World → Prop} {lost : World → Prop} {service : Nat} {active : UpdateState}

theorem authority_wp {granted : Bool} (hlost : lost w)
    (hpost : w.log.poisoned = false → op.sequence.toNat ≤ w.log.records.length → post () w) :
    wp (authority op granted) post lost w := by
  simp only [authority, wp_bind, wp_current, wp_check]
  refine ⟨fun hchecked => hpost hchecked.1 ?_, fun _ => hlost⟩
  have hfound := hchecked.2.2
  unfold findRecord at hfound
  split at hfound
  next => cases hfound
  next =>
    split at hfound
    next => cases hfound
    next r hr =>
      have hin := (List.getElem?_eq_some_iff.mp hr).1
      omega

theorem reload_wp {granted : Bool} (hinv : Inv op w m) (hpost : ∀ w' m, During op w' m → w'.memory = m →
      w'.recoveryRequired = (w'.blocked || m.pending.isSome || m.config.isSome) → post () w') :
    wp (reload op granted) post (Good op) w := by
  have hcleared : Inv op { w with memory := noMemory, recoveryRequired := true } m :=
    ⟨hinv.replays, hinv.retained, hinv.own, hinv.once⟩
  simp only [reload, wp_bind, wp_change]
  apply authority_wp ⟨m, hcleared, .inr (.inr ⟨rfl, rfl⟩)⟩
  intro hlive hplanned
  have hreplay := replayInto_eq hinv.replays
  simp only [wp_bind, wp_current, wp_change, wp_check, hreplay, not_true_eq_false, false_implies, and_true, true_implies]
  exact hpost _ m ⟨⟨hinv.replays, hinv.retained, hinv.own, hinv.once⟩, hlive, Agrees.refl m, hplanned⟩ rfl rfl

theorem serviceObserve_wp {seen : Option Observation}
    (h : During op w m) (hpost : ∀ o ret, During op { w with retained := ret } m →
      (o.phase.stopped = true → ret service = some (o.pid, o.birth)) → next o { w with retained := ret })
    (hlost : lost w) : wp (serviceObserve service seen) next lost w := by
  simp only [serviceObserve, wp_bind, wp_found, wp_current]
  refine ⟨fun o _ => ?_, fun _ => hlost⟩
  split
  next hstopped =>
    simp only [wp_bind, wp_change, wp_pure]
    apply hpost
    · refine h.of_eq rfl rfl rfl fun i x hx => ?_
      have hkept := h.inv.retained i x hx
      by_cases hi : i = service
      · subst hi
        have hphase : (report (w.retained i) o).phase = o.phase := by
          unfold report
          split
          next => split <;> rfl
          next => rfl
        rw [hphase] at hstopped
        simp [report, hstopped, hkept]
      · simp only [Function.update_of_ne hi]
        exact hkept
    · intro _
      exact Function.update_self _ _ _
  next hstopped =>
    rw [wp_pure]
    exact hpost _ w.retained h fun hstop => absurd hstop hstopped

theorem state_ne {s : UpdateState} (hvalid : stateValid s) (hwindow : s.window ≠ 0) : s.generation ≠ 0 ∧ s.deadlineUtc ≠ 0 := by
  unfold stateValid at hvalid
  split at hvalid
  next => exact absurd hvalid.2.1 hwindow
  next hgeneration => exact ⟨hgeneration, by simpa [hwindow] using hvalid.2.2.2⟩

theorem stateIs_valid {current : Option ReadState} (h : stateIs active current)
    (hwindow : active.window ≠ 0) : active.generation ≠ 0 ∧ active.deadlineUtc ≠ 0 := by
  unfold stateIs at h
  rw [Option.any_eq_true] at h
  obtain ⟨s, _, hsame⟩ := h
  rw [decide_eq_true_eq] at hsame
  obtain ⟨_, hw, hg, _, hd⟩ := hsame
  rw [hw] at hwindow
  rw [hg, hd]
  exact state_ne s.2 hwindow

structure Observed (op : Operation) (service : Nat) (active : UpdateState) (o : Observation) : Prop where
  pid : o.pid ≠ 0
  birth : o.birth ≠ 0
  reference : o.reference = op.references service

theorem observe_wp {look : Look}
    (h : During op w m) (hpost : ∀ o ret, During op { w with retained := ret } m → Observed op service active o →
      active.planSequence = op.sequence ∧ active.window = (if service < 2 then 1 else 2) →
      active.generation ≠ 0 ∧ active.deadlineUtc ≠ 0 → next o { w with retained := ret }) :
    wp (observe op service active look) next (Good op) w := by
  simp only [observe, wp_bind, wp_check]
  refine ⟨fun hchecked => ?_, fun _ => h.good⟩
  refine serviceObserve_wp h (fun o ret hduring _ => ?_) h.good
  simp only [wp_bind, wp_check, wp_pure]
  refine ⟨fun hseen => ?_, fun _ => hduring.good⟩
  have hwindow : active.window ≠ 0 := by
    rw [hchecked.2.1]
    split <;> decide
  exact hpost o ret hduring ⟨hseen.1, hseen.2.1, hseen.2.2.2⟩ ⟨hchecked.1, hchecked.2.1⟩
    (stateIs_valid hchecked.2.2 hwindow)

theorem restoreObserve_wp {look : Look}
    (h : During op w m)
    (hlost : ∀ ret, During op { w with retained := ret } m → lost { w with retained := ret }) (hwindow : active.window ≠ 0)
    (hpost : ∀ o ret, During op { w with retained := ret } m → Observed op service active o →
      (o.phase.stopped = true → ret service = some (o.pid, o.birth)) →
      active.generation ≠ 0 ∧ active.deadlineUtc ≠ 0 → next o { w with retained := ret }) :
    wp (restoreObserve op service active look) next lost w := by
  simp only [restoreObserve, wp_bind, wp_check]
  refine ⟨fun hstate => ?_, fun _ => hlost w.retained h⟩
  apply serviceObserve_wp h
  · intro o ret hduring hstopped
    simp only [wp_bind, wp_check, wp_pure]
    refine ⟨fun hseen => ?_, fun _ => hlost ret hduring⟩
    exact hpost o ret hduring ⟨hseen.1, hseen.2.1, hseen.2.2.2⟩ hstopped (stateIs_valid hstate hwindow)
  · exact hlost w.retained h

theorem announce_wp {kind : UInt32} {fault : Option AppendFault} (h : During op w m)
    (hr : history op m (nextRecord w.log.records (kind, actionEncode a)) = .ok m') (hretained : Retained m' w.retained)
    (hpost : post () { w with
      log := ⟨w.log.records ++ [(kind, actionEncode a)], false⟩
      recoveryRequired := true
      memory := { w.memory with pending := some ⟨kind, w.log.records.length + 1, a⟩ } }) :
    wp (announce kind a fault) post (Good op) w := by
  have hduring : During op { w with recoveryRequired := true } m := h.of_eq rfl rfl rfl h.inv.retained
  simp only [announce, wp_bind, wp_change, wp_attempt]
  have happend : wp (append kind (actionEncode a) fault) (fun n w' => n = w.log.records.length + 1 ∧
      w' = { w with recoveryRequired := true, log := ⟨w.log.records ++ [(kind, actionEncode a)], false⟩ }) (Good op)
      { w with recoveryRequired := true } := append_wp hduring hr hretained ⟨rfl, rfl⟩
  refine wp_mono happend ?_ ?_
  · rintro n w' ⟨rfl, rfl⟩
    exact hpost
  · intro w' hw'
    simp only [wp_bind, wp_change, wp_check]
    refine ⟨fun hfalse => hfalse.elim, fun _ => ?_⟩
    obtain ⟨m, hinv, hknown⟩ := hw'
    exact ⟨m, ⟨hinv.replays, hinv.retained, hinv.own, hinv.once⟩, hknown⟩

theorem During.concat {e : Entry} (h : During op w m) (w' : World) (hlog : w'.log = ⟨w.log.records ++ [e], false⟩)
    (hnatives : w'.natives = w.natives) (hr : history op m (nextRecord w.log.records e) = .ok m')
    (hretained : Retained m' w'.retained) (hagrees : Agrees w'.memory m') : During op w' m' where
  inv := h.inv.concat w' (by rw [hlog]) hnatives hr hretained
  live := by rw [hlog]
  agrees := hagrees
  planned := by
    rw [hlog]
    simp only [List.length_append, List.length_singleton]
    exact Nat.le_succ_of_le h.planned

theorem native_wp {mutation : Mutation} {done : Bool} {before : List Entry} {e : Entry} (h : During op w m)
    (hlast : w.log.records = before ++ [e]) (hannounces : announces e ⟨service, mutation, w.log.records.length⟩)
    (hbefore : ∀ n ∈ w.natives, n.records < w.log.records.length)
    (hretained : mutation.starts = true → ∀ x, stoppedProcess m service ≠ some x)
    (hpost : ∀ w', During op w' m → w'.log = w.log → w'.memory = w.memory → post () w') :
    wp (native service mutation done) post (Good op) w := by
  simp only [native, wp_bind, wp_change, wp_check]
  have hduring : During op { w with
      natives := w.natives ++ [⟨service, mutation, w.log.records.length⟩]
      retained := if mutation.starts = true then Function.update w.retained service none else w.retained } m := by
    refine ⟨⟨h.inv.replays, ?_, ?_, ?_⟩, h.live, h.agrees, h.planned⟩
    · intro i x hx
      split
      next hstarts =>
        have hi : i ≠ service := fun hi => hretained hstarts x (hi ▸ hx)
        simp only [Function.update_of_ne hi]
        exact h.inv.retained i x hx
      next => exact h.inv.retained i x hx
    · intro n hn
      rcases List.mem_append.mp hn with hn | hn
      · exact h.inv.own n hn
      · rw [List.mem_singleton.mp hn]
        exact ⟨before, e, ⟨[], hlast⟩, by simp [hlast], hannounces⟩
    · simp only [List.map_append, List.map_cons, List.map_nil]
      rw [List.pairwise_append]
      refine ⟨h.inv.once, List.pairwise_singleton _ _, ?_⟩
      intro x hx y hy
      obtain ⟨n, hn, rfl⟩ := List.mem_map.mp hx
      rw [List.mem_singleton.mp hy]
      exact hbefore n hn
  exact ⟨fun _ => hpost _ hduring rfl rfl, fun _ => hduring.good⟩

end Rules

theorem stoppedProcess_quiet {i : Nat} (h : m.restoreDone i = 0) : stoppedProcess m i = none := by
  simp [stoppedProcess, h]

theorem retained_quiet {retained : Nat → Option (UInt32 × UInt64)} (h : ∀ i, m.restoreDone i = 0) :
    Retained m retained := by
  intro i x hx
  rw [stoppedProcess_quiet (h i)] at hx
  cases hx

theorem Retained.of_eq {retained : Nat → Option (UInt32 × UInt64)} (h : Retained m retained)
    (hnone : m.pending = none) (hdone : m'.restoreDone = m.restoreDone) (hrestored : m'.restored = m.restored) :
    Retained m' retained := by
  intro i x hx
  apply h i x
  unfold stoppedProcess at hx ⊢
  rw [hdone, hrestored] at hx
  split at hx
  next hstopped =>
    rw [if_pos ⟨hstopped.1, by simp [hnone]⟩]
    exact hx
  next => cases hx

theorem During.forward (h : During op w m) (hp : m.pending = some p) (hk : p.kind = 100) :
    m.restoring = false ∧ ∀ i, m.restoreDone i = 0 := by
  rcases (h.told.pending p hp).side with ⟨_, hrestoring, _⟩ | ⟨hback, _⟩
  · exact ⟨hrestoring, (h.told.quiet hrestoring).2⟩
  · rw [hk] at hback
    cases hback

theorem During.bound (h : During op w m) (hp : m.pending = some p) (hplan : a.plan = p.action.plan)
    (hservice : a.service = p.action.service) (hreference : a.reference = p.action.reference) :
    actionBound op m (nextRecord w.log.records e) a := by
  have ht := h.told.pending p hp
  refine ⟨Nat.lt_succ_of_le h.planned, hplan.trans ht.bound.1, ?_, by simp [ht.config]⟩
  rw [hreference, hservice]
  exact ht.bound.2

theorem completed_accepted {service : Nat} {o : Observation} (h : During op w m) (hp : m.pending = some p)
    (hk : p.kind = 100) (ho : Observed op service active o) (hpost : postcondition p.action o)
    (hstart : ¬ (p.action.action = 3 ∧ o.pid = p.action.pid ∧ o.birth = p.action.birth))
    (ha : a = { p.action with intent := .ofNat p.sequence, pid := o.pid, birth := o.birth }) :
    history op m (nextRecord w.log.records (101, actionEncode a)) = .ok { m with
      done := Function.update m.done a.service.toNat a.action.toNat
      completed := Function.update m.completed a.service.toNat a
      pending := none } := by
  have ht := h.told.pending p hp
  have hvalid : actionValid a 101 := by
    have hp100 := ht.valid
    rw [hk] at hp100
    rw [ha]
    exact ⟨hp100.1, hp100.2.1, hp100.2.2.1, hp100.2.2.2.1, ho.pid, ho.birth⟩
  rw [history_done rfl (h.forward hp hk).1 hvalid (h.bound hp (by rw [ha]) (by rw [ha]) (by rw [ha])), doneHistory_ok]
  refine ⟨p, hp, ⟨by rw [ha], ?_, ?_⟩, rfl⟩
  · rw [ha]
    exact hstart
  · unfold expectedDone
    rw [ha]
    rcases hpost.2 with h3 | ⟨hpid, hbirth⟩
    · simp [h3]
    · simp [hpid, hbirth]

theorem blocked_wp (h : Good op w) : wp (setBlocked >>= fun _ => check False) (fun _ => Good op) (Good op) w := by
  simp only [setBlocked, wp_bind, wp_change, wp_check]
  refine ⟨fun hfalse => hfalse.elim, fun _ => ?_⟩
  obtain ⟨m, hinv, hknown⟩ := h
  refine ⟨m, ⟨hinv.replays, hinv.retained, hinv.own, hinv.once⟩, ?_⟩
  rcases hknown with hpoisoned | hagrees | ⟨hmemory, _⟩
  · exact .inl hpoisoned
  · exact .inr (.inl hagrees)
  · exact .inr (.inr ⟨hmemory, rfl⟩)

theorem completeRecheck_wp (h : During op w m) :
    wp (completeRecheck op a active x) (fun _ => Good op) (Good op) w := by
  simp only [completeRecheck, wp_bind]
  apply authority_wp h.good
  intro _ _
  simp only [wp_bind]
  apply observe_wp h
  intro o ret hduring _ _ _
  simp only [wp_bind, wp_check]
  exact ⟨fun _ => ⟨fun _ => hduring.good, fun _ => hduring.good⟩, fun _ => hduring.good⟩

theorem complete_wp (h : During op w m) (hp : m.pending = some p)
    (hk : p.kind = 100) : wp (complete op active x) (fun _ => Good op) (Good op) w := by
  simp only [complete, wp_bind]
  apply authority_wp h.good
  intro _ _
  simp only [wp_bind, wp_current, wp_found, h.agrees.pending, hp, Option.some.injEq, forall_eq', reduceCtorEq,
    false_implies, and_true]
  apply observe_wp h
  intro o ret hduring hobserved _ _
  simp only [wp_bind, wp_check]
  refine ⟨fun hpost => ⟨fun _ => ⟨fun hstart => ?_, fun _ => hduring.good⟩, fun _ => hduring.good⟩, fun _ => hduring.good⟩
  have haccepted := completed_accepted hduring hp hk hobserved hpost hstart rfl
  have hretained := hduring.forward hp hk
  apply append_wp hduring haccepted (retained_quiet hretained.2)
  simp only [wp_bind, wp_change, wp_attempt]
  refine wp_mono (completeRecheck_wp (hduring.concat _ rfl rfl haccepted (retained_quiet hretained.2) ?_)) ?_ ?_
  · have hagrees := h.agrees
    exact ⟨by rw [← hagrees.done], by rw [← hagrees.completed], hagrees.restoreDone, hagrees.restored,
      hagrees.restoreSequences, rfl, hagrees.restoring⟩
  · intro _ w' hw'
    rw [wp_pure]
    exact hw'
  · intro w' hw'
    exact blocked_wp hw'

theorem During.recorded_le (h : During op w m) : ∀ n ∈ w.natives, n.records ≤ w.log.records.length := by
  intro n hn
  obtain ⟨before, e, hown⟩ := h.inv.own n hn
  exact hown.le

theorem intent_accepted {service action : UInt32} {o : Observation} (h : During op w m)
    (hrestoring : m.restoring = false) (hpending : m.pending.isNone = true) (hconfig : m.config.isNone = true)
    (hargs : service < 4 ∧ 1 ≤ action ∧ action ≤ 3) (ho : Observed op service.toNat active o)
    (hplan : active.planSequence = op.sequence ∧ active.window = (if service.toNat < 2 then 1 else 2))
    (hstate : active.generation ≠ 0 ∧ active.deadlineUtc ≠ 0) (ha : a = actionValue service action active o)
    (hnext : action.toNat = m.done service.toNat + 1) (hsecond : ¬ (a.window = 2 ∧ ¬ (m.done 0 = 3 ∧ m.done 1 = 3)))
    (hagrees : windowAgrees m a ∧
      (1 < a.action → a.pid = (m.completed service.toNat).pid ∧ a.birth = (m.completed service.toNat).birth)) :
    history op m (nextRecord w.log.records (100, actionEncode a)) = .ok { m with
      windows := Function.update m.windows (a.window.toNat - 1) a
      pending := some ⟨100, w.log.records.length + 1, a⟩ } := by
  have hservice : a.service = service := by rw [ha, actionValue]
  have hwindow : a.window = if a.service < 2 then 1 else 2 := by
    rw [hservice, ha, actionValue, hplan.2]
    simp only [UInt32.lt_iff_toNat_lt]
    rfl
  have hvalid : actionValid a 100 := by
    refine ⟨?_, hwindow, ?_, ?_, ?_⟩
    · rw [ha]
      exact ⟨hargs.2.1, hargs.2.2, hargs.1⟩
    · rw [ha]
      rfl
    · rw [ha]
      refine ⟨hstate.1, hstate.2, ?_, ?_⟩
      · rw [actionValue, hplan.1]
        exact op.sequence_ne
      · rw [actionValue, ho.reference]
        exact op.reference_ne _ hargs.1
    · rw [ha]
      exact ⟨ho.pid, ho.birth⟩
  have hbound : actionBound op m (nextRecord w.log.records (100, actionEncode a)) a := by
    refine ⟨Nat.lt_succ_of_le h.planned, ?_, ?_, hconfig⟩
    · rw [ha, actionValue]
      exact hplan.1
    · rw [hservice, ha, actionValue]
      exact ho.reference
  rw [history_intent rfl hrestoring hvalid hbound, intentHistory_ok]
  refine ⟨⟨⟨hpending, ?_, ?_⟩, fun hw => ?_, hagrees.1, ?_⟩, rfl⟩
  · rw [ha, actionValue]
  · rw [hservice, ha, actionValue]
    exact hnext
  · by_contra hnot
    exact hsecond ⟨hw, hnot⟩
  · rw [hservice]
    exact hagrees.2

theorem announces_forward {n : Nat} (hservice : a.service.toNat = n) (records : Nat) :
    announces (100, actionEncode a) ⟨n, forwardMutation a.action, records⟩ := by
  refine ⟨?_, .inl ⟨rfl, ?_⟩⟩
  · rw [serviceIn, actionRead_encode, hservice]
  · rw [actionRead_encode]

theorem announces_backward {n : Nat} (hservice : a.service.toNat = n) (records : Nat) :
    announces (104, actionEncode a) ⟨n, backwardMutation a.action, records⟩ := by
  refine ⟨?_, .inr ⟨rfl, ?_⟩⟩
  · rw [serviceIn, actionRead_encode, hservice]
  · rw [actionRead_encode]

theorem forwardNative_wp {done : Bool}
    (h : During op w m) (hrecords : w.log.records = records ++ [(100, actionEncode a)]) (hp : m.pending = some p)
    (hk : p.kind = 100) (hbefore : ∀ n ∈ w.natives, n.records ≤ records.length) :
    wp (native a.service.toNat (forwardMutation a.action) done >>= fun _ => complete op active x) (fun _ => Good op)
      (Good op) w := by
  rw [wp_bind]
  apply native_wp h hrecords (announces_forward rfl _)
  · intro n hn
    rw [hrecords, List.length_append]
    exact Nat.lt_succ_of_le (hbefore n hn)
  · intro _ x hx
    rw [stoppedProcess_quiet ((h.forward hp hk).2 _)] at hx
    cases hx
  · intro w' hduring _ _
    exact complete_wp hduring hp hk

theorem execute_wp {service action : UInt32} {x : Executing} (h : Good op w) :
    wp (execute op service action active x) (fun _ => Good op) (Good op) w := by
  simp only [execute, wp_bind, wp_check]
  refine ⟨fun hargs => ?_, fun _ => h⟩
  apply reload_wp h.choose_spec.1
  intro w m hduring hmemory hrecovery
  subst hmemory
  simp only [wp_bind, wp_current, wp_check]
  refine ⟨fun hrestoring => ⟨fun hclear => ?_, fun _ => hduring.good⟩, fun _ => hduring.good⟩
  apply observe_wp hduring
  intro o ret hlooked ho hplan hstate
  split
  next =>
    simp only [wp_bind, wp_check]
    exact ⟨fun _ => ⟨fun _ => hlooked.good, fun _ => hlooked.good⟩, fun _ => hlooked.good⟩
  next =>
    simp only [wp_bind, wp_check]
    refine ⟨fun hnext => ⟨fun _ => ⟨fun hsecond => ⟨fun hagrees => ?_, fun _ => hlooked.good⟩, fun _ => hlooked.good⟩,
      fun _ => hlooked.good⟩, fun _ => hlooked.good⟩
    rw [hrecovery, Bool.or_eq_false_iff, Bool.or_eq_false_iff] at hclear
    have hpending : w.memory.pending.isNone = true := by simpa using hclear.1.2
    have hconfig : w.memory.config.isNone = true := by simpa using hclear.2
    have haccepted := intent_accepted hlooked hrestoring hpending hconfig hargs ho hplan hstate rfl hnext hsecond hagrees
    have hquiet := (hduring.told.quiet hrestoring).2
    apply announce_wp hlooked haccepted (retained_quiet hquiet)
    rw [wp_bind, wp_check]
    have hannounced := hlooked.concat { w with
      log := ⟨w.log.records ++ [(100, actionEncode (actionValue service action active o))], false⟩
      recoveryRequired := true
      retained := ret
      memory := { w.memory with
        pending := some ⟨100, w.log.records.length + 1, actionValue service action active o⟩ } } rfl rfl haccepted
      (retained_quiet hquiet) ⟨rfl, rfl, rfl, rfl, rfl, rfl, rfl⟩
    refine ⟨fun _ => ?_, fun _ => hannounced.good⟩
    exact forwardNative_wp hannounced rfl rfl rfl hduring.recorded_le

theorem observeStart_wp {service : Nat} {done : Bool} {post : Unit → World → Prop} {lost : World → Prop} (h : During op w m)
    (hretained : ∀ x, stoppedProcess m service ≠ some x)
    (hlost : ∀ ret, During op { w with retained := ret } m → lost { w with retained := ret })
    (hpost : ∀ ret, During op { w with retained := ret } m → post () { w with retained := ret }) :
    wp (observeStart service done) post lost w := by
  have hduring : During op { w with retained := Function.update w.retained service none } m := by
    refine h.of_eq rfl rfl rfl fun i x hx => ?_
    have hi : i ≠ service := fun hi => hretained x (hi ▸ hx)
    simp only [Function.update_of_ne hi]
    exact h.inv.retained i x hx
  simp only [observeStart, wp_bind, wp_change, wp_check]
  exact ⟨fun _ => hpost _ hduring, fun _ => hlost _ hduring⟩

theorem reconcile_wp {x : Reconciling} (h : Good op w) :
    wp (reconcile op active x) (fun _ => Good op) (Good op) w := by
  simp only [reconcile, wp_bind]
  apply reload_wp h.choose_spec.1
  intro w m hduring hmemory _
  subst hmemory
  simp only [wp_bind, wp_current, wp_check]
  refine ⟨fun hrestoring => ⟨fun _ => ?_, fun _ => hduring.good⟩, fun _ => hduring.good⟩
  split
  next =>
    rw [wp_check]
    exact ⟨fun _ => hduring.good, fun _ => hduring.good⟩
  next p hp =>
    have hk : p.kind = 100 := by
      rcases (hduring.told.pending p hp).side with ⟨hk, _⟩ | ⟨_, hback⟩
      · exact hk
      · rw [hrestoring] at hback
        cases hback
    simp only [wp_bind, wp_check]
    refine ⟨fun _ => ?_, fun _ => hduring.good⟩
    split
    next =>
      rw [wp_bind]
      apply observeStart_wp hduring
      · intro x hx
        rw [stoppedProcess_quiet ((hduring.told.quiet hrestoring).2 _)] at hx
        cases hx
      · intro ret hwaited
        exact hwaited.good
      · intro ret hwaited
        exact complete_wp hwaited hp hk
    next => exact complete_wp hduring hp hk

section Restoration

variable {sha256 : Bytes → Digest} {active : UpdateState}

variable {post : Unit → World → Prop} {o : Observation}

theorem restoreAudit_wp {x : Guarding} {lost : World → Prop} (hlost : lost w)
    (hpost : active.window = 1 ∨ active.window = 2 → activeJournal sha256 active (numbered w.log.records) → post () w) :
    wp (restoreAudit sha256 op active x) post lost w := by
  simp only [restoreAudit, wp_bind]
  apply authority_wp hlost
  intro _ _
  simp only [wp_bind, wp_current, wp_check]
  exact ⟨fun hwindow => ⟨fun hactive => hpost hwindow hactive.2.1, fun _ => hlost⟩, fun _ => hlost⟩

theorem restoreGuard_wp {x : Guarding} {lost : World → Prop} (hlost : lost w)
    (hpost : active.window = 1 ∨ active.window = 2 → activeJournal sha256 active (numbered w.log.records) → post () w) :
    wp (restoreGuard sha256 op active x) post lost w := by
  simp only [restoreGuard, wp_bind]
  apply restoreAudit_wp hlost
  intro hwindow hactive
  rw [wp_check]
  exact ⟨fun _ => hpost hwindow hactive, fun _ => hlost⟩

theorem window_ne (h : active.window = 1 ∨ active.window = 2) : active.window ≠ 0 := by
  rcases h with h | h
  · rw [h]
    decide
  · rw [h]
    decide

theorem code_range (phase : Phase) : 1 ≤ phase.code ∧ phase.code ≤ 4 := by
  cases phase <;> decide

theorem restored_accepted (h : During op w m) (hp : m.pending = some p) (hk : p.kind = 104)
    (ho : Observed op p.action.service.toNat active o) (hpost : restorePost p.action o)
    (ha : a = { p.action with intent := .ofNat p.sequence, pid := o.pid, birth := o.birth, phase := o.phase.code }) :
    history op m (nextRecord w.log.records (105, actionEncode a)) = .ok { m with
      restoreDone := Function.update m.restoreDone a.service.toNat a.action.toNat
      restored := Function.update m.restored a.service.toNat a
      restoreSequences := Function.update m.restoreSequences a.service.toNat (w.log.records.length + 1)
      pending := none
      restoring := true } := by
  have ht := h.told.pending p hp
  have hvalid : actionValid a 105 := by
    have hp104 := ht.valid
    rw [hk] at hp104
    rw [ha]
    exact ⟨hp104.1, hp104.2.1, code_range o.phase, hp104.2.2.2.1, ho.pid, ho.birth⟩
  have hrange : 1 ≤ p.action.action ∧ p.action.action ≤ 4 := by
    have hp104 := ht.valid
    rw [hk] at hp104
    exact ⟨hp104.1.1, hp104.1.2.1⟩
  rw [history_restored rfl hvalid (h.bound hp (by rw [ha]) (by rw [ha]) (by rw [ha])), restoredHistory_ok]
  refine ⟨p, hp, ⟨⟨hk, by rw [ha]⟩, ?_, ?_, ?_⟩, rfl⟩
  · rw [ha]
    rintro ⟨h3, hpid, hbirth⟩
    have hnew := hpost.2
    rw [if_pos h3] at hnew
    rcases hnew with hnew | hnew
    · exact hnew hpid
    · exact hnew hbirth
  · unfold expectedDone
    have hsame := hpost.2
    rw [ha]
    split at hsame
    next h3 => simp [h3]
    next h3 => simp [h3, hsame]
  · have hphase := hpost.1
    rw [ha]
    split at hphase
    next h1 =>
      rcases hphase with hphase | hphase
      · simp [h1, hphase, Phase.code]
      · simp [h1, hphase, Phase.code]
    next h1 =>
      split at hphase
      next h2 => simp [h2, hphase, Phase.code]
      next h2 => simp [h1, h2, hphase, Phase.code]

theorem restored_retained {retained : Nat → Option (UInt32 × UInt64)} (h : Retained m retained)
    (hp : m.pending = some p) (hpost : restorePost p.action o)
    (hstopped : o.phase.stopped = true → retained p.action.service.toNat = some (o.pid, o.birth))
    (ha : a = { p.action with intent := .ofNat p.sequence, pid := o.pid, birth := o.birth, phase := o.phase.code })
    (sequence : Nat) : Retained { m with
      restoreDone := Function.update m.restoreDone a.service.toNat a.action.toNat
      restored := Function.update m.restored a.service.toNat a
      restoreSequences := Function.update m.restoreSequences a.service.toNat sequence
      pending := none
      restoring := true } retained := by
  have hservice : a.service = p.action.service := by rw [ha]
  intro i x hx
  simp only [stoppedProcess] at hx
  split at hx
  next hcond =>
    by_cases hi : i = a.service.toNat
    · subst hi
      simp only [Function.update_self] at hcond hx
      have hphase : o.phase.stopped = true := by
        have haction : p.action.action = 1 ∨ p.action.action = 2 := by
          rw [ha] at hcond
          rcases hcond.1 with h1 | h2
          · exact .inl (UInt32.toNat_inj.mp h1)
          · exact .inr (UInt32.toNat_inj.mp h2)
        have hafter := hpost.1
        rcases haction with h1 | h2
        · rw [if_pos h1] at hafter
          rcases hafter with hafter | hafter
          · rw [hafter]
            rfl
          · rw [hafter]
            rfl
        · rw [if_neg (by rw [h2]; decide), if_pos h2] at hafter
          rw [hafter]
          rfl
      rw [hservice, hstopped hphase, ← hx, ha]
    · simp only [Function.update_of_ne hi] at hcond hx
      apply h i x
      unfold stoppedProcess
      rw [if_pos]
      · exact hx
      · refine ⟨hcond.1, ?_⟩
        have hother : p.action.service.toNat ≠ i := by
          rw [← hservice]
          exact fun heq => hi heq.symm
        simp [hp, hother]
  next => cases hx

theorem restoreRecheck_wp {x : RestoreCompleting} (h : During op w m) :
    wp (restoreRecheck sha256 op a active x) (fun _ => Good op) (Good op) w := by
  simp only [restoreRecheck, wp_bind]
  apply restoreAudit_wp h.good
  intro hwindow _
  simp only [wp_bind]
  apply restoreObserve_wp h (fun ret hduring => hduring.good) (window_ne hwindow)
  intro o ret hduring _ _ _
  rw [wp_check]
  exact ⟨fun _ => hduring.good, fun _ => hduring.good⟩

theorem restoreComplete_wp {x : RestoreCompleting} (h : During op w m) :
    wp (restoreComplete sha256 op active x) (fun _ => Good op) (Good op) w := by
  simp only [restoreComplete, wp_bind]
  apply restoreGuard_wp h.good
  intro hwindow _
  simp only [wp_bind, wp_current, wp_found, h.agrees.pending]
  refine ⟨fun p hp => ?_, fun _ => h.good⟩
  simp only [wp_bind, wp_check]
  refine ⟨fun hkind => ?_, fun _ => h.good⟩
  apply restoreObserve_wp h (fun ret hduring => hduring.good) (window_ne hwindow)
  intro o ret hduring ho hstopped _
  simp only [wp_bind, wp_check]
  refine ⟨fun hpost => ?_, fun _ => hduring.good⟩
  have haccepted := restored_accepted hduring hp hkind.1 ho hpost.1 rfl
  have hretained := restored_retained hduring.inv.retained hp hpost.1 hstopped rfl (w.log.records.length + 1)
  apply append_wp hduring haccepted hretained
  simp only [wp_bind, wp_change, wp_attempt]
  refine wp_mono (restoreRecheck_wp (hduring.concat _ rfl rfl haccepted hretained ?_)) ?_ ?_
  · have hagrees := h.agrees
    have hrestoring : m.restoring = true := by
      rcases (h.told.pending p hp).side with ⟨hforward, _⟩ | ⟨_, hback⟩
      · rw [hkind.1] at hforward
        cases hforward
      · exact hback
    exact ⟨hagrees.done, hagrees.completed, by rw [← hagrees.restoreDone], by rw [← hagrees.restored],
      by rw [← hagrees.restoreSequences], rfl, hagrees.restoring.trans hrestoring⟩
  · intro _ w' hw'
    rw [wp_pure]
    exact hw'
  · intro w' hw'
    exact blocked_wp hw'

theorem restore_accepted {service action : UInt32} (h : During op w m)
    (hpending : m.pending.isNone = true) (hconfig : m.config.isNone = true) (hargs : service < 4 ∧ 1 ≤ action ∧ action ≤ 4)
    (ho : Observed op service.toNat active o) (hwindow : active.window = 1 ∨ active.window = 2)
    (hstate : active.generation ≠ 0 ∧ active.deadlineUtc ≠ 0)
    (hstopped : o.phase.stopped = true → w.retained service.toNat = some (o.pid, o.birth))
    (hmay : restorable (m.restoreDone service.toNat) action o.phase) (ha : a = restoreValue op service action active o) :
    history op m (nextRecord w.log.records (104, actionEncode a)) =
      .ok { m with pending := some ⟨104, w.log.records.length + 1, a⟩, restoring := true } := by
  obtain ⟨hnext, h1, h2, h3⟩ := hmay
  have hservice : a.service = service := by rw [ha, restoreValue, actionValue]
  have haction : a.action = action := by rw [ha, restoreValue, actionValue]
  have hphase : a.phase = o.phase.code := by rw [ha, restoreValue]
  have hvalid : actionValid a 104 := by
    refine ⟨?_, ?_, ?_, ?_, ?_⟩
    · rw [hservice, haction]
      exact ⟨hargs.2.1, hargs.2.2, hargs.1⟩
    · rw [ha]
      exact hwindow
    · rw [hphase]
      exact code_range o.phase
    · rw [ha]
      refine ⟨hstate.1, hstate.2, op.sequence_ne, ?_⟩
      rw [restoreValue, actionValue, ho.reference]
      exact op.reference_ne _ hargs.1
    · rw [ha]
      exact ⟨ho.pid, ho.birth⟩
  have hbound : actionBound op m (nextRecord w.log.records (104, actionEncode a)) a := by
    refine ⟨Nat.lt_succ_of_le h.planned, ?_, ?_, hconfig⟩
    · rw [ha, restoreValue]
    · rw [hservice, ha, restoreValue, actionValue]
      exact ho.reference
  have hthree : action ≠ 4 → action.toNat ≤ 3 := by
    intro h4
    have hle : action.toNat ≤ 4 := hargs.2.2
    have hne : action.toNat ≠ 4 := fun heq => h4 (UInt32.toNat_inj.mp heq)
    omega
  rw [history_restore rfl hvalid hbound, restoreHistory_ok]
  refine ⟨⟨⟨hpending, by rw [ha, restoreValue, actionValue], ?_, ?_⟩, ?_, ?_⟩, rfl⟩
  · rw [hservice]
    split at hnext
    next h4 => omega
    next h4 =>
      have hle := hthree h4
      omega
  · rw [hservice, haction]
    split at hnext
    next h4 =>
      rw [if_pos h4]
      exact hnext.1
    next h4 =>
      rw [if_neg h4]
      exact hnext
  · rw [haction, hphase]
    have hcodes : (action = 1 → o.phase.code = 1 ∨ o.phase.code = 2 ∨ o.phase.code = 4) ∧
        (action = 2 → o.phase.code = 1 ∨ o.phase.code = 2) ∧ (action = 3 → o.phase.code = 1) ∧
        (action = 4 → o.phase.code = 3) := by
      refine ⟨fun h => ?_, fun h => ?_, fun h => ?_, fun h => ?_⟩
      · have hne := h1 h
        cases hp : o.phase with
        | runningOld => exact absurd hp hne
        | _ => simp [Phase.code]
      · have hstop := h2 h
        cases hp : o.phase with
        | stoppedOld | stoppedTarget => simp [Phase.code]
        | runningOld | runningTarget =>
            rw [hp] at hstop
            cases hstop
      · rw [h3 h]
        rfl
      · rw [if_pos h] at hnext
        rw [hnext.2]
        rfl
    obtain ⟨hc1, hc2, hc3, hc4⟩ := hcodes
    rintro (⟨h, hn1, hn2, hn4⟩ | ⟨h, hn1, hn2⟩ | ⟨h, hn1⟩ | ⟨h, hn3⟩)
    · rcases hc1 h with hc | hc | hc
      · exact hn1 hc
      · exact hn2 hc
      · exact hn4 hc
    · rcases hc2 h with hc | hc
      · exact hn1 hc
      · exact hn2 hc
    · exact hn1 (hc3 h)
    · exact hn3 (hc4 h)
  · rw [haction, hservice]
    intro hback
    have hphase : o.phase.stopped = true := by
      rcases hback with hback | hback
      · exact h2 hback
      · rw [h3 hback]
        rfl
    have hbefore : m.restoreDone service.toNat = 1 ∨ m.restoreDone service.toNat = 2 := by
      rcases hback with hback | hback
      · rw [hback, if_neg (by decide)] at hnext
        left
        have h2 : (2 : UInt32).toNat = 2 := rfl
        omega
      · rw [hback, if_neg (by decide)] at hnext
        right
        have h3 : (3 : UInt32).toNat = 3 := rfl
        omega
    have hprocess : stoppedProcess m service.toNat =
        some ((m.restored service.toNat).pid, (m.restored service.toNat).birth) := by
      unfold stoppedProcess
      rw [if_pos ⟨hbefore, by simp [Option.isNone_iff_eq_none.mp hpending]⟩]
    have hkept := h.inv.retained _ _ hprocess
    rw [hstopped hphase, Option.some.injEq, Prod.mk.injEq] at hkept
    rw [ha]
    exact hkept

theorem announced_retained {retained : Nat → Option (UInt32 × UInt64)} (h : Retained m retained) (hnone : m.pending = none)
    (p : PendingAction) : Retained { m with pending := some p, restoring := true } retained := by
  intro i x hx
  apply h i x
  unfold stoppedProcess at hx ⊢
  split at hx
  next hcond =>
    rw [if_pos ⟨hcond.1, by simp [hnone]⟩]
    exact hx
  next => cases hx

theorem stoppedProcess_starting (hp : m.pending = some p) (hstart : p.action.action = 3) :
    stoppedProcess m p.action.service.toNat = none := by
  unfold stoppedProcess
  rw [if_neg]
  simp [hp, hstart]

theorem restoreMutation_backward {action : UInt32} {phase : Phase} {mutation : Mutation}
    (h : restoreMutation action phase = some mutation) : mutation = backwardMutation action := by
  unfold restoreMutation at h
  split at h
  next => exact (Option.some.inj h).symm
  next => cases h

theorem starts_backward {action : UInt32} (h : (backwardMutation action).starts = true)
    (hneeded : ∃ phase, (restoreMutation action phase).isSome = true) : action = 3 := by
  obtain ⟨phase, hneeded⟩ := hneeded
  unfold restoreMutation at hneeded
  unfold backwardMutation at h
  split at hneeded
  next hcases =>
    rcases hcases with ⟨h1, _⟩ | ⟨h2, _⟩ | h3
    · rw [if_pos h1] at h
      cases h
    · rw [if_neg (by rw [h2]; decide), if_pos h2] at h
      cases h
    · exact h3
  next => cases hneeded

theorem restore_wp {service action : UInt32} {x : Restoring} (h : Good op w) :
    wp (restore sha256 op service action active x) (fun _ => Good op) (Good op) w := by
  simp only [restore, wp_bind, wp_check]
  refine ⟨fun hargs => ?_, fun _ => h⟩
  apply reload_wp h.choose_spec.1
  intro w m hduring hmemory _
  subst hmemory
  simp only [wp_bind, wp_current, wp_check]
  refine ⟨fun hclear => ?_, fun _ => hduring.good⟩
  apply restoreGuard_wp hduring.good
  intro hwindow _
  simp only [wp_bind]
  apply restoreObserve_wp hduring (fun ret hlooked => hlooked.good) (window_ne hwindow)
  intro o ret hlooked ho hstopped hstate
  split
  next =>
    simp only [wp_bind, wp_check]
    refine ⟨fun _ => ?_, fun _ => hlooked.good⟩
    exact restoreAudit_wp hlooked.good fun _ _ => hlooked.good
  next =>
    simp only [wp_bind, wp_check]
    refine ⟨fun hmay => ?_, fun _ => hlooked.good⟩
    have haccepted := restore_accepted hlooked hclear.1 hclear.2 hargs ho hwindow hstate hstopped hmay rfl
    have hretained := announced_retained hlooked.inv.retained (Option.isNone_iff_eq_none.mp hclear.1)
      ⟨104, w.log.records.length + 1, restoreValue op service action active o⟩
    simp only [announceRestore, wp_bind]
    apply announce_wp hlooked haccepted hretained
    simp only [wp_bind, wp_change, wp_check]
    have hannounced := hlooked.concat { w with
      log := ⟨w.log.records ++ [(104, actionEncode (restoreValue op service action active o))], false⟩
      blocked := false
      recoveryRequired := true
      retained := ret
      memory := { w.memory with
        pending := some ⟨104, w.log.records.length + 1, restoreValue op service action active o⟩
        restoring := true } } rfl rfl haccepted hretained ⟨rfl, rfl, rfl, rfl, rfl, rfl, rfl⟩
    refine ⟨fun _ => ?_, fun _ => hannounced.good⟩
    split
    next mutation hmutation =>
      rw [wp_bind]
      have hback := restoreMutation_backward hmutation
      apply native_wp hannounced rfl
      · rw [hback]
        exact announces_backward rfl _
      · intro n hn
        rw [List.length_append]
        exact Nat.lt_succ_of_le (hduring.recorded_le n hn)
      · intro hstarts x hx
        rw [hback] at hstarts
        have h3 := starts_backward hstarts ⟨o.phase, by rw [hmutation]; rfl⟩
        have hnone := stoppedProcess_starting (m := { w.memory with
          pending := some ⟨104, w.log.records.length + 1, restoreValue op service action active o⟩
          restoring := true }) rfl h3
        rw [show service.toNat = (restoreValue op service action active o).service.toNat from rfl, hnone] at hx
        cases hx
      · intro w' hdone _ _
        exact restoreComplete_wp hdone
    next => exact restoreComplete_wp hannounced

theorem restoreStarted_wp {x : RestoreReconciling} (h : During op w m) (hp : m.pending = some p)
    (hstart : p.action.action = 3) (hwindow : active.window ≠ 0)
    (hpost : ∀ ret, During op { w with retained := ret } m → post () { w with retained := ret }) :
    wp (restoreStarted op p active x) post (Good op) w := by
  have hnone : ∀ x, stoppedProcess m p.action.service.toNat ≠ some x := by
    intro x hx
    rw [stoppedProcess_starting hp hstart] at hx
    cases hx
  simp only [restoreStarted, wp_bind, wp_attempt]
  apply restoreObserve_wp h ?_ hwindow
  · intro o ret hduring _ _ _
    split
    next =>
      rw [wp_pure]
      exact hpost ret hduring
    next => exact observeStart_wp hduring hnone (fun _ hwaited => hwaited.good) hpost
  · intro ret hduring
    exact observeStart_wp hduring hnone (fun _ hwaited => hwaited.good) hpost

theorem restoreReconcile_wp {x : RestoreReconciling} (h : Good op w) :
    wp (restoreReconcile sha256 op active x) (fun _ => Good op) (Good op) w := by
  simp only [restoreReconcile, wp_bind]
  apply reload_wp h.choose_spec.1
  intro w m hduring hmemory _
  subst hmemory
  simp only [wp_bind, wp_current, wp_found, wp_check]
  refine ⟨fun p hp => ⟨fun _ => ?_, fun _ => hduring.good⟩, fun _ => hduring.good⟩
  apply restoreGuard_wp hduring.good
  intro hwindow _
  split
  next hstart =>
    rw [wp_bind]
    apply restoreStarted_wp hduring hp hstart (window_ne hwindow)
    intro ret hwaited
    exact restoreComplete_wp hwaited
  next => exact restoreComplete_wp hduring

theorem abandoned_accepted (h : During op w m) (hp : m.pending = some p) (hk : p.kind = 100)
    (hin : inWindow p active) (ho : Observed op p.action.service.toNat active o)
    (hwindow : active.window = 1 ∨ active.window = 2) (hstate : active.generation ≠ 0 ∧ active.deadlineUtc ≠ 0)
    (ha : a = { restoreValue op p.action.service p.action.action active o with intent := .ofNat p.sequence }) :
    history op m (nextRecord w.log.records (106, actionEncode a)) =
      .ok { m with pending := none, restoring := true } := by
  have ht := h.told.pending p hp
  have hp100 := ht.valid
  rw [hk] at hp100
  have hreference : a.reference = p.action.reference := by
    rw [ha, ht.bound.2]
    exact ho.reference
  have hle : p.action.action.toNat ≤ 3 := Action.le_three hp100
  have hvalid : actionValid a 106 := by
    refine ⟨?_, ?_, ?_, ?_, ?_⟩
    · rw [ha]
      refine ⟨hp100.1.1, ?_, hp100.1.2.2⟩
      change p.action.action.toNat ≤ 4
      omega
    · rw [ha]
      exact hwindow
    · rw [ha]
      exact code_range o.phase
    · rw [ha]
      refine ⟨hstate.1, hstate.2, op.sequence_ne, ?_⟩
      have hne : o.reference ≠ 0 := by
        rw [ho.reference, ← ht.bound.2]
        exact hp100.2.2.2.1.2.2.2
      exact hne
    · rw [ha]
      exact ⟨ho.pid, ho.birth⟩
  have hplan : a.plan = p.action.plan := by
    rw [ha, ht.bound.1]
    rfl
  rw [history_abandon rfl hvalid (h.bound hp hplan (by rw [ha]; rfl) hreference), abandonHistory_ok]
  refine ⟨p, hp, ⟨⟨hk, by rw [ha], by rw [ha]; rfl, by rw [ha]; rfl, hreference⟩, ?_⟩, rfl⟩
  have hsame : a.window = p.action.window := by
    rw [ha, hin.1]
    rfl
  rw [if_pos hsame, ha, hin.2.1, hin.2.2]
  exact ⟨rfl, rfl⟩

theorem abandonObserve_wp {x : Abandoning} {next : Observation → World → Prop} (h : During op w m) (hp : m.pending = some p)
    (hk : p.kind = 100) (hwindow : active.window ≠ 0)
    (hpost : ∀ o ret, During op { w with retained := ret } m → Observed op p.action.service.toNat active o →
      active.generation ≠ 0 ∧ active.deadlineUtc ≠ 0 → next o { w with retained := ret }) :
    wp (abandonObserve op p active x) next (Good op) w := by
  have hnone : ∀ x, stoppedProcess m p.action.service.toNat ≠ some x := by
    intro x hx
    rw [stoppedProcess_quiet ((h.forward hp hk).2 _)] at hx
    cases hx
  simp only [abandonObserve, wp_bind, wp_attempt]
  apply restoreObserve_wp h ?_ hwindow
  · intro o ret hduring ho _ hstate
    rw [wp_pure]
    exact hpost o ret hduring ho hstate
  · intro ret hduring
    simp only [wp_bind, wp_check]
    refine ⟨fun _ => ?_, fun _ => hduring.good⟩
    apply observeStart_wp hduring hnone (fun _ hwaited => hwaited.good)
    intro ret hwaited
    apply restoreObserve_wp hwaited (fun _ hlooked => hlooked.good) hwindow
    intro o ret hlooked ho _ hstate
    exact hpost o ret hlooked ho hstate

theorem abandon_wp {x : Abandoning} (h : Good op w) :
    wp (abandon sha256 op active x) (fun _ => Good op) (Good op) w := by
  simp only [abandon, wp_bind]
  apply reload_wp h.choose_spec.1
  intro w m hduring hmemory _
  subst hmemory
  simp only [wp_bind, wp_current, wp_found, wp_check]
  refine ⟨fun p hp => ⟨fun hkind => ?_, fun _ => hduring.good⟩, fun _ => hduring.good⟩
  apply restoreGuard_wp hduring.good
  intro hwindow hactive
  have hin := active_window hduring.inv.replays hactive hp
  simp only [wp_bind]
  apply abandonObserve_wp hduring hp hkind.1 (window_ne hwindow)
  intro o ret hlooked ho hstate
  simp only [wp_bind, wp_check]
  refine ⟨fun _ => ?_, fun _ => hlooked.good⟩
  have haccepted := abandoned_accepted hlooked hp hkind.1 hin ho hwindow hstate rfl
  have hquiet := (hduring.forward hp hkind.1).2
  apply append_wp hlooked haccepted (retained_quiet hquiet)
  rw [wp_bind]
  apply reload_wp (hlooked.inv.concat { w with
    log := ⟨w.log.records ++ [(106, actionEncode { restoreValue op p.action.service p.action.action active o with
      intent := .ofNat p.sequence })], false⟩
    retained := ret } rfl rfl haccepted (retained_quiet hquiet))
  intro w m hread _ _
  exact restoreAudit_wp hread.good fun _ _ => hread.good

theorem configAbandonEncode_fields (c : PendingConfig) (candidate : Bool) (pid : UInt32) (created : UInt64) :
    let b := configAbandonEncode op c active candidate pid created
    (b.length = 112 ∧ part b 0 8 = configAbandonMagic ∧ u32 b 8 = 1 ∧ u32 b 12 = (if candidate then 2 else 1) ∧
      u32 b 16 = 0) ∧
    (u32 b 20 = active.window.toNat ∧ u64 b 24 = active.generation.toNat ∧ u64 b 32 = active.deadlineUtc.toNat ∧
      u64 b 40 = op.sequence.toNat ∧ u64 b 48 = c.reference.toNat) ∧
    (u32 b 56 = pid.toNat ∧ u32 b 60 = 0 ∧ u64 b 64 = created.toNat ∧ u64 b 72 = c.intent.toNat ∧
      u32 b 80 = c.direction.toNat) ∧ zeroed b 84 28 := by
  have hmagic : configAbandonMagic.length = 8 := by simp [configAbandonMagic]
  have hpart : part (configAbandonEncode op c active candidate pid created) 0 8 = configAbandonMagic := by
    rw [configAbandonEncode, ← hmagic, part_here]
  have hzero : ∀ l, u32 (storeU32 0 ++ l) 0 = 0 := fun l => u32_here 0
  have htwo : ∀ l, u32 (storeU32 2 ++ l) 0 = 2 := fun l => u32_here 2
  have hgap : ∀ l, u32 (gap 4 ++ l) 0 = 0 := fun l => u32_here 0
  have hlast := zeroed_gap 28 []
  rw [List.append_nil] at hlast
  refine ⟨⟨?_, hpart, ?_⟩, ?_⟩
  · simp [configAbandonEncode, hmagic]
  · cases candidate with
    | false => simp [configAbandonEncode, hmagic, hzero]
    | true => simp [configAbandonEncode, hmagic, hzero, htwo]
  · simp [configAbandonEncode, hmagic, hgap, zeroed_pre, hlast]

theorem configAbandoned_accepted {c : PendingConfig} {candidate : Bool} {pid : UInt32} {created : UInt64}
    (hconfig : m.config = some c) (hpending : m.pending.isNone = true) (hpid : pid ≠ 0) (hcreated : created ≠ 0)
    (hwindow : active.window = 1 ∨ active.window = 2) (hstate : active.generation ≠ 0 ∧ active.deadlineUtc ≠ 0)
    {entries : List Entry} :
    history op m (nextRecord entries (107, configAbandonEncode op c active candidate pid created)) =
      .ok { m with config := none, restoring := true } := by
  obtain ⟨⟨hlength, hmagic, h8, h12, h16⟩, ⟨h20, h24, h32, h40, h48⟩, ⟨h56, h60, h64, h72, h80⟩, hlast⟩ :=
    @configAbandonEncode_fields op active c candidate pid created
  have hwindow' : 1 ≤ active.window.toNat ∧ active.window.toNat ≤ 2 := by
    rcases hwindow with hw | hw
    · rw [hw]
      decide
    · rw [hw]
      decide
  have hobserved : 1 ≤ (if candidate then 2 else 1) ∧ (if candidate then 2 else 1) ≤ 2 := by
    cases candidate <;> decide
  have hne32 : ∀ v : UInt32, v ≠ 0 → v.toNat ≠ 0 := fun v hv h => hv (UInt32.toNat_inj.mp h)
  have hne64 : ∀ v : UInt64, v ≠ 0 → v.toNat ≠ 0 := fun v hv h => hv (UInt64.toNat_inj.mp h)
  have hkinds : ¬ extended 107 := by decide
  have hhistory : history op m (nextRecord entries (107, configAbandonEncode op c active candidate pid created)) =
      configAbandonHistory op m (configAbandonEncode op c active candidate pid created) := by
    simp [history, nextRecord, hkinds]
  rw [hhistory]
  simp only [configAbandonHistory, bind_eq_ok, require_eq_ok, demand_eq_ok, return_eq_ok, exists_const]
  refine ⟨c, hconfig, ⟨⟨hlength, hmagic, h8, ?_, ?_, h16⟩, ⟨?_, ?_, ?_, ?_, h40, h48⟩, ⟨?_, h60, ?_, h72, h80⟩,
    hpending, hlast⟩, trivial⟩
  · rw [h12]
    exact hobserved.1
  · rw [h12]
    exact hobserved.2
  · rw [h20]
    exact hwindow'.1
  · rw [h20]
    exact hwindow'.2
  · rw [h24]
    exact hne64 _ hstate.1
  · rw [h32]
    exact hne64 _ hstate.2
  · rw [h56]
    exact hne32 _ hpid
  · rw [h64]
    exact hne64 _ hcreated

theorem abandonConfig_wp {x : ConfigAbandoning} (h : Good op w) :
    wp (abandonConfig sha256 op active x) (fun _ => Good op) (Good op) w := by
  simp only [abandonConfig, wp_bind]
  apply reload_wp h.choose_spec.1
  intro w m hduring hmemory _
  subst hmemory
  simp only [wp_bind, wp_current, wp_found, wp_check]
  refine ⟨fun c hc => ⟨fun hclear => ?_, fun _ => hduring.good⟩, fun _ => hduring.good⟩
  apply restoreGuard_wp hduring.good
  intro hwindow hactive
  simp only [wp_bind, wp_found, wp_check]
  refine ⟨fun candidate _ => ⟨fun _ => ?_, fun _ => hduring.good⟩, fun _ => hduring.good⟩
  have hvalid := active_valid hactive
  have haccepted : history op w.memory (nextRecord w.log.records
      (107, configAbandonEncode op c active candidate x.pid x.created)) = _ :=
    configAbandoned_accepted hc hclear.1 x.pid_ne x.created_ne hwindow (state_ne hvalid.1 hvalid.2)
  have hretained : Retained { w.memory with config := none, restoring := true } w.retained := hduring.inv.retained.of_eq
    (Option.isNone_iff_eq_none.mp hclear.1) rfl rfl
  apply append_wp hduring haccepted hretained
  rw [wp_bind]
  apply reload_wp (hduring.inv.concat { w with
    log := ⟨w.log.records ++ [(107, configAbandonEncode op c active candidate x.pid x.created)], false⟩ } rfl rfl
    haccepted hretained)
  intro w m hread _ _
  exact restoreAudit_wp hread.good fun _ _ => hread.good

end Restoration

section Others

variable {kind : UInt32} {bytes : Bytes} {entries : List Entry}

theorem history_plain (h102 : r.kind ≠ 102) (hforward : ¬ (r.kind = 100 ∨ r.kind = 101)) (hextended : ¬ extended r.kind)
    (h107 : r.kind ≠ 107) : history op m r =
      if r.sequence ≤ op.sequence.toNat then .ok m
      else if r.kind = 21 ∨ r.kind = 22 then configHistory op m r
      else if 65 ≤ r.kind ∧ r.kind ≤ 70 then do
        require (m.pending.isNone = true) .invalidState
        pure m
      else .error .invalidState := by
  unfold history
  rw [if_neg h102, if_neg hforward, if_neg hextended, if_neg h107]

theorem others_accepted (h : othersMay op m kind bytes) : ∃ m', history op m (nextRecord entries (kind, bytes)) = .ok m' ∧
    m.pending = none ∧ Agrees m m' := by
  obtain ⟨hpending, hkinds⟩ := h
  have hnone := Option.isNone_iff_eq_none.mp hpending
  have hplain : kind ≠ 102 ∧ ¬ (kind = 100 ∨ kind = 101) ∧ ¬ extended kind ∧ kind ≠ 107 := by
    unfold extended
    rcases hkinds with hk | ⟨hk | hk, _⟩
    · grind
    · rw [hk]
      decide
    · rw [hk]
      decide
  obtain ⟨h102, hforward, hextended, h107⟩ := hplain
  have hplain : history op m (nextRecord entries (kind, bytes)) = _ := history_plain h102 hforward hextended h107
  rw [hplain]
  by_cases hplan : entries.length + 1 ≤ op.sequence.toNat
  · exact ⟨m, if_pos hplan, hnone, Agrees.refl m⟩
  rw [if_neg (show ¬ (nextRecord entries (kind, bytes)).sequence ≤ op.sequence.toNat from hplan)]
  change ∃ m', (if kind = 21 ∨ kind = 22 then configHistory op m (nextRecord entries (kind, bytes))
    else if 65 ≤ kind ∧ kind ≤ 70 then (require (m.pending.isNone = true) .invalidState >>= fun _ => pure m)
    else .error .invalidState) = Except.ok m' ∧ m.pending = none ∧ Agrees m m'
  rcases hkinds with hk | ⟨hk, hlength, hreference, hdirection, hstate⟩
  · refine ⟨m, ?_, hnone, Agrees.refl m⟩
    have hother : ¬ (kind = 21 ∨ kind = 22) := by grind
    rw [if_neg hother, if_pos hk]
    simp [require, hpending, bind, Except.bind, pure, Except.pure]
  rw [if_pos hk]
  have hdirections : UInt32.ofNat (u32 bytes 8) ≤ 1 ∧ ¬ (UInt32.ofNat (u32 bytes 8) = 0 ∧ m.restoring = false) := by
    rcases hdirection with hd | ⟨hd, hrestoring⟩
    · rw [hd]
      exact ⟨by decide, fun h => absurd h.1 (by decide)⟩
    · rw [hd]
      exact ⟨by decide, fun h => absurd h.2 (by simp [hrestoring])⟩
  by_cases h21 : kind = 21
  · rw [if_pos h21] at hstate
    refine ⟨{ m with config := some ⟨.ofNat (u64 bytes 0), .ofNat (entries.length + 1), .ofNat (u32 bytes 8)⟩ }, ?_,
      hnone, ⟨rfl, rfl, rfl, rfl, rfl, rfl, rfl⟩⟩
    simp only [configHistory, bind_eq_ok, require_eq_ok, exists_const]
    refine ⟨⟨hpending, hlength⟩, hdirections, hreference, ?_⟩
    refine ite_eq_ok.mpr (.inl ⟨h21, ?_⟩)
    simp only [bind_eq_ok, require_eq_ok, return_eq_ok, exists_const]
    exact ⟨hstate, rfl⟩
  · rw [if_neg h21, Option.any_eq_true] at hstate
    obtain ⟨c, hc, hsame⟩ := hstate
    rw [decide_eq_true_eq] at hsame
    refine ⟨{ m with config := none }, ?_, hnone, ⟨rfl, rfl, rfl, rfl, rfl, rfl, rfl⟩⟩
    simp only [configHistory, bind_eq_ok, require_eq_ok, exists_const]
    refine ⟨⟨hpending, hlength⟩, hdirections, hreference, ?_⟩
    refine ite_eq_ok.mpr (.inr ⟨h21, ?_⟩)
    simp only [bind_eq_ok, require_eq_ok, demand_eq_ok, return_eq_ok, exists_const]
    exact ⟨c, hc, hsame, trivial⟩

theorem Agrees.trans {m₁ m₂ m₃ : Memory} (h : Agrees m₁ m₂) (h' : Agrees m₂ m₃) : Agrees m₁ m₃ :=
  ⟨h.done.trans h'.done, h.completed.trans h'.completed, h.restoreDone.trans h'.restoreDone,
    h.restored.trans h'.restored, h.restoreSequences.trans h'.restoreSequences, h.pending.trans h'.pending,
    h.restoring.trans h'.restoring⟩

theorem Known.of_agrees (h : Known w m) (ha : Agrees m m') : Known w m' := by
  rcases h with hpoisoned | hagrees | hcleared
  · exact .inl hpoisoned
  · exact .inr (.inl (hagrees.trans ha))
  · exact .inr (.inr hcleared)

theorem others_good {fault : Option AppendFault} (h : Good op w)
    (hmay : othersMay op (replayInto op noMemory (numbered w.log.records)).2 kind bytes) :
    Good op { w with log := (appendRecord w.log kind bytes fault).2 } := by
  obtain ⟨m, hinv, hknown⟩ := h
  rw [replayInto_eq hinv.replays] at hmay
  have haccepts := fun entries => @others_accepted op m kind bytes entries hmay
  obtain ⟨m', haccepted, hnone, hagrees⟩ := haccepts w.log.records
  have hretained := hinv.retained.of_eq hnone hagrees.restoreDone.symm hagrees.restored.symm
  rcases appendRecord_cases w.log kind bytes fault with ⟨hlost, _⟩ | ⟨hdone, hlive⟩
  · rcases appendRecord_lost hlost with hsame | ⟨hmore, hpoisoned⟩
    · refine ⟨m, ⟨?_, hinv.retained, ?_, hinv.once⟩, ?_⟩
      · simp only [hsame]
        exact hinv.replays
      · simp only [hsame]
        exact hinv.own
      · rcases hknown with hpoisoned | hknown
        · left
          unfold appendRecord
          rw [if_pos (.inl hpoisoned)]
          exact hpoisoned
        · exact .inr hknown
    · exact ⟨m', hinv.concat _ hmore rfl haccepted hretained, .inl hpoisoned⟩
  · rw [hdone]
    refine ⟨m', hinv.concat _ rfl rfl haccepted hretained, ?_⟩
    rcases hknown.of_agrees hagrees with hpoisoned | hknown
    · rw [hlive] at hpoisoned
      cases hpoisoned
    · exact .inr hknown

end Others

section Runs

variable {sha256 : Bytes → Digest}

theorem step_good (h : Good op w) (e : Event) : Good op (step sha256 op w e) := by
  cases e with
  | execute => exact wp_state (execute_wp h)
  | reconcile => exact wp_state (reconcile_wp h)
  | restore => exact wp_state (restore_wp h)
  | restoreReconcile => exact wp_state (restoreReconcile_wp h)
  | abandon => exact wp_state (abandon_wp h)
  | abandonConfig => exact wp_state (abandonConfig_wp h)
  | others =>
      simp only [step]
      split
      next hmay => exact others_good h hmay
      next => exact h

theorem opened_good {log : RecordLog} (h : (replayInto op noMemory (numbered log.records)).1 = true) :
    Good op (opened op log) := by
  refine ⟨(opened op log).memory, ⟨replayInto_true.mp h, fun _ _ hx => hx, ?_, List.Pairwise.nil⟩,
    .inr (.inl (Agrees.refl _))⟩
  intro n hn
  cases hn

theorem run_good {log : RecordLog} (h : (replayInto op noMemory (numbered log.records)).1 = true) (events : List Event) :
    Good op (run (step sha256 op) (opened op log) events) :=
  run_kept (p := Good op) (fun _ e hs => step_good hs e) events _ (opened_good h)

end Runs

def stage : Mutation → Nat
  | .stop => 1
  | .switch _ => 2
  | .start _ => 3

theorem stage_forward {action : UInt32} (h : 1 ≤ action.toNat ∧ action.toNat ≤ 3) :
    stage (forwardMutation action) = action.toNat := by
  have hcases : action = 1 ∨ action = 2 ∨ action = 3 := by
    have hvalues : action.toNat = 1 ∨ action.toNat = 2 ∨ action.toNat = 3 := by omega
    rcases hvalues with hv | hv | hv
    · exact .inl (UInt32.toNat_inj.mp hv)
    · exact .inr (.inl (UInt32.toNat_inj.mp hv))
    · exact .inr (.inr (UInt32.toNat_inj.mp hv))
  rcases hcases with rfl | rfl | rfl
  · rfl
  · rfl
  · rfl

/-- The discipline of the service transaction over a journal and the native calls made so
far; a forward call is one whose own intent is record 100. -/
structure Disciplined (op : Operation) (w : World) : Prop where
  own : ∀ n ∈ w.natives, ∃ before e, Own w.log.records n before e
  once : (w.natives.map Native.records).Pairwise (· < ·)
  unresolved : ∃ o, Announced resolves o (intentRecords op w.log.records)
  forward : ∀ n ∈ w.natives, ∀ before e, Own w.log.records n before e → e.1 = 100 →
    (∀ b ∈ before, ¬ restoration b) ∧ doneActions before n.service = List.range' 1 (stage n.mutation - 1) ∧
      (2 ≤ n.service → doneActions before 0 = [1, 2, 3] ∧ doneActions before 1 = [1, 2, 3])
  order : w.natives.Pairwise fun n n' => ∀ before e before' e', Own w.log.records n before e →
    Own w.log.records n' before' e' → e.1 = 100 → e'.1 = 100 →
      (n.service = n'.service → stage n.mutation < stage n'.mutation) ∧ (2 ≤ n.service → 2 ≤ n'.service)
  replay : ∃ m, Replays op w.log.records m ∧ Known w m

theorem Own.forward {records before : List Entry} (h : Own records n before e) (hk : e.1 = 100)
    (hordered : Everywhere forwardOrder records) : n.service = serviceIn e ∧ stage n.mutation = actionIn e ∧
      forwardOrder before e := by
  obtain ⟨after, hafter⟩ := h.place
  have horder := hordered before e after hafter
  refine ⟨h.announces.1.symm, ?_, horder⟩
  rcases h.announces.2 with ⟨_, hmutation⟩ | ⟨hback, _⟩
  · rw [hmutation]
    exact stage_forward (horder hk).1
  · rw [hk] at hback
    cases hback

theorem Good.disciplined (h : Good op w) : Disciplined op w := by
  obtain ⟨m, hinv, hknown⟩ := h
  have hordered := (replays_told hinv.replays).ordered
  refine ⟨hinv.own, hinv.once, ?_, ?_, ?_, m, hinv.replays, hknown⟩
  · obtain ⟨o, ho, _⟩ := replays_oneOpen hinv.replays
    exact ⟨o, ho⟩
  · intro n _ before e hown hk
    obtain ⟨hservice, hstage, horder⟩ := hown.forward hk hordered
    obtain ⟨_, hquiet, hdone, hsecond, _⟩ := horder hk
    rw [hservice, hstage]
    exact ⟨hquiet, hdone, hsecond⟩
  · refine (List.pairwise_map.mp hinv.once).imp ?_
    intro n n' hlt before e before' e' hown hown' hk hk'
    obtain ⟨hservice, hstage, _⟩ := hown.forward hk hordered
    obtain ⟨hservice', hstage', horder'⟩ := hown'.forward hk' hordered
    obtain ⟨_, _, _, _, hearlier⟩ := horder' hk'
    obtain ⟨after, hafter⟩ := hown.place
    obtain ⟨after', hafter'⟩ := hown'.place
    have hlength : before.length < before'.length := by
      have hlast := hown.last
      have hlast' := hown'.last
      omega
    rw [hservice, hservice', hstage, hstage']
    exact hearlier e (mem_before (hafter.symm.trans hafter') hlength) hk

section Sample

def sampleDigest (_ : Bytes) : Digest := ⟨List.replicate 32 0, rfl⟩

def sampleOperation : Operation where
  sequence := 1
  references _ := 3
  configs := []
  sequence_ne := by decide
  reference_ne _ _ := by decide

def sampleOwner : Bytes :=
  List.replicate 8 0x61 ++ [0x2d] ++ List.replicate 4 0x61 ++ [0x2d] ++ List.replicate 4 0x61 ++ [0x2d] ++
    List.replicate 4 0x61 ++ [0x2d] ++ List.replicate 12 0x61 ++ List.replicate 4 0

def sampleState : ReadState := ⟨⟨sampleOwner, rfl, 1, 8, 1, 900⟩, by decide⟩

def sampleLook (phase : Phase) : Look := ⟨some sampleState, some ⟨phase, sampleState, 3, 7, 5⟩⟩

def sampleLog : RecordLog := ⟨[(64, [])], false⟩

def sampleExecuting (granted : Bool) : Executing where
  granted := granted
  look := sampleLook .runningOld
  late := false
  fault := none
  lateIntent := false
  nativeDone := true
  completing := ⟨true, sampleLook .stoppedOld, false, none, true, sampleLook .stoppedOld, false⟩

def sampleStopped : List Event := [.execute 0 1 sampleState (sampleExecuting true)]

def sampleRefused : List Event := sampleStopped ++ [.execute 0 2 sampleState (sampleExecuting false)]

def sampleRun (events : List Event) : World :=
  run (step sampleDigest sampleOperation) (opened sampleOperation sampleLog) events

end Sample

/-- A call that may not read the journal leaves an empty memory, whatever the journal says. -/
theorem memory_cleared : ¬ ∀ (sha256 : Bytes → Digest) (op : Operation) (log : RecordLog),
    (replayInto op noMemory (numbered log.records)).1 = true → ∀ events m,
      Replays op (run (step sha256 op) (opened op log) events).log.records m →
        (run (step sha256 op) (opened op log) events).memory.done = m.done := by
  intro h
  have hdone := h sampleDigest sampleOperation sampleLog (by decide) sampleRefused _
    (replayInto_true.mp (by decide +kernel))
  have hfirst := congrFun hdone 0
  revert hfirst
  decide +kernel

theorem transaction_disciplined (sha256 : Bytes → Digest) (op : Operation) (log : RecordLog)
    (h : (replayInto op noMemory (numbered log.records)).1 = true) (events : List Event) :
    Disciplined op (run (step sha256 op) (opened op log) events) :=
  (run_good h events).disciplined

theorem transaction_disciplined_sample : (replayInto sampleOperation noMemory (numbered sampleLog.records)).1 = true ∧
    (sampleRun sampleStopped).natives.map Native.mutation = [.stop] ∧
    Disciplined sampleOperation (sampleRun sampleStopped) :=
  ⟨by decide, by decide +kernel,
    transaction_disciplined sampleDigest sampleOperation sampleLog (by decide) sampleStopped⟩

end EtranProcessing.Deployment.ServiceDiscipline
