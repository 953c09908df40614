import EtranProcessing.Deployment.CommunicationRecovery

namespace EtranProcessing.Deployment.RecoveryBudget

open CommunicationRecovery

section Clock

variable {now deadline : UInt64} {ms : UInt32}

theorem left_eq (h : deadline.toNat ≤ now.toNat + ms.toNat) : (left now deadline).toNat = deadline.toNat - now.toNat := by
  have hms := ms.toNat_lt
  unfold left
  split
  next hlt =>
    rw [UInt64.toNat_toUInt32, UInt64.toNat_sub_of_le _ _ (UInt64.le_of_lt hlt)]
    omega
  next hge =>
    rw [UInt64.lt_iff_toNat_lt] at hge
    have hzero : (0 : UInt32).toNat = 0 := rfl
    omega

theorem left_eq_zero (h : deadline.toNat ≤ now.toNat + ms.toNat) : left now deadline = 0 ↔ deadline ≤ now := by
  rw [← UInt32.toNat_inj, left_eq h, UInt64.le_iff_toNat_le]
  have hzero : (0 : UInt32).toNat = 0 := rfl
  omega

end Clock

/-- The budget of the phase that a callback is in. -/
def phaseBudget (b : Budget) : Callback → UInt32
  | .verify => b.verifyMs
  | .workerExit => b.workerMs
  | .lock => b.lockMs
  | .step .proxyChannels => b.channelMs
  | .step .finalBarrier => b.channelMs
  | .step .stopMosquitto => b.brokerPrepareMs
  | .step .restoreMosquitto => b.brokerPrepareMs
  | .step .startMosquitto => b.mosquittoMs
  | .step .probeMosquitto => b.mosquittoMs
  | .step _ => b.proxyMs

def Forward (ops : Ops) : Prop := ∀ i j, i ≤ j → ops.monotonic i ≤ ops.monotonic j

def Succeeded (c : Called) : Prop := c.answered = true ∧ c.after < c.deadline

instance (c : Called) : Decidable (Succeeded c) := inferInstanceAs (Decidable (_ ∧ _))

/-- The time that a callback is given. -/
structure Fair (b : Budget) (total : UInt64) (c : Called) : Prop where
  positive : 0 < c.remaining
  inPhase : c.remaining ≤ phaseBudget b c.callback
  inTotal : c.before.toNat + c.remaining.toNat ≤ total.toNat
  inTime : c.deadline ≤ total

structure Follows (plan : List Callback) (calls : List Called) (ok : Bool) : Prop where
  order : calls.map Called.callback <+: plan
  earlier : ∀ c ∈ calls.dropLast, Succeeded c
  ok_iff : ok = true ↔ calls.map Called.callback = plan ∧ ∀ c ∈ calls, Succeeded c

section Plan

variable {plan : List Callback} {calls : List Called} {callback : Callback}

theorem Follows.skips {ok : Bool} (h : Follows plan calls ok) {more : List Callback} (hmore : more ≠ []) :
    Follows (plan ++ more) calls false := by
  refine ⟨h.order.trans (List.prefix_append _ _), h.earlier, ?_⟩
  simp only [Bool.false_eq_true, false_iff, not_and]
  intro hsame
  have hshort := h.order.length_le
  have hlong := congrArg List.length hsame
  have hpos := List.length_pos_iff.mpr hmore
  rw [List.length_append] at hlong
  omega

theorem Follows.skip {ok : Bool} (h : Follows plan calls ok) : Follows (plan ++ [callback]) calls false :=
  h.skips (by simp)

theorem Follows.call {c : Called} {ok : Bool} (h : Follows plan calls true) (hcallback : c.callback = callback)
    (hok : ok = true ↔ Succeeded c) : Follows (plan ++ [callback]) (calls ++ [c]) ok := by
  obtain ⟨hplan, hall⟩ := h.ok_iff.mp rfl
  have hmap : (calls ++ [c]).map Called.callback = plan ++ [callback] := by
    rw [List.map_append, hplan, List.map_singleton, hcallback]
  refine ⟨hmap ▸ List.prefix_rfl, ?_, ?_⟩
  · rw [List.dropLast_concat]
    exact hall
  · rw [hok]
    constructor
    · intro hc
      refine ⟨hmap, fun d hd => ?_⟩
      rcases List.mem_append.mp hd with hd | hd
      · exact hall d hd
      · rwa [List.mem_singleton.mp hd]
    · rintro ⟨_, hsucceeded⟩
      exact hsucceeded c (by simp)

end Plan

section Recover

variable {ops : Ops} {b : Budget} {total : UInt64}

theorem phase_le (ops : Ops) (total : UInt64) (ms : UInt32) (p : Progress) :
    (phase ops total ms p).1 ≤ total ∧ (phase ops total ms p).1.toNat ≤ (ops.monotonic p.readings).toNat + ms.toNat := by
  have htotal := total.toNat_lt
  unfold phase
  dsimp only
  have hsum : (ops.monotonic p.readings + ms.toUInt64).toNat =
      ((ops.monotonic p.readings).toNat + ms.toNat) % 2 ^ 64 := by
    rw [UInt64.toNat_add, UInt32.toNat_toUInt64]
  split
  next h =>
    refine ⟨UInt64.le_refl _, ?_⟩
    rw [UInt64.lt_iff_toNat_lt, UInt64.lt_iff_toNat_lt, hsum] at h
    omega
  next h =>
    simp only [not_or, UInt64.not_lt] at h
    refine ⟨h.2, ?_⟩
    rw [hsum]
    exact Nat.mod_le _ _

def Within (ops : Ops) (total deadline : UInt64) (ms : UInt32) (p : Progress) : Prop :=
  deadline ≤ total ∧ deadline.toNat ≤ (ops.monotonic p.readings).toNat + ms.toNat

variable {p : Progress} {deadline : UInt64} {ms : UInt32} {callback : Callback}

theorem Within.later (hclock : Forward ops) (h : Within ops total deadline ms p) {q : Progress}
    (hq : p.readings ≤ q.readings) : Within ops total deadline ms q := by
  have := UInt64.le_iff_toNat_le.mp (hclock _ _ hq)
  exact ⟨h.1, by have := h.2; omega⟩

theorem phase_within (hclock : Forward ops) (ms : UInt32) (p : Progress) :
    Within ops total (phase ops total ms p).1 ms (phase ops total ms p).2 := by
  obtain ⟨htotal, hphase⟩ := phase_le ops total ms p
  have := UInt64.le_iff_toNat_le.mp (hclock _ _ (Nat.le_succ p.readings))
  refine ⟨htotal, ?_⟩
  change _ ≤ (ops.monotonic p.readings.succ).toNat + _
  omega

structure Invoked (b : Budget) (total : UInt64) (callback : Callback) (p : Progress) (c : Checked) : Prop where
  readings : c.progress.readings = p.readings + 2
  made : ∃ d, c.progress.calls = p.calls ++ [d] ∧ d.callback = callback ∧ Fair b total d ∧ (c.ok = true ↔ Succeeded d) ∧
    c.returned = d.answered

theorem invoke_spec (hclock : Forward ops) (h : Within ops total deadline (phaseBudget b callback) p)
    (hleft : left (ops.monotonic p.readings) deadline ≠ 0) : Invoked b total callback p (invoke ops callback deadline p) := by
  have hbefore := left_eq h.2
  have hlater := (h.later (q := ⟨p.readings + 1, p.calls⟩) hclock (Nat.le_succ p.readings)).2
  have hafter := @left_eq_zero (ops.monotonic (p.readings + 1)) _ _ hlater
  have hpositive : 0 < left (ops.monotonic p.readings) deadline := UInt32.pos_iff_ne_zero.mpr hleft
  have hnat : 0 < (left (ops.monotonic p.readings) deadline).toNat := UInt32.lt_iff_toNat_lt.mp hpositive
  have htotal := UInt64.le_iff_toNat_le.mp h.1
  have hfair (answered : Bool) : Fair b total ⟨callback, deadline, ops.monotonic p.readings,
      left (ops.monotonic p.readings) deadline, answered, ops.monotonic (p.readings + 1)⟩ := by
    refine ⟨hpositive, ?_, ?_, h.1⟩
    · have := h.2
      rw [UInt32.le_iff_toNat_le]
      dsimp only
      omega
    · dsimp only
      omega
  unfold invoke
  generalize ops.answer p.calls.length = answer
  obtain ⟨answered, code⟩ := answer
  dsimp only
  split
  next hover =>
    have hlate : ¬ ops.monotonic (p.readings + 1) < deadline := UInt64.not_lt.mpr (hafter.mp hover)
    exact ⟨rfl, _, rfl, rfl, hfair answered, by simp [Succeeded, hlate], rfl⟩
  next htime =>
    have hahead : ops.monotonic (p.readings + 1) < deadline := UInt64.not_le.mp fun h => htime (hafter.mpr h)
    split
    next hanswered =>
      refine ⟨rfl, _, rfl, rfl, hfair answered, ?_, hanswered.symm⟩
      exact iff_of_true rfl ⟨hanswered, hahead⟩
    next hanswered =>
      have hno : answered = false := by simpa using hanswered
      refine ⟨rfl, _, rfl, rfl, hfair answered, ?_, hno.symm⟩
      simp [Succeeded, hno]

structure Recorded (b : Budget) (total : UInt64) (plan : List Callback) (calls : List Called) (ok : Bool) : Prop where
  follows : Follows plan calls ok
  fair : ∀ c ∈ calls, Fair b total c

variable {plan : List Callback}

theorem Recorded.call {calls : List Called} {c : Called} {ok : Bool} (h : Recorded b total plan calls true)
    (hcallback : c.callback = callback) (hfair : Fair b total c) (hok : ok = true ↔ Succeeded c) :
    Recorded b total (plan ++ [callback]) (calls ++ [c]) ok := by
  refine ⟨h.follows.call hcallback hok, fun d hd => ?_⟩
  rcases List.mem_append.mp hd with hd | hd
  · exact h.fair d hd
  · rwa [List.mem_singleton.mp hd]

def Made (callback : Callback) (before after : List Called) (returned : Bool) : Prop :=
  (after = before ∧ returned = false) ∨ ∃ d, after = before ++ [d] ∧ d.callback = callback ∧ returned = d.answered

theorem attempt_spec (hclock : Forward ops) (h : Within ops total deadline (phaseBudget b callback) p)
    (hp : Recorded b total plan p.calls true) :
    Recorded b total (plan ++ [callback]) (attempt ops callback deadline p).progress.calls (attempt ops callback deadline p).ok ∧
      Made callback p.calls (attempt ops callback deadline p).progress.calls (attempt ops callback deadline p).returned := by
  unfold attempt
  split
  next => exact ⟨⟨hp.follows.skip, hp.fair⟩, .inl ⟨rfl, rfl⟩⟩
  next hleft =>
    obtain ⟨_, d, hcalls, hcallback, hfair, hok, hreturned⟩ := invoke_spec hclock h hleft
    rw [hcalls]
    exact ⟨hp.call hcallback hfair hok, .inr ⟨d, rfl, hcallback, hreturned⟩⟩

theorem phased_spec (hclock : Forward ops) {c : Checked} (hp : Recorded b total plan c.progress.calls c.ok) :
    Recorded b total (plan ++ [callback]) (phased ops total callback (phaseBudget b callback) c).progress.calls
        (phased ops total callback (phaseBudget b callback) c).ok ∧
      Made callback c.progress.calls (phased ops total callback (phaseBudget b callback) c).progress.calls
        (phased ops total callback (phaseBudget b callback) c).returned := by
  have hwithin := @phase_within ops total hclock (phaseBudget b callback) c.progress
  have hsame : (phase ops total (phaseBudget b callback) c.progress).2.calls = c.progress.calls := rfl
  unfold phased
  dsimp only
  split
  next hok =>
    rw [hok] at hp
    exact attempt_spec hclock hwithin (hsame ▸ hp)
  next hok =>
    have hno : c.ok = false := by simpa using hok
    refine ⟨⟨?_, hp.fair⟩, .inl ⟨rfl, rfl⟩⟩
    dsimp only
    rw [hno]
    exact hp.follows.skip

theorem phased_failed {c : Checked} (h : c.ok = false) :
    (phased ops total callback ms c).ok = false ∧ (phased ops total callback ms c).progress.calls = c.progress.calls ∧
      (phased ops total callback ms c).returned = false := by
  unfold phased
  simp [h, phase]

theorem Made.prefix {before after : List Called} {returned : Bool} (h : Made callback before after returned) :
    before <+: after := by
  rcases h with ⟨rfl, _⟩ | ⟨d, rfl, _⟩
  · exact List.prefix_rfl
  · exact List.prefix_append _ _

theorem steps_initial (rest : List Step) (deadline : UInt64) (p : Progress) (completed : Nat) :
    p.calls <+: (steps ops b total rest deadline p completed).progress.calls := by
  induction rest generalizing deadline p completed with
  | nil => exact List.prefix_rfl
  | cons s rest ih =>
      have hentered : (entered ops b total s deadline p).2.calls = p.calls := by
        unfold entered
        split
        · rfl
        · rfl
      unfold steps
      dsimp only
      split
      next => exact (congrArg (p.calls <+: ·) hentered).mpr List.prefix_rfl
      next =>
        have hinvoke : p.calls <+: (invoke ops (.step s) (entered ops b total s deadline p).1
            (entered ops b total s deadline p).2).progress.calls := by
          unfold invoke
          dsimp only
          rw [hentered]
          split
          · exact List.prefix_append _ _
          split
          · exact List.prefix_append _ _
          · exact List.prefix_append _ _
        split
        next => exact hinvoke.trans (ih _ _ _)
        next => exact hinvoke

theorem steps_phases (b : Budget) : Step.all.IsChain fun s t =>
    t.begins b = none → phaseBudget b (.step t) = phaseBudget b (.step s) := by
  simp [Step.all, Step.begins, phaseBudget]

theorem begins_budget {s : Step} {ms : UInt32} (h : s.begins b = some ms) : phaseBudget b (.step s) = ms := by
  cases s with
  | proxyChannels | finalBarrier | stopMosquitto | startMosquitto => exact Option.some.inj h
  | _ => cases h

theorem steps_spec (hclock : Forward ops) {rest : List Step} (hphases : rest.IsChain fun s t =>
      t.begins b = none → phaseBudget b (.step t) = phaseBudget b (.step s)) {deadline : UInt64} {p : Progress} {completed : Nat}
    (hwithin : ∀ s ∈ rest.head?, s.begins b = none → Within ops total deadline (phaseBudget b (.step s)) p)
    (hp : Recorded b total plan p.calls true) :
    Recorded b total (plan ++ rest.map .step) (steps ops b total rest deadline p completed).progress.calls
      (steps ops b total rest deadline p completed).ok := by
  induction rest generalizing plan deadline p completed with
  | nil =>
      rw [List.map_nil, List.append_nil]
      exact hp
  | cons s rest ih =>
      obtain ⟨deadline', q, hentered, hcalls, hphase⟩ : ∃ deadline' q,
          entered ops b total s deadline p = (deadline', q) ∧ q.calls = p.calls ∧
          Within ops total deadline' (phaseBudget b (.step s)) q := by
        unfold entered
        cases hbegins : s.begins b with
        | none => exact ⟨deadline, p, rfl, rfl, hwithin s rfl hbegins⟩
        | some ms =>
            rw [begins_budget hbegins]
            exact ⟨_, _, rfl, rfl, phase_within hclock ms p⟩
      have hq : Recorded b total plan q.calls true := hcalls ▸ hp
      have hplan : plan ++ (s :: rest).map Callback.step = plan ++ [.step s] ++ rest.map .step := by simp
      unfold steps
      rw [hentered]
      dsimp only
      split
      next => exact ⟨hq.follows.skips (by simp), hq.fair⟩
      next hleft =>
        obtain ⟨hreadings, d, hmade, hcallback, hfair, hok, _⟩ := invoke_spec hclock hphase hleft
        have hcall : Recorded b total (plan ++ [.step s]) (invoke ops (.step s) deadline' q).progress.calls
            (invoke ops (.step s) deadline' q).ok := by
          rw [hmade]
          exact hq.call hcallback hfair hok
        rw [hplan]
        split
        next hgood =>
          rw [hgood] at hcall
          apply ih (List.isChain_of_isChain_cons hphases) _ hcall
          intro t ht hbegins
          have hsame : phaseBudget b (.step t) = phaseBudget b (.step s) := by
            cases rest with
            | nil => cases ht
            | cons =>
                obtain rfl := Option.some.inj ht
                exact List.rel_of_isChain_cons_cons hphases hbegins
          rw [hsame]
          exact hphase.later hclock (by omega)
        next hbad =>
          have hno : (invoke ops (.step s) deadline' q).ok = false := by simpa using hbad
          rw [hno] at hcall
          refine ⟨?_, hcall.fair⟩
          cases rest with
          | nil =>
              rw [List.map_nil, List.append_nil]
              exact hcall.follows
          | cons => exact hcall.follows.skips (by simp)

end Recover

def plan : List Callback := [.verify, .workerExit, .lock, .verify] ++ Step.all.map .step

def callsOf (events : List Event) : List Called :=
  events.filterMap fun e => match e with
    | .called c => some c
    | .unlock => none

def Locked (calls : List Called) : Prop := ∃ c ∈ calls, c.callback = .lock ∧ c.answered = true

instance (calls : List Called) : Decidable (Locked calls) := inferInstanceAs (Decidable (∃ _ ∈ _, _))

theorem callsOf_events (calls : List Called) (locked : Bool) :
    callsOf (calls.map .called ++ if locked then [.unlock] else []) = calls := by
  have hcalls : callsOf (calls.map .called) = calls := by
    rw [callsOf, List.filterMap_map]
    exact List.filterMap_some
  cases locked with
  | false => simpa using hcalls
  | true =>
      rw [callsOf, List.filterMap_append]
      exact (congrArg (· ++ []) hcalls).trans (List.append_nil _)

/-- What is said of a recovery, in terms of the calls it has made. -/
structure Disciplined (ops : Ops) (b : Budget) (r : Recovery) : Prop where
  order : (callsOf r.events).map Called.callback <+: plan
  earlier : ∀ c ∈ (callsOf r.events).dropLast, Succeeded c
  timeouts : ∀ c ∈ callsOf r.events, 0 < c.remaining ∧ c.remaining ≤ phaseBudget b c.callback ∧
    c.before.toNat + c.remaining.toNat ≤ (ops.monotonic 0).toNat + b.totalMs.toNat
  unlock : r.events = (callsOf r.events).map .called ++ if Locked (callsOf r.events) then [.unlock] else []
  verified : r.result.outcome = .verified ↔ (callsOf r.events).map Called.callback = plan ∧ ∀ c ∈ callsOf r.events, Succeeded c
  ok : r.ok = true ↔ r.result.outcome = .verified

theorem refused_disciplined (ops : Ops) (b : Budget) (error : UInt32) : Disciplined ops b (refused error) where
  order := List.nil_prefix
  earlier := fun _ h => by cases h
  timeouts := fun _ h => by cases h
  unlock := rfl
  verified := by simp [refused, callsOf, plan]
  ok := by simp [refused]


section Execute

variable {ops : Ops} {b : Budget} {calls : List Called} {returned : Bool}

theorem not_locked (h : calls.map Called.callback <+: [.verify, .workerExit]) : ¬ Locked calls := by
  rintro ⟨c, hc, hlock, _⟩
  have hmem := h.subset (List.mem_map_of_mem hc)
  rw [hlock] at hmem
  exact absurd hmem (by decide)

theorem made_locked {before : List Called} (hbefore : before.map Called.callback <+: [.verify, .workerExit])
    (h : Made .lock before calls returned) : returned = true ↔ Locked calls := by
  rcases h with ⟨rfl, rfl⟩ | ⟨d, rfl, hcallback, rfl⟩
  · exact iff_of_false (by decide) (not_locked hbefore)
  · constructor
    · exact fun h => ⟨d, by simp, hcallback, h⟩
    · rintro ⟨c, hc, hlock, hanswered⟩
      rcases List.mem_append.mp hc with hc | hc
      · exact absurd ⟨c, hc, hlock, hanswered⟩ (not_locked hbefore)
      · rwa [← List.mem_singleton.mp hc]

theorem locked_extended {all : List Called} (hleading : calls <+: all) (hall : all.map Called.callback <+: plan)
    (hcalls : calls.map Called.callback = [.verify, .workerExit, .lock]) : Locked all ↔ Locked calls := by
  obtain ⟨more, rfl⟩ := hleading
  rw [List.map_append, hcalls] at hall
  have hmore : more.map Called.callback <+: .verify :: Step.all.map .step :=
    (List.prefix_append_right_inj [Callback.verify, .workerExit, .lock]).mp hall
  constructor
  · rintro ⟨c, hc, hlock, hanswered⟩
    rcases List.mem_append.mp hc with hc | hc
    · exact ⟨c, hc, hlock, hanswered⟩
    · have hmem := hmore.subset (List.mem_map_of_mem hc)
      rw [hlock] at hmem
      exact absurd hmem (by decide)
  · rintro ⟨c, hc, h⟩
    exact ⟨c, List.mem_append_left _ hc, h⟩

theorem finished_disciplined {total : UInt64} {done : Stepped}
    (htotal : total.toNat ≤ (ops.monotonic 0).toNat + b.totalMs.toNat) (h : Recorded b total plan done.progress.calls done.ok)
    (hlocked : returned = true ↔ Locked done.progress.calls) : Disciplined ops b (finished done returned) := by
  have hcalls : callsOf (finished done returned).events = done.progress.calls := callsOf_events _ _
  have houtcome : (finished done returned).result.outcome = .verified ↔ done.ok = true := by
    unfold finished
    cases done.ok <;> cases done.unconfirmed <;> simp
  constructor
  · rw [hcalls]
    exact h.follows.order
  · rw [hcalls]
    exact h.follows.earlier
  · rw [hcalls]
    intro c hc
    have hfair := h.fair c hc
    exact ⟨hfair.positive, hfair.inPhase, Nat.le_trans hfair.inTotal htotal⟩
  · rw [hcalls]
    simp only [finished, hlocked]
  · rw [hcalls]
    exact houtcome.trans h.follows.ok_iff
  · exact houtcome.symm

theorem finished_nothing {error : UInt32} {p : Progress} (h : p.calls = []) :
    finished ⟨false, error, 0, false, p⟩ false = refused error := by
  unfold finished
  rw [h]
  rfl

theorem execute_disciplined (hclock : Forward ops) (b : Budget) : Disciplined ops b (execute ops b) := by
  generalize htotal : ops.monotonic 0 + b.totalMs.toUInt64 = total
  have hwithin : total.toNat ≤ (ops.monotonic 0).toNat + b.totalMs.toNat := by
    rw [← htotal, UInt64.toNat_add, UInt32.toNat_toUInt64]
    exact Nat.mod_le _ _
  unfold execute
  dsimp only
  rw [htotal]
  generalize hstarted : (⟨decide (ops.monotonic 0 ≤ total), false,
    if ops.monotonic 0 ≤ total then success else arithmeticOverflow, ⟨1, []⟩⟩ : Checked) = started
  have hnone : started.progress.calls = [] := by rw [← hstarted]
  cases hok : started.ok with
  | false =>
      -- the whole time does not fit the clock: no callback is called
      obtain ⟨hverified, hverified', _⟩ := @phased_failed ops total b.verifyMs .verify started hok
      obtain ⟨hexited, hexited', _⟩ := @phased_failed ops total b.workerMs .workerExit _ hverified
      obtain ⟨hlocked, hlocked', hreturned⟩ := @phased_failed ops total b.lockMs .lock _ hexited
      obtain ⟨howned, howned', _⟩ := @phased_failed ops total b.verifyMs .verify _ hlocked
      have hcalls : (phase ops total b.proxyMs (phased ops total .verify b.verifyMs (phased ops total .lock b.lockMs (phased ops
          total .workerExit b.workerMs (phased ops total .verify b.verifyMs started)))).progress).2.calls = [] :=
        howned'.trans (hlocked'.trans (hexited'.trans (hverified'.trans hnone)))
      rw [howned, hreturned, if_neg (by decide)]
      exact (finished_nothing hcalls).symm ▸ refused_disciplined ops b _
  | true =>
      have h₀ : Recorded b total [] started.progress.calls started.ok := by
        rw [hnone, hok]
        exact ⟨⟨List.prefix_rfl, by rintro _ ⟨⟩, by simp⟩, by rintro _ ⟨⟩⟩
      obtain ⟨h₁, _⟩ := @phased_spec ops b total .verify [] hclock _ h₀
      obtain ⟨h₂, _⟩ := @phased_spec ops b total .workerExit _ hclock _ h₁
      obtain ⟨h₃, hmade⟩ := @phased_spec ops b total .lock _ hclock _ h₂
      obtain ⟨h₄, hmade'⟩ := @phased_spec ops b total .verify _ hclock _ h₃
      have hlock := made_locked h₂.follows.order hmade
      dsimp only [phaseBudget] at h₃ h₄ hmade hmade' hlock
      generalize phased ops total .lock b.lockMs
        (phased ops total .workerExit b.workerMs (phased ops total .verify b.verifyMs started)) = locked at *
      have hfailed : locked.ok = false → (phased ops total .verify b.verifyMs locked).ok = false ∧
          (phased ops total .verify b.verifyMs locked).progress.calls = locked.progress.calls := fun h =>
        ⟨(phased_failed h).1, (phased_failed h).2.1⟩
      generalize phased ops total .verify b.verifyMs locked = owned at *
      have hleading := hmade'.prefix
      cases howned : owned.ok with
      | false =>
          have hall : Recorded b total plan owned.progress.calls false := ⟨h₄.follows.skips (by decide), h₄.fair⟩
          refine finished_disciplined hwithin hall (hlock.trans ?_)
          change _ ↔ Locked owned.progress.calls
          cases hlocked : locked.ok with
          | false => rw [(hfailed hlocked).2]
          | true => exact (locked_extended hleading hall.follows.order (h₃.follows.ok_iff.mp hlocked).1).symm
      | true =>
          have hlocked : locked.ok = true := by
            by_contra h
            have := (hfailed (by simpa using h)).1
            rw [howned] at this
            cases this
          have hphase := @phase_within ops total hclock b.proxyMs owned.progress
          rw [howned] at h₄
          have hall := @steps_spec ops b total _ hclock Step.all (steps_phases b) (phase ops total b.proxyMs owned.progress).1
            (phase ops total b.proxyMs owned.progress).2 0 (fun s hs _ => by
              obtain rfl := Option.some.inj hs
              exact hphase) h₄
          have hsteps := hleading.trans (@steps_initial ops b total Step.all (phase ops total b.proxyMs owned.progress).1
            (phase ops total b.proxyMs owned.progress).2 0)
          rw [if_pos rfl]
          generalize steps ops b total Step.all (phase ops total b.proxyMs owned.progress).1
            (phase ops total b.proxyMs owned.progress).2 0 = done at hall hsteps ⊢
          refine finished_disciplined hwithin hall (hlock.trans ?_)
          exact (locked_extended hsteps hall.follows.order (h₃.follows.ok_iff.mp hlocked).1).symm

end Execute

/-- One call of the recovery, with all that it is given. -/
structure Request where
  input : UpdateMarker.UpdateState
  budget : Budget
  ops : Ops
  bootReconciled : Bool

def Request.recover (q : Request) (spent : Bool) : Recovery × Bool :=
  communicationRecover spent q.input q.budget q.ops q.bootReconciled

/-- Calls that share an attempt, in the order in which they exchange its flag, which is all that they share; each with
whether it has got past the flag. -/
def sharing (spent : Bool) : List Request → List (Bool × Recovery)
  | [] => []
  | q :: rest => (!spent && (q.recover spent).2, (q.recover spent).1) :: sharing (q.recover spent).2 rest

theorem recover_cases (q : Request) (spent : Bool) :
    (∃ error, q.recover spent = (refused error, spent)) ∨ (spent = false ∧ q.recover spent = (execute q.ops q.budget, true)) := by
  unfold Request.recover communicationRecover
  split
  · exact .inl ⟨_, rfl⟩
  split
  · exact .inl ⟨_, rfl⟩
  split
  · exact .inl ⟨_, rfl⟩
  next h => exact .inr ⟨by simpa using h, rfl⟩

theorem sharing_spent (requests : List Request) : ∀ x ∈ sharing true requests, x.1 = false ∧ x.2.events = [] := by
  induction requests with
  | nil => exact fun _ h => by cases h
  | cons q rest ih =>
      intro x hx
      rcases recover_cases q true with ⟨error, h⟩ | ⟨h, _⟩
      · rw [sharing, h] at hx
        rcases List.mem_cons.mp hx with rfl | hx
        · exact ⟨rfl, rfl⟩
        · exact ih x hx
      · cases h

theorem sharing_once (requests : List Request) (spent : Bool) :
    (sharing spent requests).countP Prod.fst ≤ 1 ∧ ∀ x ∈ sharing spent requests, x.1 = false → x.2.events = [] := by
  induction requests generalizing spent with
  | nil => exact ⟨Nat.zero_le _, fun _ h => by cases h⟩
  | cons q rest ih =>
      rcases recover_cases q spent with ⟨error, h⟩ | ⟨rfl, h⟩
      · rw [sharing, h]
        obtain ⟨hcount, hsilent⟩ := ih spent
        refine ⟨?_, fun x hx hpassed => ?_⟩
        · rw [List.countP_cons_of_neg (by simp)]
          exact hcount
        · rcases List.mem_cons.mp hx with rfl | hx
          · rfl
          · exact hsilent x hx hpassed
      · rw [sharing, h]
        have hspent := sharing_spent rest
        refine ⟨?_, fun x hx hpassed => ?_⟩
        · have hnone : (sharing true rest).countP Prod.fst = 0 :=
            List.countP_eq_zero.mpr fun x hx => by simp [(hspent x hx).1]
          rw [List.countP_cons_of_pos (by rfl), hnone]
        · rcases List.mem_cons.mp hx with rfl | hx
          · cases hpassed
          · exact (hspent x hx).2

def late : Request where
  input := ⟨"17730000-0000-4000-8000-000000000006".toList.map (fun c => .ofNat c.toNat) ++ [0, 0, 0, 0], by decide, 1, 7, 64, 1000⟩
  budget := ⟨100, 100, 100, 100, 100, 300000, 100, 300800⟩
  ops := ⟨fun i => if i < 19 then 100 else 400, 1000, fun _ => (true, 0)⟩
  bootReconciled := false

end EtranProcessing.Deployment.RecoveryBudget
