import EtranProcessing.Capture.FailClosed
import EtranProcessing.Desk.CommandFrames

namespace EtranProcessing.Desk.LinkInvariant

open Capture SafetyGate GateMoves CaptureAdapter CaptureLink CommandFrames Library.Runs

section Gates

variable {g g' : Gate} {e : SafetyGate.Event}

theorem move_keeps (h : Move g e g') (hrunning : g'.stopped = false) :
    (∃ m start now, e = .command (some m) now ∧ m.body = .start start ∧ g.started = false ∧ g' = opened g m start now) ∨
      g'.started = g.started ∧ g'.leaseId = g.leaseId ∧ g'.streamId = g.streamId := by
  cases h with
  | halted _ _ hstopped => rw [hstopped] at hrunning; cases hrunning
  | opened m start now hbody hidle => exact .inl ⟨m, start, now, rfl, hbody, hidle, rfl⟩
  | idle | seen | renewed | idr | taken => exact .inr ⟨rfl, rfl, rfl⟩

theorem sound_init : Sound Gate.init :=
  ⟨rfl, rfl, fun h => Bool.noConfusion h, Nat.le_refl _⟩

end Gates

section Children

def First (w : Written) : Prop := w.call = .start ∧ w.ctx.requestSeq = 1 ∧ Current w ∨ w.call = .restart

def Belongs (g : Gate) (w : Written) : Prop :=
  (w.call ≠ .start ∧ w.call ≠ .restart) ∧ strToId16 w.ctx.leaseId = g.leaseId ∧ strToId16 w.ctx.streamId = g.streamId

/-- What may wait in the pipe of a child. -/
inductive Talks (g : Gate) : List Written → Prop
  | silent (hidle : g.started = false) : Talks g []
  | first (w) (hidle : g.started = false) (hfirst : First w) : Talks g [w]
  | stream (pipe) (hstarted : g.started = true) (hall : ∀ w ∈ pipe, Belongs g w) : Talks g pipe

def Heard (child : Child) : Prop := child.gate.stopped = false → Sound child.gate ∧ Talks child.gate child.pipe

variable {g g' : Gate} {pipe rest : List Written} {w : Written} {now : Nat}

theorem Belongs.moved (h : Belongs g w) (hlease : g'.leaseId = g.leaseId) (hstream : g'.streamId = g.streamId) : Belongs g' w :=
  ⟨h.1, h.2.1.trans hlease.symm, h.2.2.trans hstream.symm⟩

theorem Talks.moved (h : Talks g pipe) (hstarted : g'.started = g.started) (hlease : g'.leaseId = g.leaseId)
    (hstream : g'.streamId = g.streamId) : Talks g' pipe := by
  cases h with
  | silent hidle => exact .silent (hstarted.trans hidle)
  | first w hidle hfirst => exact .first w (hstarted.trans hidle) hfirst
  | stream pipe hon hall => exact .stream pipe (hstarted.trans hon) fun w hw => (hall w hw).moved hlease hstream

theorem Talks.concat (h : Talks g pipe) (hon : g.started = true) (hw : Belongs g w) : Talks g (pipe ++ [w]) := by
  cases h with
  | silent hidle | first w hidle => rw [hidle] at hon; cases hon
  | stream pipe hstarted hall =>
      refine .stream _ hstarted fun v hv => ?_
      rcases List.mem_append.mp hv with hv | hv
      · exact hall v hv
      · exact List.mem_singleton.mp hv ▸ hw

theorem stop_stopped (g : Gate) (reason : Limits.Status) : (g.stop reason).stopped = true := stopLocked_stopped g reason

theorem hear_command (hcurrent : Current w) (hrestart : w.call ≠ .restart) (hdestroy : w.call ≠ .destroy) :
    hear g w.frame now = (g.command (some (toMessage (own w))) now).2 := by
  unfold hear
  rw [decode_own hcurrent hrestart hdestroy]

theorem hear_destroy (h : w.call = .destroy) :
    hear g w.frame now = (g.command (some ⟨w.ctx.requestSeq.toNat, .stop zeroId⟩) now).2 := by
  unfold hear
  rw [decode_destroy h]
  rfl

theorem hear_restart (h : w.call = .restart) : hear g w.frame now = g.stop .protocol := by
  unfold hear
  rw [decode_restart h]

theorem Belongs.current (h : Belongs g w) : Current w := fun hstart => absurd hstart h.1.1

theorem Belongs.hears (h : Belongs g w) (now : Nat) :
    ∃ m, hear g w.frame now = (g.command (some m) now).2 ∧ ∀ start, m.body ≠ .start start := by
  by_cases hdestroy : w.call = .destroy
  · exact ⟨_, hear_destroy hdestroy, fun _ => Body.noConfusion⟩
  · refine ⟨_, hear_command h.current h.1.2 hdestroy, fun start => ?_⟩
    have hcall := h.1
    cases hw : w.call with
    | start => exact absurd hw hcall.1
    | restart => exact absurd hw hcall.2
    | destroy => exact absurd hw hdestroy
    | renewLease | forceIdr | stop => simp [own, toMessage, toBody, command, hw]

theorem first_opens (hsound : Sound g) (hidle : g.started = false) (hrunning : g.stopped = false) (hfirst : First w)
    (hgoes : (hear g w.frame now).stopped = false) : w.call = .start ∧
      ((hear g w.frame now).started = false ∨
        hear g w.frame now = opened g (toMessage (own w)) (toStart (startOf w.ctx w.profile)) now) := by
  rcases hfirst with ⟨hstart, -, hcurrent⟩ | hrestart
  · refine ⟨hstart, ?_⟩
    rw [hear_command hcurrent (by simp [hstart]) (by simp [hstart])] at hgoes ⊢
    rcases move_keeps (command_moves hrunning hsound (toMessage (own w)) now) hgoes with
      ⟨m, start, now', he, hbody, -, hopened⟩ | ⟨hstarted, -, -⟩
    · simp only [SafetyGate.Event.command.injEq, Option.some.injEq] at he
      obtain ⟨rfl, rfl⟩ := he
      have hown : (toMessage (own w)).body = .start (toStart (startOf w.ctx w.profile)) := by
        simp [toMessage, own, command, hstart, toBody]
      obtain rfl := Body.start.inj (hown.symm.trans hbody)
      exact .inr hopened
    · exact .inl (hstarted.trans hidle)
  · rw [hear_restart hrestart, stop_stopped] at hgoes
    cases hgoes

theorem hear_sound (hsound : Sound g) (hrunning : g.stopped = false) (htalks : Talks g (w :: rest))
    (hgoes : (hear g w.frame now).stopped = false) : Sound (hear g w.frame now) := by
  have hcommand : ∀ m, hear g w.frame now = (g.command (some m) now).2 → Sound (hear g w.frame now) := by
    intro m hm
    have hmove := command_moves hrunning hsound m now
    rw [← hm] at hmove
    exact FailClosed.Move.sound hmove hsound hgoes
  cases htalks with
  | first w hidle hfirst =>
      rcases hfirst with ⟨hstart, -, hcurrent⟩ | hrestart
      · exact hcommand _ (hear_command hcurrent (by simp [hstart]) (by simp [hstart]))
      · rw [hear_restart hrestart, stop_stopped] at hgoes
        cases hgoes
  | stream pipe hstarted hall =>
      obtain ⟨m, hm, -⟩ := (hall w List.mem_cons_self).hears now
      exact hcommand m hm

theorem hear_session (hsound : Sound g) (hrunning : g.stopped = false) (hon : g.started = true) (htalks : Talks g (w :: rest))
    (hgoes : (hear g w.frame now).stopped = false) : (hear g w.frame now).started = true ∧
      (hear g w.frame now).leaseId = g.leaseId ∧ (hear g w.frame now).streamId = g.streamId := by
  cases htalks with
  | first w hidle => rw [hidle] at hon; cases hon
  | stream pipe hstarted hall =>
      obtain ⟨m, hm, hbody⟩ := (hall w List.mem_cons_self).hears now
      rw [hm] at hgoes ⊢
      rcases move_keeps (command_moves hrunning hsound m now) hgoes with ⟨m', start, now', he, hstart, -, -⟩ | ⟨hkept, hids⟩
      · simp only [SafetyGate.Event.command.injEq, Option.some.injEq] at he
        exact absurd (he.1 ▸ hstart) (hbody start)
      · exact ⟨hkept.trans hon, hids⟩

theorem hear_talks (hsound : Sound g) (hrunning : g.stopped = false) (htalks : Talks g (w :: rest))
    (hgoes : (hear g w.frame now).stopped = false) : Talks (hear g w.frame now) rest := by
  cases htalks with
  | first w hidle hfirst =>
      rcases (first_opens hsound hidle hrunning hfirst hgoes).2 with hstill | hopened
      · exact .silent hstill
      · rw [hopened]
        exact .stream [] rfl fun v hv => absurd hv List.not_mem_nil
  | stream pipe hstarted hall =>
      obtain ⟨hon, hlease, hstream⟩ := hear_session hsound hrunning hstarted (.stream _ hstarted hall) hgoes
      exact .stream rest hon fun v hv => (hall v (List.mem_cons_of_mem w hv)).moved hlease hstream

theorem Heard.hear (h : Heard ⟨g, w :: rest⟩) (hrunning : g.stopped = false) (now : Nat) : Heard ⟨hear g w.frame now, rest⟩ := by
  intro hgoes
  obtain ⟨hsound, htalks⟩ := h hrunning
  exact ⟨hear_sound hsound hrunning htalks hgoes, hear_talks hsound hrunning htalks hgoes⟩

theorem Heard.step {child : Child} (h : Heard child) {e : SafetyGate.Event} (he : ∀ m now, e ≠ .command m now) :
    Heard { child with gate := SafetyGate.step child.gate e } := by
  intro hgoes
  have hrunning : child.gate.stopped = false := by
    by_contra hstopped
    rw [step_stopped (by simpa using hstopped)] at hgoes
    exact hstopped hgoes
  obtain ⟨hsound, htalks⟩ := h hrunning
  have hmove := step_moves hrunning hsound e
  refine ⟨FailClosed.Move.sound hmove hsound hgoes, ?_⟩
  rcases move_keeps hmove hgoes with ⟨m, start, now, hcommand, -⟩ | ⟨hstarted, hlease, hstream⟩
  · exact absurd hcommand (he _ _)
  · exact htalks.moved hstarted hlease hstream

end Children

section Links

def Own (ctx : Adapter) (c : Children) : Prop :=
  ∀ n child, ctx.stdinWrite = some n → c n = some child → child.gate.stopped = false →
    child.gate.started = true ∧ child.gate.leaseId = strToId16 ctx.leaseId ∧ child.gate.streamId = strToId16 ctx.streamId

def AllHeard (c : Children) : Prop := ∀ n child, c n = some child → Heard child

structure Inv (ctx : Adapter) (c : Children) : Prop where
  heard : AllHeard c
  own : Own ctx c
  piped : ctx.stdinWrite ≠ none → ctx.state = .running

variable {c c' : Children} {ctx : Adapter} {child : Child} {n m : Nat} {effects : List Effect} {w : Written}

@[simp] theorem put_self (c : Children) (n : Nat) (o : Option Child) : put c n o n = o := Function.update_self ..

theorem put_ne (c : Children) (o : Option Child) (h : m ≠ n) : put c n o m = c m :=
  Function.update_of_ne h ..

theorem AllHeard.set (h : AllHeard c) {o : Option Child} (ho : ∀ child, o = some child → Heard child) : AllHeard (put c n o) := by
  intro m child hm
  by_cases hmn : m = n
  · subst hmn
    rw [put_self] at hm
    exact ho child hm
  · rw [put_ne c o hmn] at hm
    exact h m child hm

theorem Own.set_none (h : Own ctx c) : Own ctx (put c n none) := by
  intro m child hstdin hm
  by_cases hmn : m = n
  · rw [hmn, put_self] at hm
    cases hm
  · rw [put_ne c none hmn] at hm
    exact h m child hstdin hm

theorem Own.set_some (h : Own ctx c) (hn : c n = some child) {child' : Child}
    (hgate : child'.gate.stopped = false → child.gate.stopped = false → child.gate.started = true →
      child'.gate.started = true ∧ child'.gate.leaseId = child.gate.leaseId ∧ child'.gate.streamId = child.gate.streamId)
    (hstopped : child.gate.stopped = true → child'.gate.stopped = true) : Own ctx (put c n (some child')) := by
  intro m other hstdin hm hgoes
  by_cases hmn : m = n
  · rw [hmn] at hm hstdin
    rw [put_self] at hm
    obtain rfl := Option.some.inj hm
    have hrunning : child.gate.stopped = false := by
      by_contra hstop
      rw [hstopped (by simpa using hstop)] at hgoes
      cases hgoes
    obtain ⟨hon, hown⟩ := h n child hstdin hn hrunning
    obtain ⟨hstarted, hlease, hstream⟩ := hgate hgoes hrunning hon
    exact ⟨hstarted, hlease.trans hown.1, hstream.trans hown.2⟩
  · rw [put_ne c _ hmn] at hm
    exact h m other hstdin hm hgoes

theorem Own.of_none (h : ctx.stdinWrite = none) : Own ctx c := by
  intro n child hstdin
  rw [h] at hstdin
  cases hstdin

theorem wrote_keeps (hheard : AllHeard c) (hown : Own ctx c) (hstdin : ctx.stdinWrite = some n) (hstart : w.call ≠ .start)
    (hrestart : w.call ≠ .restart) (hlease : w.ctx.leaseId = ctx.leaseId) (hstream : w.ctx.streamId = ctx.streamId)
    (h : apply c (.wrote n w) = some c') : AllHeard c' ∧ Own ctx c' := by
  cases hn : c n with
  | none =>
      simp only [apply, hn] at h
      obtain rfl := Option.some.inj h
      exact ⟨hheard, hown⟩
  | some child =>
      simp only [apply, hn] at h
      obtain rfl := Option.some.inj h
      refine ⟨hheard.set ?_, hown.set_some hn (fun _ _ hon => ⟨hon, rfl, rfl⟩) id⟩
      rintro _ ⟨⟩ hrunning
      obtain ⟨hsound, htalks⟩ := hheard n child hn hrunning
      obtain ⟨hon, hsession⟩ := hown n child hstdin hn hrunning
      refine ⟨hsound, ?_⟩
      have hbelongs : Belongs child.gate w := ⟨⟨hstart, hrestart⟩, by rw [hlease, hsession.1], by rw [hstream, hsession.2]⟩
      exact htalks.concat hon hbelongs

theorem ended_keeps (hheard : AllHeard c) (h : apply c (.ended n) = some c') : AllHeard c' := by
  obtain rfl := Option.some.inj h
  exact hheard.set fun child hnone => by cases hnone

end Links

section Calls

variable {c c' : Children} {ctx : Adapter} {n : Nat} {effects : List Effect}

theorem foldlM_one {e : Effect} (h : [e].foldlM apply c = some c') : apply c e = some c' := by
  simpa using h

theorem send_cases (ctx : Adapter) (call : Call) (profile : Option CString) (writes : Bool) :
    let sent : Adapter := { ctx with requestSeq := ctx.requestSeq + 1 }
    ctx.send call profile writes = (false, sent, []) ∨
      ∃ n w, ctx.stdinWrite = some n ∧ w.call = call ∧ w.ctx = sent ∧ w.profile = profile ∧ writes = true ∧
        ctx.send call profile writes = (true, sent, [.wrote n w]) := by
  simp only [Adapter.send]
  split
  · next n frame hstdin hsent =>
      cases writes with
      | false => exact .inl rfl
      | true => exact .inr ⟨n, _, hstdin, rfl, rfl, rfl, rfl, rfl⟩
  · exact .inl rfl

theorem send_ctx (ctx : Adapter) (call : Call) (profile : Option CString) (writes : Bool) :
    (ctx.send call profile writes).2.1 = { ctx with requestSeq := ctx.requestSeq + 1 } := by
  rcases send_cases ctx call profile writes with hsend | ⟨n, w, -, -, -, -, -, hsend⟩
  · rw [hsend]
  · rw [hsend]

theorem cleanup_cases (ctx : Adapter) (exited : Bool) :
    (ctx.cleanupProcess exited).2.1 = { ctx with stdinWrite := none, process := if exited then none else ctx.process } ∧
      ((ctx.cleanupProcess exited).2.2 = [] ∨
        ∃ n, ctx.process = some n ∧ exited = true ∧ (ctx.cleanupProcess exited).2.2 = [.ended n]) := by
  unfold Adapter.cleanupProcess
  obtain ⟨process, stdinWrite⟩ := ctx
  cases process with
  | none => cases exited <;> exact ⟨rfl, .inl rfl⟩
  | some n =>
      cases exited with
      | false => exact ⟨rfl, .inl rfl⟩
      | true => exact ⟨rfl, .inr ⟨n, rfl, rfl, rfl⟩⟩

def Farewell (ctx : Adapter) (call : Call) (effects : List Effect) : Prop :=
  ∃ sent ended, effects = sent ++ ended ∧
    (sent = [] ∨ ∃ n w, ctx.stdinWrite = some n ∧ w.call = call ∧ w.ctx.leaseId = ctx.leaseId ∧ w.ctx.streamId = ctx.streamId ∧
      sent = [.wrote n w]) ∧
    (ended = [] ∨ ∃ n, ctx.process = some n ∧ ended = [.ended n])

theorem farewell_cases (ctx : Adapter) (call : Call) (writes : Bool) :
    ∃ seq, (ctx.farewell call writes).1 = { ctx with requestSeq := seq } ∧
      ((ctx.farewell call writes).2 = [] ∨
        ∃ n w, ctx.stdinWrite = some n ∧ w.call = call ∧ w.ctx.leaseId = ctx.leaseId ∧ w.ctx.streamId = ctx.streamId ∧
          (ctx.farewell call writes).2 = [.wrote n w]) := by
  unfold Adapter.farewell
  split_ifs with hopen
  · rcases send_cases ctx call none writes with hsend | ⟨n, w, hstdin, hcall, hctx, -, -, hsend⟩
    · rw [hsend]
      exact ⟨_, rfl, .inl rfl⟩
    · rw [hsend]
      exact ⟨_, rfl, .inr ⟨n, w, hstdin, hcall, by rw [hctx], by rw [hctx], rfl⟩⟩
  · exact ⟨ctx.requestSeq, rfl, .inl rfl⟩

theorem settle_stdin (ctx : Adapter) (exited : Bool) : (ctx.settle exited).2.1.stdinWrite = none := by
  have hclosed := (cleanup_cases ctx exited).1
  unfold Adapter.settle
  dsimp only
  split
  · simp [hclosed]
  · simp [hclosed]

theorem ended_cases (ctx : Adapter) (exited : Bool) : (ctx.cleanupProcess exited).2.2 = [] ∨
    ∃ n, ctx.process = some n ∧ (ctx.cleanupProcess exited).2.2 = [.ended n] := by
  rcases (cleanup_cases ctx exited).2 with hnone | ⟨n, hprocess, -, hended⟩
  · exact .inl hnone
  · exact .inr ⟨n, hprocess, hended⟩

theorem farewell_then_cleanup (ctx : Adapter) (call : Call) (writes exited : Bool) :
    Farewell ctx call ((ctx.farewell call writes).2 ++ ((ctx.farewell call writes).1.cleanupProcess exited).2.2) := by
  obtain ⟨seq, hctx, hsent⟩ := farewell_cases ctx call writes
  refine ⟨_, _, rfl, hsent, ?_⟩
  rw [hctx]
  exact ended_cases _ _

theorem stop_farewell (ctx : Adapter) (os : Os) : Farewell ctx .stop (ctx.stop os).2.2 := by
  unfold Adapter.stop
  split_ifs with hidle hstopping
  · exact ⟨[], [], rfl, .inl rfl, .inl rfl⟩
  · exact ⟨[], _, rfl, .inl rfl, ended_cases ctx _⟩
  · exact farewell_then_cleanup { ctx with restartPending := false, state := .stopping } .stop _ _

theorem destroy_farewell (ctx : Adapter) (os : Os) : Farewell ctx .destroy (ctx.destroy os) := by
  unfold Adapter.destroy
  split_ifs with hidle
  · exact farewell_then_cleanup ctx .destroy _ _
  · exact ⟨[], [], rfl, .inl rfl, .inl rfl⟩

theorem stop_stdin (h : ctx.state ≠ .idle) (os : Os) : (ctx.stop os).2.1.stdinWrite = none := by
  unfold Adapter.stop
  rw [if_neg h]
  split
  · exact settle_stdin _ _
  · exact settle_stdin _ _

theorem fold_nil (h : [].foldlM apply c = some c') : c' = c := (Option.some.inj h).symm

theorem fold_append {more : List Effect} (h : (effects ++ more).foldlM apply c = some c') :
    ∃ c₁, effects.foldlM apply c = some c₁ ∧ more.foldlM apply c₁ = some c' := by
  rw [List.foldlM_append, Option.bind_eq_bind, Option.bind_eq_some_iff] at h
  exact h

variable {os : Os} {call : Call} {profile : Option CString} {w : Written}

theorem Farewell.keeps (h : Farewell ctx call effects) (hcall : call ≠ .start ∧ call ≠ .restart) (hheard : AllHeard c)
    (hown : Own ctx c) (hfold : effects.foldlM apply c = some c') : AllHeard c' := by
  obtain ⟨sent, ended, rfl, hsent, hended⟩ := h
  obtain ⟨c₁, hfirst, hsecond⟩ := fold_append hfold
  have hheard₁ : AllHeard c₁ := by
    rcases hsent with rfl | ⟨n, w, hstdin, rfl, hlease, hstream, rfl⟩
    · rw [fold_nil hfirst]
      exact hheard
    · exact (wrote_keeps hheard hown hstdin hcall.1 hcall.2 hlease hstream (foldlM_one hfirst)).1
  rcases hended with rfl | ⟨n, -, rfl⟩
  · rw [fold_nil hsecond]
    exact hheard₁
  · exact ended_keeps hheard₁ (foldlM_one hsecond)

theorem stop_keeps (hinv : Inv ctx c) (hfold : (ctx.stop os).2.2.foldlM apply c = some c') :
    AllHeard c' ∧ (ctx.stop os).2.1.stdinWrite = none := by
  refine ⟨(stop_farewell ctx os).keeps (by decide) hinv.heard hinv.own hfold, ?_⟩
  by_cases hidle : ctx.state = .idle
  · have hstop : ctx.stop os = (true, ctx, []) := if_pos hidle
    rw [hstop]
    by_contra hopen
    rw [hinv.piped hopen] at hidle
    cases hidle
  · exact stop_stdin hidle os

theorem inv_of_closed (hheard : AllHeard c') (h : ctx.stdinWrite = none) : Inv ctx c' :=
  ⟨hheard, Own.of_none h, fun hopen => absurd h hopen⟩

theorem failed_cases (ctx : Adapter) (exited : Bool) : (ctx.failed exited).2.1.stdinWrite = none ∧
    (ctx.failed exited).2.1.state = .failed ∧ (ctx.failed exited).2.2 = (ctx.cleanupProcess exited).2.2 := by
  refine ⟨?_, rfl, rfl⟩
  have hclosed := (cleanup_cases ctx exited).1
  change (ctx.cleanupProcess exited).2.1.stdinWrite = none
  rw [hclosed]

theorem waitForReady_eq (h : ctx.stdinWrite = some n) (ready : Option Nat) :
    ctx.waitForReady ready = ready.map fun tick => [.ready n tick] := by
  unfold Adapter.waitForReady
  rw [h]
  cases ready with
  | none => rfl
  | some tick => rfl

theorem open_cases (ctx : Adapter) (call : Call) (profile : Option CString) (write exit : Nat) (os : Os) :
    (∃ n tick w, ctx.stdinWrite = some n ∧ os.ready = some tick ∧ w.call = call ∧ w.ctx = { ctx with requestSeq := 1 } ∧
      w.profile = profile ∧
      (ctx.open call profile write exit os).2 =
        ({ ctx with requestSeq := 1, state := .running }, [.wrote n w, .ready n tick])) ∨
      ∃ sent, (ctx.open call profile write exit os).2 =
          (after sent ({ ctx with requestSeq := 1 }.failed (os.exits exit))).2 ∧
        (sent = [] ∨ ∃ n w, ctx.stdinWrite = some n ∧ w.call = call ∧ w.ctx = { ctx with requestSeq := 1 } ∧
          sent = [.wrote n w]) := by
  unfold Adapter.open
  rcases send_cases { ctx with requestSeq := 0 } call profile (os.writes write) with
    hsend | ⟨n, w, hstdin, hcall, hctx, hprofile, -, hsend⟩
  · rw [hsend]
    exact .inr ⟨[], rfl, .inl rfl⟩
  · rw [hsend]
    have hwait : Adapter.waitForReady { ctx with requestSeq := 0 + 1 } os.ready = os.ready.map fun tick => [.ready n tick] :=
      waitForReady_eq hstdin os.ready
    dsimp only at hwait ⊢
    rw [hwait]
    cases hready : os.ready with
    | none => exact .inr ⟨[.wrote n w], rfl, .inr ⟨n, w, hstdin, hcall, hctx, rfl⟩⟩
    | some tick => exact .inl ⟨n, tick, w, hstdin, rfl, hcall, hctx, hprofile, rfl⟩

def Fresh (c : Children) (ctx : Adapter) (n : Nat) : Prop := ctx.stdinWrite = some n ∧ c n = some ⟨Gate.init, []⟩

def Opens (ctx : Adapter) (call : Call) : Prop :=
  call = .start ∧ ctx.savedParams.deadlineTickMs = ctx.currentDeadlineTickMs ∨ call = .restart

theorem first_of_opens (h : Opens ctx call) (hcall : w.call = call)
    (hctx : w.ctx = { ctx with requestSeq := 1 }) : First w := by
  rcases h with ⟨rfl, hdeadline⟩ | rfl
  · exact .inl ⟨hcall, by rw [hctx], fun _ => by rw [hctx]; exact hdeadline⟩
  · exact .inr hcall

theorem wrote_fresh (hfresh : Fresh c ctx n) (hfirst : First w) (hheard : AllHeard c)
    (h : apply c (.wrote n w) = some c') : c' = put c n (some ⟨Gate.init, [w]⟩) ∧ AllHeard c' := by
  simp only [apply, hfresh.2, List.nil_append] at h
  obtain rfl := Option.some.inj h
  refine ⟨rfl, hheard.set ?_⟩
  rintro _ ⟨⟩ _
  exact ⟨sound_init, .first w rfl hfirst⟩

theorem ready_eq {tick : Nat} (h : c n = some ⟨Gate.init, [w]⟩) (hready : apply c (.ready n tick) = some c') :
    c' = put c n (some ⟨hear Gate.init w.frame tick, []⟩) ∧ (hear Gate.init w.frame tick).started = true := by
  have hdeliver : deliver c n tick = some (put c n (some ⟨hear Gate.init w.frame tick, []⟩)) := by
    simp only [CaptureLink.deliver, h]
    rfl
  simp only [apply, hdeliver, Option.bind_eq_bind, Option.bind_some, put_self] at hready
  split_ifs at hready with hstarted
  exact ⟨(Option.some.inj hready).symm, hstarted⟩

theorem ready_own {tick : Nat} (hlease : w.ctx.leaseId = ctx.leaseId) (hstream : w.ctx.streamId = ctx.streamId)
    (hfirst : First w) (hstdin : ctx.stdinWrite = some n) (hstarted : (hear Gate.init w.frame tick).started = true) :
    Own ctx (put c n (some ⟨hear Gate.init w.frame tick, []⟩)) := by
  intro m child hm hchild hgoes
  obtain rfl : n = m := Option.some.inj (hstdin.symm.trans hm)
  rw [put_self] at hchild
  obtain rfl := Option.some.inj hchild
  rcases (first_opens sound_init rfl rfl hfirst hgoes).2 with hstill | hopened
  · rw [hstarted] at hstill
    cases hstill
  · simp only [hopened, opened, toStart, startOf, hlease, hstream, and_self]

theorem open_keeps {write exit : Nat} (hfresh : Fresh c ctx n)
    (hopens : Opens ctx call) (hheard : AllHeard c)
    (hfold : (ctx.open call profile write exit os).2.2.foldlM apply c = some c') :
    Inv (ctx.open call profile write exit os).2.1 c' := by
  rcases open_cases ctx call profile write exit os with
    ⟨m, tick, w, hstdin, -, hcall, hctx, -, hopen⟩ | ⟨sent, hopen, hsent⟩
  · obtain rfl : n = m := Option.some.inj (hfresh.1.symm.trans hstdin)
    have hfirst := first_of_opens hopens hcall hctx
    rw [hopen] at hfold ⊢
    obtain ⟨c₁, hwrote, hready⟩ := @fold_append c c' [.wrote n w] [.ready n tick] hfold
    obtain ⟨rfl, hheard₁⟩ := wrote_fresh hfresh hfirst hheard (foldlM_one hwrote)
    obtain ⟨rfl, hstarted⟩ := ready_eq (put_self c n _) (foldlM_one hready)
    refine ⟨hheard₁.set ?_, ?_, fun _ => rfl⟩
    · rintro _ ⟨⟩
      exact Heard.hear (hheard₁ n _ (put_self c n _)) rfl tick
    · exact ready_own (by rw [hctx]) (by rw [hctx]) hfirst hstdin hstarted
  · obtain ⟨hclosed, -, heffects⟩ := failed_cases { ctx with requestSeq := 1 } (os.exits exit)
    rw [hopen] at hfold ⊢
    obtain ⟨c₁, hfirst, hsecond⟩ := fold_append hfold
    refine inv_of_closed ?_ hclosed
    have hheard₁ : AllHeard c₁ := by
      rcases hsent with rfl | ⟨m, w, hstdin, hcall, hctx, rfl⟩
      · rw [fold_nil hfirst]
        exact hheard
      · obtain rfl : n = m := Option.some.inj (hfresh.1.symm.trans hstdin)
        exact (wrote_fresh hfresh (first_of_opens hopens hcall hctx) hheard (foldlM_one hfirst)).2
    rw [heffects] at hsecond
    rcases ended_cases { ctx with requestSeq := 1 } (os.exits exit) with hnone | ⟨m, -, hended⟩
    · rw [hnone] at hsecond
      rw [fold_nil hsecond]
      exact hheard₁
    · rw [hended] at hsecond
      exact ended_keeps hheard₁ (foldlM_one hsecond)

theorem launched_eq (h : apply c (.launched n) = some c') : c' = put c n (some ⟨Gate.init, []⟩) := by
  simp only [apply] at h
  split_ifs at h
  exact (Option.some.inj h).symm

theorem launched_keeps (hheard : AllHeard c) (h : apply c (.launched n) = some c') :
    AllHeard c' ∧ c' n = some ⟨Gate.init, []⟩ := by
  rw [launched_eq h]
  refine ⟨hheard.set ?_, put_self c n _⟩
  rintro _ ⟨⟩ _
  exact ⟨sound_init, .silent rfl⟩

theorem launch_keeps {write exit : Nat} (hclosed : ctx.stdinWrite = none)
    (hopens : Opens ctx call) (hheard : AllHeard c)
    (hfold : (ctx.launchAndOpen call profile write exit os).2.2.foldlM apply c = some c') :
    Inv (ctx.launchAndOpen call profile write exit os).2.1 c' := by
  cases hlaunched : os.launched with
  | none =>
      simp only [Adapter.launchAndOpen, hlaunched, Adapter.launchProcess] at hfold ⊢
      rw [fold_nil hfold]
      exact inv_of_closed hheard hclosed
  | some n =>
      simp only [Adapter.launchAndOpen, hlaunched, Adapter.launchProcess, after] at hfold ⊢
      obtain ⟨c₁, hlaunch, hopen⟩ := fold_append hfold
      obtain ⟨hheard₁, hchild⟩ := launched_keeps hheard (foldlM_one hlaunch)
      have hopens' : Opens { ctx with process := some n, stdinWrite := some n } call := hopens
      have hfresh : Fresh c₁ { ctx with process := some n, stdinWrite := some n } n := ⟨rfl, hchild⟩
      exact open_keeps hfresh hopens' hheard₁ hopen

theorem begin_keeps {params : StreamParams} {o : Outcome} (hbegin : ctx.begin params os = some o)
    (hclosed : ctx.stdinWrite = none) (hheard : AllHeard c) (hfold : o.2.2.foldlM apply c = some c') : Inv o.2.1 c' := by
  simp only [Adapter.begin, Option.bind_eq_bind, Option.bind_eq_some_iff, Option.some.injEq] at hbegin
  obtain ⟨leaseId, -, streamId, -, rfl⟩ := hbegin
  have hopens : Opens (ctx.accept params leaseId streamId) .start := .inl ⟨rfl, rfl⟩
  exact launch_keeps hclosed hopens hheard hfold

theorem Inv.closed (hinv : Inv ctx c) (h : ctx.state ≠ .running) : ctx.stdinWrite = none := by
  by_contra hopen
  exact h (hinv.piped hopen)

theorem start_keeps {params : StreamParams} {o : Outcome} (hinv : Inv ctx c) (hstart : ctx.start params os = some o)
    (hfold : o.2.2.foldlM apply c = some c') : Inv o.2.1 c' := by
  unfold Adapter.start at hstart
  split_ifs at hstart with hon hsame
  · obtain rfl := Option.some.inj hstart
    rw [fold_nil hfold]
    exact hinv
  · simp only [Option.map_eq_some_iff] at hstart
    obtain ⟨o, hbegin, rfl⟩ := hstart
    obtain ⟨c₁, hstop, hrest⟩ := fold_append hfold
    obtain ⟨hheard, hclosed⟩ := stop_keeps hinv hstop
    have hkept := begin_keeps hbegin hclosed hheard hrest
    exact hkept
  · exact begin_keeps hstart (hinv.closed fun hrunning => hon (.inl hrunning)) hinv.heard hfold

theorem send_keeps {writes : Bool} (hinv : Inv ctx c)
    (hcall : call ≠ .start ∧ call ≠ .restart) (hfold : (ctx.send call profile writes).2.2.foldlM apply c = some c') :
    Inv (ctx.send call profile writes).2.1 c' := by
  rcases send_cases ctx call profile writes with hsend | ⟨n, w, hstdin, rfl, hctx, -, -, hsend⟩
  · rw [hsend] at hfold ⊢
    rw [fold_nil hfold]
    exact ⟨hinv.heard, hinv.own, hinv.piped⟩
  · rw [hsend] at hfold ⊢
    obtain ⟨hheard, hown⟩ := wrote_keeps hinv.heard hinv.own hstdin hcall.1 hcall.2 (by rw [hctx]) (by rw [hctx]) (foldlM_one hfold)
    exact ⟨hheard, hown, hinv.piped⟩

theorem renew_keeps {leaseId : Option CString} {deadline : UInt64} (hinv : Inv ctx c)
    (hfold : (ctx.renewLease leaseId deadline os).2.2.foldlM apply c = some c') :
    Inv (ctx.renewLease leaseId deadline os).2.1 c' := by
  unfold Adapter.renewLease at hfold ⊢
  split_ifs at hfold ⊢ with hrunning hlease hsame hopen
  · rw [fold_nil hfold]
    exact hinv
  · rw [fold_nil hfold]
    exact hinv
  · rw [fold_nil hfold]
    exact hinv
  · have hmid : Inv { ctx with currentDeadlineTickMs := deadline } c := ⟨hinv.heard, hinv.own, hinv.piped⟩
    exact send_keeps hmid (by decide) hfold
  · rw [fold_nil hfold]
    exact ⟨hinv.heard, hinv.own, hinv.piped⟩

theorem idr_keeps (hinv : Inv ctx c) (hfold : (ctx.forceIdr os).2.2.foldlM apply c = some c') :
    Inv (ctx.forceIdr os).2.1 c' := by
  unfold Adapter.forceIdr at hfold ⊢
  split_ifs at hfold ⊢ with hrunning hclosed
  · rw [fold_nil hfold]
    exact hinv
  · rw [fold_nil hfold]
    exact hinv
  · exact send_keeps hinv (by decide) hfold

theorem checkExit_keeps (hinv : Inv ctx c) (hfold : (ctx.checkExit os).2.foldlM apply c = some c') :
    Inv (ctx.checkExit os).1 c' := by
  unfold Adapter.checkExit at hfold ⊢
  split at hfold
  · rw [fold_nil hfold]
    exact hinv
  · split_ifs at hfold ⊢ with hdied hrestart
    · exact inv_of_closed (ended_keeps hinv.heard (foldlM_one hfold)) rfl
    · exact inv_of_closed (ended_keeps hinv.heard (foldlM_one hfold)) rfl
    · rw [fold_nil hfold]
      exact hinv

theorem executeRestart_keeps (hinv : Inv ctx c)
    (hfold : (ctx.executeRestart os).2.foldlM apply c = some c') : Inv (ctx.executeRestart os).1 c' := by
  unfold Adapter.executeRestart at hfold ⊢
  split_ifs at hfold ⊢ with hpending hexpired hdue
  · rw [fold_nil hfold]
    refine inv_of_closed hinv.heard (hinv.closed ?_)
    simp [hpending.1]
  · have hclosed : ctx.stdinWrite = none := hinv.closed (by simp [hpending.1])
    exact launch_keeps hclosed (.inr rfl) hinv.heard hfold
  · rw [fold_nil hfold]
    exact hinv
  · rw [fold_nil hfold]
    exact hinv

theorem poll_keeps (hinv : Inv ctx c) (hfold : (ctx.poll os).2.foldlM apply c = some c') :
    Inv (ctx.poll os).1 c' := by
  unfold Adapter.poll at hfold ⊢
  split_ifs at hfold ⊢ with hidle hexpired
  · rw [fold_nil hfold]
    exact hinv
  · obtain ⟨hheard, hclosed⟩ := stop_keeps hinv hfold
    exact inv_of_closed hheard hclosed
  · obtain ⟨c₁, hexit, hrestart⟩ := fold_append hfold
    exact executeRestart_keeps (checkExit_keeps hinv hexit) hrestart

end Calls

section Steps

variable {c c' : Children} {ctx : Adapter}

theorem call_inv {e : CaptureLink.Event} {ctx' : Adapter} {effects : List Effect} (hinv : Inv ctx c) (hcall : call ctx e = some (ctx', effects))
    (hfold : effects.foldlM apply c = some c') : Inv ctx' c' := by
  cases e with
  | start =>
      simp only [call, Option.map_eq_some_iff] at hcall
      obtain ⟨o, hstart, ho⟩ := hcall
      obtain ⟨rfl, rfl⟩ := Prod.mk.inj ho
      exact start_keeps hinv hstart hfold
  | renewLease =>
      obtain ⟨rfl, rfl⟩ := Prod.mk.inj (Option.some.inj hcall)
      exact renew_keeps hinv hfold
  | forceIdr os =>
      obtain ⟨rfl, rfl⟩ := Prod.mk.inj (Option.some.inj hcall)
      exact idr_keeps hinv hfold
  | stop os =>
      obtain ⟨rfl, rfl⟩ := Prod.mk.inj (Option.some.inj hcall)
      obtain ⟨hheard, hclosed⟩ := stop_keeps hinv hfold
      exact inv_of_closed hheard hclosed
  | poll os =>
      obtain ⟨rfl, rfl⟩ := Prod.mk.inj (Option.some.inj hcall)
      exact poll_keeps hinv hfold
  | destroy os =>
      obtain ⟨rfl, rfl⟩ := Prod.mk.inj (Option.some.inj hcall)
      exact inv_of_closed ((destroy_farewell ctx os).keeps (by decide) hinv.heard hinv.own hfold) rfl
  | _ =>
      obtain ⟨rfl, rfl⟩ := Prod.mk.inj (Option.some.inj hcall)
      rw [fold_nil hfold]
      exact hinv

theorem deliver_cases {n now : Nat} (h : deliver c n now = some c') :
    ∃ gate w rest, c n = some ⟨gate, w :: rest⟩ ∧ gate.stopped = false ∧ c' = put c n (some ⟨hear gate w.frame now, rest⟩) := by
  unfold CaptureLink.deliver at h
  split at h
  · next gate w rest hn =>
      split_ifs at h with hstopped
      exact ⟨gate, w, rest, hn, by simpa using hstopped, (Option.some.inj h).symm⟩
  · cases h

theorem deliver_inv {n now : Nat} (hinv : Inv ctx c) (h : deliver c n now = some c') : Inv ctx c' := by
  obtain ⟨gate, w, rest, hn, hrunning, rfl⟩ := deliver_cases h
  have hheard := hinv.heard n _ hn
  obtain ⟨hsound, htalks⟩ := hheard hrunning
  refine ⟨hinv.heard.set ?_, hinv.own.set_some hn ?_ ?_, hinv.piped⟩
  · rintro _ ⟨⟩
    exact hheard.hear hrunning now
  · exact fun hgoes _ hon => hear_session hsound hrunning hon htalks hgoes
  · exact fun hstopped => absurd (hrunning.symm.trans hstopped) Bool.false_ne_true

theorem acts_inv {n : Nat} {e : SafetyGate.Event} (he : ∀ m now, e ≠ .command m now) (hinv : Inv ctx c)
    (h : acts c n e = some c') : Inv ctx c' := by
  simp only [acts, Option.map_eq_some_iff] at h
  obtain ⟨child, hn, rfl⟩ := h
  have hheard := hinv.heard n _ hn
  refine ⟨hinv.heard.set ?_, hinv.own.set_some hn ?_ ?_, hinv.piped⟩
  · rintro _ ⟨⟩
    exact hheard.step he
  · intro hgoes hrunning hon
    obtain ⟨hsound, -⟩ := hheard hrunning
    rcases move_keeps (step_moves hrunning hsound e) hgoes with ⟨m, start, now, hcommand, -⟩ | ⟨hstarted, hids⟩
    · exact absurd hcommand (he _ _)
    · exact ⟨hstarted.trans hon, hids⟩
  · intro hstopped
    rw [step_stopped hstopped]
    exact hstopped

theorem exit_inv {n : Nat} (hinv : Inv ctx c) : Inv ctx (put c n none) :=
  ⟨hinv.heard.set fun _ hnone => (by cases hnone), hinv.own.set_none, hinv.piped⟩

theorem step?_cases {s s' : Link} {e : CaptureLink.Event} (p : Adapter → Children → Prop)
    (hcall : ∀ ctx effects c, call s.ctx e = some (ctx, effects) → effects.foldlM apply s.children = some c → p ctx c)
    (hdeliver : ∀ n now c, deliver s.children n now = some c → p s.ctx c)
    (hacts : ∀ n e' c, (∀ m now, e' ≠ SafetyGate.Event.command m now) → acts s.children n e' = some c → p s.ctx c)
    (hexit : ∀ n, p s.ctx (put s.children n none)) (h : s.step? e = some s') : p s'.ctx s'.children := by
  cases e with
  | deliver n now =>
      obtain ⟨c, hc, rfl⟩ := Option.map_eq_some_iff.mp h
      exact hdeliver n now c hc
  | check n now desktop | canSend n now desktop | takeIdr n now | stopChild n reason =>
      obtain ⟨c, hc, rfl⟩ := Option.map_eq_some_iff.mp h
      exact hacts n _ c (fun _ _ => SafetyGate.Event.noConfusion) hc
  | exit n =>
      obtain rfl := Option.some.inj h
      exact hexit n
  | start params os | renewLease leaseId deadline os | forceIdr os | stop os | poll os | destroy os =>
      simp only [Link.step?, Option.bind_eq_bind, Option.bind_eq_some_iff] at h
      obtain ⟨⟨ctx, effects⟩, hctx, children, hfold, hs⟩ := h
      obtain rfl := Option.some.inj hs
      exact hcall ctx effects children hctx hfold

theorem step_inv (s : Link) (e : CaptureLink.Event) (hinv : Inv s.ctx s.children) :
    Inv (CaptureLink.step s e).ctx (CaptureLink.step s e).children := by
  unfold CaptureLink.step
  cases hstep : s.step? e with
  | none => exact hinv
  | some s' =>
      exact step?_cases Inv (fun _ _ _ hcall hfold => call_inv hinv hcall hfold) (fun _ _ _ h => deliver_inv hinv h)
        (fun _ _ _ he h => acts_inv he hinv h) (fun _ => exit_inv hinv) hstep

theorem inv_init : Inv Link.init.ctx Link.init.children :=
  ⟨fun _ _ h => (by cases h), Own.of_none rfl, fun h => absurd rfl h⟩

theorem run_inv (events : List CaptureLink.Event) :
    Inv (run CaptureLink.step Link.init events).ctx (run CaptureLink.step Link.init events).children :=
  @run_kept _ _ _ (fun s : Link => Inv s.ctx s.children) step_inv events Link.init inv_init

end Steps

end EtranProcessing.Desk.LinkInvariant
