import EtranProcessing.Desk.CommandsUnderstood

namespace EtranProcessing.Desk.LeaseAgreement

open Capture SafetyGate GateMoves CaptureAdapter CaptureLink CommandFrames LinkInvariant CommandsUnderstood Library.Runs

section Chains

/-- The commands in a pipe with growing numbers and deadlines, from those of the gate to those of the adapter. -/
def Chain : Nat → Nat → List Written → Nat → Nat → Prop
  | deadline, seq, [], final, last => deadline = final ∧ seq ≤ last
  | deadline, seq, w :: rest, final, last =>
      seq < w.ctx.requestSeq.toNat ∧
        if w.call = .renewLease then
          deadline < w.ctx.currentDeadlineTickMs.toNat ∧
            Chain w.ctx.currentDeadlineTickMs.toNat w.ctx.requestSeq.toNat rest final last
        else Chain deadline w.ctx.requestSeq.toNat rest final last

variable {deadline seq final last last' : Nat} {pipe : List Written} {w : Written}

theorem Chain.later (h : Chain deadline seq pipe final last) (hlast : last ≤ last') : Chain deadline seq pipe final last' := by
  induction pipe generalizing deadline seq with
  | nil => exact ⟨h.1, h.2.trans hlast⟩
  | cons w rest ih =>
      refine ⟨h.1, ?_⟩
      have htail := h.2
      split_ifs at htail ⊢ with hcall
      · exact ⟨htail.1, ih htail.2⟩
      · exact ih htail

theorem Chain.concat (h : Chain deadline seq pipe final last) (hseq : last < w.ctx.requestSeq.toNat)
    (hgrows : w.call = .renewLease → final < w.ctx.currentDeadlineTickMs.toNat)
    (hkept : w.call ≠ .renewLease → final = w.ctx.currentDeadlineTickMs.toNat) :
    Chain deadline seq (pipe ++ [w]) w.ctx.currentDeadlineTickMs.toNat w.ctx.requestSeq.toNat := by
  induction pipe generalizing deadline seq with
  | nil =>
      obtain ⟨rfl, hle⟩ := h
      refine ⟨Nat.lt_of_le_of_lt hle hseq, ?_⟩
      split_ifs with hcall
      · exact ⟨hgrows hcall, rfl, Nat.le_refl _⟩
      · exact ⟨hkept hcall, Nat.le_refl _⟩
  | cons v rest ih =>
      refine ⟨h.1, ?_⟩
      have htail := h.2
      split_ifs at htail ⊢ with hcall
      · exact ⟨htail.1, ih htail.2⟩
      · exact ih htail

end Chains

section Hearing

variable {g : Gate} {w : Written} {now : Nat} (hrunning : g.stopped = false) (hsound : Sound g) (hon : g.started = true)
include hrunning hsound hon

theorem goes_on {m : Message} (hseq : m.requestSeq ≠ 0) (hgoes : (g.command (some m) now).2.stopped = false) :
    Live g now ∧ (g.command (some m) now).2 =
      (Gate.done ((seen g now).apply m (seen g now).lease.lastTickMs).1 ((seen g now).apply m (seen g now).lease.lastTickMs).2).2 := by
  rcases checkLocked_cases hrunning hsound now with ⟨hidle, -⟩ | ⟨hlive, -⟩ | ⟨hlate, hstopped, -⟩
  · rw [hidle] at hon
    cases hon
  · refine ⟨hlive, ?_⟩
    rw [command_live hrunning hsound hlive, if_neg hseq]
  · rw [command_late hrunning hlate hstopped, hstopped] at hgoes
    cases hgoes

theorem hear_renew (hcall : w.call = .renewLease) (hbelongs : Belongs g w) (hseq : g.lastCommandSeq < w.ctx.requestSeq.toNat)
    (hgrows : g.lease.deadlineTickMs < w.ctx.currentDeadlineTickMs.toNat) (hgoes : (hear g w.frame now).stopped = false) :
    hear g w.frame now = renewed (seen g now) w.ctx.requestSeq.toNat w.ctx.currentDeadlineTickMs.toNat := by
  rw [hear_command hbelongs.current (by simp [hcall]) (by simp [hcall])] at hgoes ⊢
  have hne : (toMessage (own w)).requestSeq ≠ 0 := Nat.ne_of_gt (Nat.lt_of_le_of_lt (Nat.zero_le _) hseq)
  obtain ⟨hlive, heq⟩ := goes_on hrunning hsound hon hne hgoes
  have hbody : (toMessage (own w)).body = .renewLease (strToId16 w.ctx.leaseId) w.ctx.currentDeadlineTickMs.toNat := by
    simp [toMessage, own, command, hcall, toBody]
  rw [heq, renew_applied (hsound.seen hlive) hbody hlive.1 hbelongs.2.1, if_pos ⟨hseq, hgrows⟩]
  rfl

theorem hear_idr (hcall : w.call = .forceIdr) (hbelongs : Belongs g w) (hseq : g.lastCommandSeq < w.ctx.requestSeq.toNat)
    (hgoes : (hear g w.frame now).stopped = false) : hear g w.frame now = awaitingIdr (seen g now) w.ctx.requestSeq.toNat := by
  rw [hear_command hbelongs.current (by simp [hcall]) (by simp [hcall])] at hgoes ⊢
  have hne : (toMessage (own w)).requestSeq ≠ 0 := Nat.ne_of_gt (Nat.lt_of_le_of_lt (Nat.zero_le _) hseq)
  obtain ⟨hlive, heq⟩ := goes_on hrunning hsound hon hne hgoes
  have hbody : (toMessage (own w)).body = .forceIdr (strToId16 w.ctx.streamId) := by
    simp [toMessage, own, command, hcall, toBody]
  have hbehind : (seen g now).lastCommandSeq < (toMessage (own w)).requestSeq := hseq
  have hseen : (seen g now).started = true := hlive.1
  have hstream : strToId16 w.ctx.streamId = (seen g now).streamId := hbelongs.2.2
  rw [heq, idr_applied hbody hseen hstream, if_pos hbehind]
  rfl

theorem hear_stop (hcall : w.call = .stop ∨ w.call = .destroy) (hbelongs : Belongs g w) (hseq : 0 < w.ctx.requestSeq.toNat) :
    (hear g w.frame now).stopped = true := by
  by_contra hgoes
  have hgoes : (hear g w.frame now).stopped = false := by simpa using hgoes
  rcases hcall with hcall | hcall
  · rw [hear_command hbelongs.current (by simp [hcall]) (by simp [hcall])] at hgoes
    obtain ⟨hlive, heq⟩ := goes_on hrunning hsound hon (m := toMessage (own w)) (Nat.ne_of_gt hseq) hgoes
    have hbody : (toMessage (own w)).body = .stop (strToId16 w.ctx.streamId) := by
      simp [toMessage, own, command, hcall, toBody]
    have hseen : (seen g now).started = true := hlive.1
    have hstream : strToId16 w.ctx.streamId = (seen g now).streamId := hbelongs.2.2
    rw [heq, stop_applied hbody hseen hstream] at hgoes
    have hstopped : ((seen g now).stopLocked .ok).stopped = true := stopLocked_stopped _ _
    change ((seen g now).stopLocked .ok).stopped = false at hgoes
    rw [hstopped] at hgoes
    cases hgoes
  · rw [hear_destroy hcall] at hgoes
    obtain ⟨hlive, heq⟩ := goes_on hrunning hsound hon (m := ⟨w.ctx.requestSeq.toNat, .stop zeroId⟩) (Nat.ne_of_gt hseq) hgoes
    have hforeign : Foreign (seen g now) ⟨w.ctx.requestSeq.toNat, .stop zeroId⟩ := by
      refine .inr fun hzero => zeroId_ne w.ctx.streamId ?_
      rw [hbelongs.2.2]
      exact hzero.symm
    rw [heq, foreign_refused hforeign] at hgoes
    have hstopped : ((seen g now).stopLocked .protocol).stopped = true := stopLocked_stopped _ _
    change ((seen g now).stopLocked .protocol).stopped = false at hgoes
    rw [hstopped] at hgoes
    cases hgoes

end Hearing

section Agreement

def Agree (ctx : Adapter) (c : Children) : Prop :=
  ∀ n child, ctx.stdinWrite = some n → c n = some child → child.gate.stopped = false →
    Chain child.gate.lease.deadlineTickMs child.gate.lastCommandSeq child.pipe ctx.currentDeadlineTickMs.toNat ctx.requestSeq.toNat

variable {ctx ctx' : Adapter} {c c' : Children} {n : Nat} {child : Child}

theorem Agree.of_closed (h : ctx.stdinWrite = none) : Agree ctx c := by
  intro n child hstdin
  rw [h] at hstdin
  cases hstdin

theorem Agree.put_child (h : Agree ctx c) {o : Option Child}
    (hchild : ∀ child', o = some child' → ctx.stdinWrite = some n → child'.gate.stopped = false →
      Chain child'.gate.lease.deadlineTickMs child'.gate.lastCommandSeq child'.pipe ctx'.currentDeadlineTickMs.toNat
        ctx'.requestSeq.toNat)
    (hstdin : ctx'.stdinWrite = ctx.stdinWrite)
    (hsame : ctx.stdinWrite ≠ some n → ctx'.currentDeadlineTickMs = ctx.currentDeadlineTickMs ∧ ctx'.requestSeq = ctx.requestSeq) :
    Agree ctx' (put c n o) := by
  intro m child' hm hput hgoes
  rw [hstdin] at hm
  by_cases hmn : m = n
  · rw [hmn, put_self] at hput
    exact hchild child' hput (hmn ▸ hm) hgoes
  · rw [put_ne c o hmn] at hput
    obtain ⟨hdeadline, hseq⟩ := hsame fun hn => hmn (Option.some.inj (hm.symm.trans hn))
    rw [hdeadline, hseq]
    exact h m child' hm hput hgoes

theorem deliver_agree {now : Nat} (hinv : Inv ctx c) (h : Agree ctx c) (hdeliver : deliver c n now = some c') : Agree ctx c' := by
  obtain ⟨g, w, rest, hn, hrunning, rfl⟩ := deliver_cases hdeliver
  refine h.put_child ?_ rfl fun _ => ⟨rfl, rfl⟩
  rintro _ ⟨⟩ hstdin hgoes
  obtain ⟨hsound, htalks⟩ := hinv.heard n _ hn hrunning
  obtain ⟨hon, -⟩ := hinv.own n _ hstdin hn hrunning
  obtain ⟨hseq, hchain⟩ := h n _ hstdin hn hrunning
  have hbelongs : Belongs g w := by
    cases htalks with
    | first w hidle => rw [hidle] at hon; cases hon
    | stream pipe hstarted hall => exact hall w List.mem_cons_self
  have hpos : 0 < w.ctx.requestSeq.toNat := Nat.lt_of_le_of_lt (Nat.zero_le _) hseq
  cases hcall : w.call with
  | start => exact absurd hcall hbelongs.1.1
  | restart => exact absurd hcall hbelongs.1.2
  | renewLease =>
      rw [if_pos hcall] at hchain
      simp only [hear_renew hrunning hsound hon hcall hbelongs hseq hchain.1 hgoes]
      exact hchain.2
  | forceIdr =>
      rw [if_neg (by simp [hcall])] at hchain
      simp only [hear_idr hrunning hsound hon hcall hbelongs hseq hgoes]
      exact hchain
  | stop =>
      have hstopped : (hear g w.frame now).stopped = true := hear_stop hrunning hsound hon (.inl hcall) hbelongs hpos
      simp only at hgoes
      rw [hstopped] at hgoes
      cases hgoes
  | destroy =>
      have hstopped : (hear g w.frame now).stopped = true := hear_stop hrunning hsound hon (.inr hcall) hbelongs hpos
      simp only at hgoes
      rw [hstopped] at hgoes
      cases hgoes

theorem acts_agree {e : SafetyGate.Event} (he : ∀ m now, e ≠ .command m now) (hinv : Inv ctx c) (h : Agree ctx c)
    (hacts : acts c n e = some c') : Agree ctx c' := by
  simp only [acts, Option.map_eq_some_iff] at hacts
  obtain ⟨child, hn, rfl⟩ := hacts
  refine h.put_child ?_ rfl fun _ => ⟨rfl, rfl⟩
  rintro _ ⟨⟩ hstdin hgoes
  have hrunning : child.gate.stopped = false := by
    by_contra hstopped
    simp only at hgoes
    rw [step_stopped (by simpa using hstopped)] at hgoes
    exact hstopped hgoes
  obtain ⟨hsound, -⟩ := hinv.heard n _ hn hrunning
  obtain ⟨hon, -⟩ := hinv.own n _ hstdin hn hrunning
  have hchain := h n _ hstdin hn hrunning
  have hmove := step_moves hrunning hsound e
  simp only at hgoes ⊢
  generalize SafetyGate.step child.gate e = g' at hmove hgoes
  cases hmove with
  | halted _ _ hstopped => rw [hstopped] at hgoes; cases hgoes
  | idle | seen | taken => exact hchain
  | opened m start now | renewed m leaseId deadline now | idr m streamId now => exact absurd rfl (he _ _)

theorem wrote_agree {w : Written} (h : Agree ctx c) (hstdin : ctx.stdinWrite = some n) (hsame : w.ctx.stdinWrite = ctx.stdinWrite)
    (hseq : ctx.requestSeq.toNat < w.ctx.requestSeq.toNat)
    (hgrows : w.call = .renewLease → ctx.currentDeadlineTickMs.toNat < w.ctx.currentDeadlineTickMs.toNat)
    (hkept : w.call ≠ .renewLease → ctx.currentDeadlineTickMs.toNat = w.ctx.currentDeadlineTickMs.toNat)
    (happly : apply c (.wrote n w) = some c') : Agree w.ctx c' := by
  cases hn : c n with
  | none =>
      simp only [apply, hn] at happly
      obtain rfl := Option.some.inj happly
      intro m child hm hchild
      rw [hsame, hstdin] at hm
      rw [← Option.some.inj hm, hn] at hchild
      cases hchild
  | some child =>
      simp only [apply, hn] at happly
      obtain rfl := Option.some.inj happly
      refine h.put_child ?_ hsame fun hne => absurd hstdin hne
      rintro _ ⟨⟩ _ hgoes
      exact (h n child hstdin hn hgoes).concat hseq hgrows hkept

theorem next_seq (hwrap : ctx.requestSeq.toNat + 1 < 2 ^ 64) : ctx.requestSeq.toNat < (ctx.requestSeq + 1).toNat := by
  rw [UInt64.toNat_add]
  have hone : (1 : UInt64).toNat = 1 := rfl
  omega

theorem Agree.numbered (h : Agree ctx c) (hwrap : ctx.requestSeq.toNat + 1 < 2 ^ 64) :
    Agree { ctx with requestSeq := ctx.requestSeq + 1 } c :=
  fun m child hm hchild hgoes => (h m child hm hchild hgoes).later (next_seq hwrap).le

variable {os : Os}

theorem idr_agree (h : Agree ctx c) (hwrap : ctx.requestSeq.toNat + 1 < 2 ^ 64)
    (hfold : (ctx.forceIdr os).2.2.foldlM apply c = some c') : Agree (ctx.forceIdr os).2.1 c' := by
  unfold Adapter.forceIdr at hfold ⊢
  split_ifs at hfold ⊢ with hrunning hclosed
  · rw [fold_nil hfold]
    exact h
  · rw [fold_nil hfold]
    exact h
  · rcases send_cases ctx .forceIdr none (os.writes 0) with hsend | ⟨n, w, hstdin, hcall, hctx, -, -, hsend⟩
    · rw [hsend] at hfold ⊢
      rw [fold_nil hfold]
      exact h.numbered hwrap
    · rw [hsend] at hfold ⊢
      simp only at hfold ⊢
      rw [← hctx]
      refine wrote_agree h hstdin (by rw [hctx]) ?_ ?_ ?_ (foldlM_one hfold)
      · rw [hctx]
        exact next_seq hwrap
      · intro hrenew
        rw [hcall] at hrenew
        cases hrenew
      · intro _
        rw [hctx]

theorem send_written (hstdin : ctx.stdinWrite = some n) (call : Call) (profile : Option CString) :
    ∃ w : Written, w.call = call ∧ w.ctx = { ctx with requestSeq := ctx.requestSeq + 1 } ∧
      ctx.send call profile true = (true, { ctx with requestSeq := ctx.requestSeq + 1 }, [.wrote n w]) := by
  have hlength : ∀ ctx : Adapter, ¬ IpcProtocol.ipcMaxPayload < (ctx.payload profile call).length := by
    intro ctx
    have hsmall : (ctx.payload profile call).length ≤ 72 := by
      cases call <;> simp [Adapter.payload, rectBytes]
    exact Nat.not_lt.mpr (hsmall.trans (by decide))
  have hsent : ∃ frame, ipcSend call.type (Adapter.payload { ctx with requestSeq := ctx.requestSeq + 1 } profile call)
      (ctx.requestSeq + 1) = some frame := ⟨_, if_neg (hlength _)⟩
  obtain ⟨frame, hsent⟩ := hsent
  simp only [Adapter.send]
  split
  · next m frame' hstdin' hsent' =>
      obtain rfl : n = m := Option.some.inj (hstdin.symm.trans hstdin')
      exact ⟨_, rfl, rfl, rfl⟩
  · next hnone => exact absurd hsent (hnone n frame hstdin)

def Grows (ctx : Adapter) (leaseId : Option CString) (deadline : UInt64) : Prop :=
  ctx.state = .running → ¬ (leaseId.isSome ∧ ctx.leaseId.val ≠ [] ∧ leaseId ≠ some ctx.leaseId) →
    ctx.currentDeadlineTickMs.toNat ≤ deadline.toNat

theorem renew_agree {leaseId : Option CString} {deadline : UInt64} (h : Agree ctx c) (hgrows : Grows ctx leaseId deadline)
    (hwrites : os.writes 0 = true) (hwrap : ctx.requestSeq.toNat + 1 < 2 ^ 64)
    (hfold : (ctx.renewLease leaseId deadline os).2.2.foldlM apply c = some c') : Agree (ctx.renewLease leaseId deadline os).2.1 c' := by
  unfold Adapter.renewLease at hfold ⊢
  split_ifs at hfold ⊢ with hrunning hlease hsame hopen
  · rw [fold_nil hfold]
    exact h
  · rw [fold_nil hfold]
    exact h
  · rw [fold_nil hfold]
    exact h
  · obtain ⟨n, hstdin⟩ := Option.isSome_iff_exists.mp hopen
    have hstdin' : Adapter.stdinWrite { ctx with currentDeadlineTickMs := deadline } = some n := hstdin
    obtain ⟨w, hcall, hctx, hsend⟩ := send_written hstdin' .renewLease none
    rw [hwrites, hsend] at hfold ⊢
    simp only at hfold hctx ⊢
    rw [← hctx]
    refine wrote_agree h hstdin (by rw [hctx]) ?_ ?_ ?_ (foldlM_one hfold)
    · rw [hctx]
      exact next_seq hwrap
    · intro _
      rw [hctx]
      have hle := hgrows (not_not.mp hrunning) hlease
      exact Nat.lt_of_le_of_ne hle fun heq => hsame (UInt64.toNat_inj.mp heq).symm
    · exact fun hother => absurd hcall hother
  · rw [fold_nil hfold]
    exact Agree.of_closed (by simpa using hopen)

theorem open_agree {call : Call} {profile : Option CString} {write exit : Nat} (hfresh : Fresh c ctx n)
    (hopens : Opens ctx call) (hfold : (ctx.open call profile write exit os).2.2.foldlM apply c = some c') (hheard : AllHeard c) :
    Agree (ctx.open call profile write exit os).2.1 c' := by
  rcases open_cases ctx call profile write exit os with
    ⟨m, tick, w, hstdin, -, hcall, hctx, -, hopen⟩ | ⟨sent, hopen, -⟩
  · obtain rfl : n = m := Option.some.inj (hfresh.1.symm.trans hstdin)
    have hfirst := first_of_opens hopens hcall hctx
    rw [hopen] at hfold ⊢
    obtain ⟨c₁, hwrote, hready⟩ := @fold_append c c' [.wrote n w] [.ready n tick] hfold
    obtain ⟨rfl, -⟩ := wrote_fresh hfresh hfirst hheard (foldlM_one hwrote)
    obtain ⟨rfl, hstarted⟩ := ready_eq (put_self c n _) (foldlM_one hready)
    intro m child hm hchild hgoes
    obtain rfl : n = m := Option.some.inj (hstdin.symm.trans hm)
    rw [put_self] at hchild
    obtain rfl := Option.some.inj hchild
    rcases (first_opens sound_init rfl rfl hfirst hgoes).2 with hstill | hopened
    · rw [hstarted] at hstill
      cases hstill
    · have hseq : w.ctx.requestSeq = 1 := by rw [hctx]
      have hdeadline : w.ctx.currentDeadlineTickMs = ctx.currentDeadlineTickMs := by rw [hctx]
      simp only [hopened, opened]
      refine ⟨?_, ?_⟩
      · simp only [toStart, startOf, hdeadline]
      · simp only [own_seq, hseq, le_refl]
  · rw [hopen]
    exact Agree.of_closed (failed_cases { ctx with requestSeq := 1 } (os.exits exit)).1

theorem launch_agree {call : Call} {profile : Option CString} {write exit : Nat} (hclosed : ctx.stdinWrite = none)
    (hopens : Opens ctx call) (hheard : AllHeard c)
    (hfold : (ctx.launchAndOpen call profile write exit os).2.2.foldlM apply c = some c') :
    Agree (ctx.launchAndOpen call profile write exit os).2.1 c' := by
  cases hlaunched : os.launched with
  | none =>
      simp only [Adapter.launchAndOpen, hlaunched, Adapter.launchProcess] at hfold ⊢
      exact Agree.of_closed hclosed
  | some n =>
      simp only [Adapter.launchAndOpen, hlaunched, Adapter.launchProcess, after] at hfold ⊢
      obtain ⟨c₁, hlaunch, hopen⟩ := fold_append hfold
      obtain ⟨hheard₁, hchild⟩ := launched_keeps hheard (foldlM_one hlaunch)
      have hopens' : Opens { ctx with process := some n, stdinWrite := some n } call := hopens
      have hfresh : Fresh c₁ { ctx with process := some n, stdinWrite := some n } n := ⟨rfl, hchild⟩
      exact open_agree hfresh hopens' hopen hheard₁

theorem begin_agree {params : StreamParams} {o : Outcome} (hbegin : ctx.begin params os = some o)
    (hclosed : ctx.stdinWrite = none) (hheard : AllHeard c) (hfold : o.2.2.foldlM apply c = some c') : Agree o.2.1 c' := by
  simp only [Adapter.begin, Option.bind_eq_bind, Option.bind_eq_some_iff, Option.some.injEq] at hbegin
  obtain ⟨leaseId, -, streamId, -, rfl⟩ := hbegin
  have hopens : Opens (ctx.accept params leaseId streamId) .start := .inl ⟨rfl, rfl⟩
  exact launch_agree hclosed hopens hheard hfold

theorem start_agree {params : StreamParams} {o : Outcome} (hinv : Inv ctx c) (h : Agree ctx c)
    (hstart : ctx.start params os = some o) (hfold : o.2.2.foldlM apply c = some c') : Agree o.2.1 c' := by
  unfold Adapter.start at hstart
  split_ifs at hstart with hon hsame
  · obtain rfl := Option.some.inj hstart
    rw [fold_nil hfold]
    exact h
  · simp only [Option.map_eq_some_iff] at hstart
    obtain ⟨o, hbegin, rfl⟩ := hstart
    obtain ⟨c₁, hstop, hrest⟩ := fold_append hfold
    obtain ⟨hheard, hclosed⟩ := stop_keeps hinv hstop
    have hagree := begin_agree hbegin hclosed hheard hrest
    exact hagree
  · exact begin_agree hstart (hinv.closed fun hrunning => hon (.inl hrunning)) hinv.heard hfold

def RestartDue (ctx : Adapter) (os : Os) : Prop :=
  ctx.state = .restarting ∧ ctx.restartPending = true ∧
    ¬ (0 < ctx.currentDeadlineTickMs ∧ ctx.currentDeadlineTickMs ≤ os.tick 4) ∧ ctx.nextRestartTick ≤ os.tick 5

theorem executeRestart_agree (hinv : Inv ctx c) (h : Agree ctx c) (hdue : ¬ RestartDue ctx os)
    (hfold : (ctx.executeRestart os).2.foldlM apply c = some c') : Agree (ctx.executeRestart os).1 c' := by
  unfold Adapter.executeRestart at hfold ⊢
  split_ifs at hfold ⊢ with hpending hexpired htick
  · rw [fold_nil hfold]
    exact Agree.of_closed (hinv.closed (by simp [hpending.1]))
  · exact absurd ⟨hpending.1, hpending.2, hexpired, htick⟩ hdue
  · rw [fold_nil hfold]
    exact h
  · rw [fold_nil hfold]
    exact h

theorem checkExit_agree (h : Agree ctx c) (hfold : (ctx.checkExit os).2.foldlM apply c = some c') :
    Agree (ctx.checkExit os).1 c' := by
  unfold Adapter.checkExit at hfold ⊢
  split at hfold
  · rw [fold_nil hfold]
    exact h
  · split_ifs at hfold ⊢ with hdied hrestart
    · exact Agree.of_closed rfl
    · exact Agree.of_closed rfl
    · rw [fold_nil hfold]
      exact h

theorem poll_agree (hinv : Inv ctx c) (h : Agree ctx c) (hdue : ¬ RestartDue (ctx.checkExit os).1 os)
    (hfold : (ctx.poll os).2.foldlM apply c = some c') : Agree (ctx.poll os).1 c' := by
  unfold Adapter.poll at hfold ⊢
  split_ifs at hfold ⊢ with hidle hexpired
  · rw [fold_nil hfold]
    exact h
  · exact Agree.of_closed (stop_keeps hinv hfold).2
  · obtain ⟨c₁, hexit, hrestart⟩ := fold_append hfold
    exact executeRestart_agree (checkExit_keeps hinv hexit) (checkExit_agree h hexit) hdue hrestart

end Agreement

section Steps

/-- Renewals only move the deadline forward and reach the child, no restart is due, and the numbers do not wrap. -/
def Forward (s : Link) : CaptureLink.Event → Prop
  | .renewLease leaseId deadline os =>
      Grows s.ctx leaseId deadline ∧ os.writes 0 = true ∧ s.ctx.requestSeq.toNat + 1 < 2 ^ 64
  | .forceIdr _ => s.ctx.requestSeq.toNat + 1 < 2 ^ 64
  | .poll os => ¬ RestartDue (s.ctx.checkExit os).1 os
  | _ => True

/-- Both sides have the same deadline as soon as the child has read everything, and a restart hands on the deadline
    of the adapter. -/
structure Agreed (s : Link) : Prop where
  deadline : ∀ n gate, s.ctx.stdinWrite = some n → s.children n = some ⟨gate, []⟩ → gate.stopped = false →
    gate.lease.deadlineTickMs = s.ctx.currentDeadlineTickMs.toNat
  restart : ∀ e, Forward s e → ∀ w ∈ wrote s e, w.call = .restart →
    ∃ seq start, IpcProtocol.ipcDecode w.frame = .ok ⟨seq, .start start⟩ ∧ start.deadlineTickMs = s.ctx.currentDeadlineTickMs

variable {e : CaptureLink.Event}

theorem call_agree {s : Link} {ctx : Adapter} {effects : List Effect} {c : Children}
    (hinv : Inv s.ctx s.children) (h : Agree s.ctx s.children) (hforward : Forward s e) (hcall : call s.ctx e = some (ctx, effects))
    (hfold : effects.foldlM apply s.children = some c) : Agree ctx c := by
  cases e with
  | start =>
      simp only [call, Option.map_eq_some_iff] at hcall
      obtain ⟨o, hstart, ho⟩ := hcall
      obtain ⟨rfl, rfl⟩ := Prod.mk.inj ho
      exact start_agree hinv h hstart hfold
  | renewLease =>
      obtain ⟨rfl, rfl⟩ := Prod.mk.inj (Option.some.inj hcall)
      exact renew_agree h hforward.1 hforward.2.1 hforward.2.2 hfold
  | forceIdr os =>
      obtain ⟨rfl, rfl⟩ := Prod.mk.inj (Option.some.inj hcall)
      exact idr_agree h hforward hfold
  | stop os =>
      obtain ⟨rfl, rfl⟩ := Prod.mk.inj (Option.some.inj hcall)
      exact Agree.of_closed (stop_keeps hinv hfold).2
  | poll os =>
      obtain ⟨rfl, rfl⟩ := Prod.mk.inj (Option.some.inj hcall)
      exact poll_agree hinv h hforward hfold
  | destroy os =>
      obtain ⟨rfl, rfl⟩ := Prod.mk.inj (Option.some.inj hcall)
      exact Agree.of_closed rfl
  | _ =>
      obtain ⟨rfl, rfl⟩ := Prod.mk.inj (Option.some.inj hcall)
      rw [fold_nil hfold]
      exact h

theorem step_agree {s : Link} (hinv : Inv s.ctx s.children) (h : Agree s.ctx s.children)
    (hforward : Forward s e) : Agree (CaptureLink.step s e).ctx (CaptureLink.step s e).children := by
  unfold CaptureLink.step
  cases hstep : s.step? e with
  | none => exact h
  | some s' =>
      refine step?_cases Agree (fun _ _ _ hcall hfold => call_agree hinv h hforward hcall hfold)
        (fun _ _ _ hdeliver => deliver_agree hinv h hdeliver) (fun _ _ _ he hacts => acts_agree he hinv h hacts) (fun n => ?_) hstep
      exact h.put_child (fun _ hnone => by cases hnone) rfl fun _ => ⟨rfl, rfl⟩

theorem run_agree (events : List CaptureLink.Event) (s : Link) (hinv : Inv s.ctx s.children) (h : Agree s.ctx s.children)
    (hforward : Along CaptureLink.step Forward s events) :
    Agree (run CaptureLink.step s events).ctx (run CaptureLink.step s events).children := by
  induction events generalizing s with
  | nil => exact h
  | cons e events ih => exact ih (CaptureLink.step s e) (step_inv s e hinv) (step_agree hinv h hforward.1) hforward.2

theorem poll_restart {ctx : Adapter} {os : Os} {w : Written} (hw : w ∈ written (ctx.poll os).2) (hcall : w.call = .restart) :
    RestartDue (ctx.checkExit os).1 os := by
  unfold Adapter.poll at hw
  split_ifs at hw with hidle hexpired
  · cases hw
  · have hstop := written_farewell (stop_farewell ctx os) w hw
    rw [hcall] at hstop
    cases hstop
  · have hexit : written (ctx.checkExit os).2 = [] := by
      unfold Adapter.checkExit
      split
      · rfl
      · split_ifs <;> rfl
    simp only [written_append, hexit, List.nil_append] at hw
    unfold Adapter.executeRestart at hw
    split_ifs at hw with hpending hlate hdue
    · cases hw
    · exact ⟨hpending.1, hpending.2, hlate, hdue⟩
    · cases hw
    · cases hw

theorem no_restart {s : Link} (hforward : Forward s e) : ∀ w ∈ wrote s e, w.call ≠ .restart := by
  intro w hw hcall
  have hother : ∀ call, call ≠ Call.restart → w.call ≠ call := fun call hne h => hne (h.symm.trans hcall)
  cases e with
  | start params os =>
      unfold wrote at hw
      cases hstart : s.ctx.start params os with
      | none =>
          simp only [call, hstart] at hw
          cases hw
      | some o =>
          simp only [call, hstart] at hw
          rcases written_start hstart w hw with hstop | ⟨hstart, -⟩
          · exact hother .stop (by decide) hstop
          · exact hother .start (by decide) hstart
  | renewLease leaseId deadline os =>
      change w ∈ written (s.ctx.renewLease leaseId deadline os).2.2 at hw
      unfold Adapter.renewLease at hw
      split_ifs at hw
      · cases hw
      · cases hw
      · cases hw
      · exact hother .renewLease (by decide) (written_send _ _ _ _ w hw)
      · cases hw
  | forceIdr os =>
      change w ∈ written (s.ctx.forceIdr os).2.2 at hw
      unfold Adapter.forceIdr at hw
      split_ifs at hw
      · cases hw
      · cases hw
      · exact hother .forceIdr (by decide) (written_send _ _ _ _ w hw)
  | stop os => exact hother .stop (by decide) (written_farewell (stop_farewell s.ctx os) w hw)
  | poll os => exact hforward (poll_restart hw hcall)
  | destroy os => exact hother .destroy (by decide) (written_farewell (destroy_farewell s.ctx os) w hw)
  | _ => cases hw

end Steps

theorem lease_agreed (events : List CaptureLink.Event) (hforward : Along CaptureLink.step Forward Link.init events) :
    (∀ n, Agreed (run CaptureLink.step Link.init (events.take n))) ∧
      ∀ w : Written, w.call = .restart → IpcProtocol.ipcDecode w.frame = .error .protocol := by
  refine ⟨fun n => ?_, fun w hcall => decode_restart hcall⟩
  have hagree := run_agree (events.take n) Link.init inv_init (Agree.of_closed rfl) (hforward.take n)
  refine ⟨fun m gate hstdin hchild hgoes => ?_, fun e hnext w hw hcall => absurd hcall (no_restart hnext w hw)⟩
  exact (hagree m _ hstdin hchild hgoes).1

def renewal (deadline : UInt64) : List CaptureLink.Event :=
  [.start desktopStart (osAt 1 0), .renewLease none deadline (osAt 2 0), .deliver 0 3]

theorem lease_agreed_renewal : ∃ gate, (run CaptureLink.step Link.init (renewal 200000)).children 0 = some ⟨gate, []⟩ ∧
    gate.stopped = false ∧ gate.lease.deadlineTickMs = 200000 := by
  have hforward : Along CaptureLink.step Forward Link.init (renewal 200000) :=
    ⟨trivial, ⟨fun _ _ => by decide +kernel, rfl, by decide +kernel⟩, trivial, trivial⟩
  have hagreed := (lease_agreed (renewal 200000) hforward).1 3
  have hread : ((run CaptureLink.step Link.init (renewal 200000)).children 0).map (fun child => (child.pipe.length, child.gate.stopped)) =
      some (0, false) := by decide +kernel
  obtain ⟨⟨gate, pipe⟩, hchild, hstate⟩ := Option.map_eq_some_iff.mp hread
  obtain ⟨hpipe, hgoes⟩ := Prod.mk.inj hstate
  obtain rfl := List.length_eq_zero_iff.mp hpipe
  refine ⟨gate, hchild, hgoes, ?_⟩
  rw [hagreed.deadline 0 gate (by decide +kernel) hchild hgoes]
  decide +kernel

theorem shorter_lease_ignored : ¬ ∀ events n gate, (run CaptureLink.step Link.init events).ctx.stdinWrite = some n →
    (run CaptureLink.step Link.init events).children n = some ⟨gate, []⟩ → gate.stopped = false →
    gate.lease.deadlineTickMs = (run CaptureLink.step Link.init events).ctx.currentDeadlineTickMs.toNat := by
  intro h
  have hread : ((run CaptureLink.step Link.init (renewal 50000)).children 0).map
      (fun child => (child.pipe.length, child.gate.stopped, child.gate.lease.deadlineTickMs)) = some (0, false, 100000) := by
    decide +kernel
  obtain ⟨⟨gate, pipe⟩, hchild, hstate⟩ := Option.map_eq_some_iff.mp hread
  obtain ⟨hpipe, hrest⟩ := Prod.mk.inj hstate
  obtain ⟨hgoes, hdeadline⟩ := Prod.mk.inj hrest
  obtain rfl := List.length_eq_zero_iff.mp hpipe
  have hequal := h (renewal 50000) 0 gate (by decide +kernel) hchild hgoes
  have hcurrent : (run CaptureLink.step Link.init (renewal 50000)).ctx.currentDeadlineTickMs.toNat = 50000 := by decide +kernel
  rw [hcurrent] at hequal
  simp only at hdeadline
  omega

end EtranProcessing.Desk.LeaseAgreement
