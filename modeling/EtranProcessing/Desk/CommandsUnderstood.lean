import EtranProcessing.Desk.LinkInvariant

namespace EtranProcessing.Desk.CommandsUnderstood

open Capture Limits SafetyGate GateMoves CaptureAdapter CaptureLink CommandFrames LinkInvariant Library.Runs

section Statuses

variable {g : Gate} {m : Message} {now : Nat} (hrunning : g.stopped = false) (hsound : Sound g)
include hrunning

theorem command_zero (h : m.requestSeq = 0) (hpast : (g.checkLocked now).1 = .ok) :
    (g.command (some m) now).1 = .protocol := by
  unfold Gate.command
  dsimp only
  rw [if_neg (by simp [hrunning]), if_neg (by simp [hpast]), if_pos h]
  rfl

theorem command_idle_status (hidle : g.started = false) (h : m.requestSeq ≠ 0) :
    (g.command (some m) now).1 = (g.apply m now).1 := by
  unfold Gate.command
  rw [checkLocked_idle hrunning hidle]
  dsimp only
  rw [if_neg (by simp [hrunning]), if_neg (by simp), if_neg h, if_neg (c := g.started = true ∧ _) (by simp [hidle])]
  rfl

include hsound

theorem command_live_status (hlive : Live g now) (h : m.requestSeq ≠ 0) :
    (g.command (some m) now).1 = ((seen g now).apply m (seen g now).lease.lastTickMs).1 := by
  have hclock : (if (seen g now).started ∧ now < (seen g now).lease.lastTickMs then (seen g now).lease.lastTickMs else now) =
      (seen g now).lease.lastTickMs := by
    have hlast : (seen g now).lease.lastTickMs = max now g.lease.lastTickMs := rfl
    have hstarted : (seen g now).started = true := hlive.1
    simp only [hstarted, true_and]
    split <;> omega
  unfold Gate.command
  rw [checkLocked_live hrunning hsound hlive]
  dsimp only
  rw [if_neg (by simp [hrunning]), if_neg (by simp), if_neg h, hclock]
  rfl

omit hrunning in
theorem start_accepted {start : Start} (hbody : m.body = .start start) (hidle : g.started = false) (h : m.requestSeq ≠ 0)
    (hrefused : start.refused = false) {layout : RasterLayout} (hlayout : rectLayout start.sourceRect = .ok layout)
    (hnow : now < start.deadlineTickMs) : (g.apply m now).1 = .ok := by
  unfold Gate.apply
  rw [hbody]
  dsimp only
  rw [if_neg (by simp [hidle, hrefused]), hlayout, deadline_started hsound hidle h hnow]
  rfl

end Statuses

section Acceptance

variable {g : Gate} {w : Written} {rest : List Written} {now : Nat}

def Accepts (g : Gate) (w : Written) (now : Nat) : Prop :=
  IpcProtocol.ipcDecode w.frame = .ok (own w) ∧ (g.command (some (toMessage (own w))) now).1 = .ok

def InTime (g : Gate) (w : Written) (now : Nat) : Prop :=
  if g.started then Live g now
  else
    (∃ layout, rectLayout (toRect w.ctx.savedParams.sourceRect) = .ok layout) ∧ w.ctx.savedParams.rtpPort = 5004 ∧
      w.ctx.savedParams.rtcpPort = 5005 ∧ now < w.ctx.currentDeadlineTickMs.toNat

theorem profileToId_bounds (profile : Option CString) : 1 ≤ (profileToId profile).toNat ∧ (profileToId profile).toNat ≤ 3 := by
  unfold profileToId
  split
  · decide
  · split_ifs <;> decide

theorem startOf_refused (ctx : Adapter) (profile : Option CString) (hrtp : ctx.savedParams.rtpPort = 5004)
    (hrtcp : ctx.savedParams.rtcpPort = 5005) : (toStart (startOf ctx profile)).refused = false := by
  obtain ⟨hlow, hhigh⟩ := profileToId_bounds profile
  simp [Start.refused, toStart, startOf, nonzeroId_strToId16, hrtp, hrtcp]
  omega

theorem own_seq (w : Written) : (toMessage (own w)).requestSeq = w.ctx.requestSeq.toNat := rfl

theorem own_seq_ne (h : w.ctx.requestSeq ≠ 0) : (toMessage (own w)).requestSeq ≠ 0 := fun hzero =>
  h (UInt64.toNat_inj.mp (hzero.trans UInt64.toNat_zero.symm))

theorem first_accepted (hsound : Sound g) (hrunning : g.stopped = false) (hidle : g.started = false) (hfirst : First w)
    (htime : InTime g w now) (hstart : w.call = .start) : Accepts g w now := by
  rcases hfirst with ⟨-, hseq, hcurrent⟩ | hrestart
  · have hne : w.ctx.requestSeq ≠ 0 := by rw [hseq]; decide
    refine ⟨decode_own hcurrent (by simp [hstart]) (by simp [hstart]), ?_⟩
    unfold InTime at htime
    rw [hidle, if_neg Bool.false_ne_true] at htime
    obtain ⟨⟨layout, hlayout⟩, hrtp, hrtcp, hnow⟩ := htime
    have hbody : (toMessage (own w)).body = .start (toStart (startOf w.ctx w.profile)) := by
      simp [toMessage, own, command, hstart, toBody]
    rw [command_idle_status hrunning hidle (own_seq_ne hne)]
    exact start_accepted hsound hbody hidle (own_seq_ne hne) (startOf_refused _ _ hrtp hrtcp) hlayout hnow
  · rw [hrestart] at hstart
    cases hstart

theorem stream_accepted (hsound : Sound g) (hrunning : g.stopped = false) (hlive : Live g now) (hbelongs : Belongs g w)
    (hdestroy : w.call ≠ .destroy) (hseq : w.ctx.requestSeq ≠ 0) : Accepts g w now := by
  refine ⟨decode_own hbelongs.current hbelongs.1.2 hdestroy, ?_⟩
  rw [command_live_status hrunning hsound hlive (own_seq_ne hseq)]
  have hstarted : (seen g now).started = true := hlive.1
  obtain ⟨⟨hstart, hrestart⟩, hlease, hstream⟩ := hbelongs
  cases hcall : w.call with
  | start => exact absurd hcall hstart
  | restart => exact absurd hcall hrestart
  | destroy => exact absurd hcall hdestroy
  | renewLease =>
      have hbody : (toMessage (own w)).body = .renewLease (strToId16 w.ctx.leaseId) w.ctx.currentDeadlineTickMs.toNat := by
        simp [toMessage, own, command, hcall, toBody]
      rw [renew_applied (hsound.seen hlive) hbody hstarted hlease]
      split
      · rfl
      · rfl
  | forceIdr =>
      have hbody : (toMessage (own w)).body = .forceIdr (strToId16 w.ctx.streamId) := by
        simp [toMessage, own, command, hcall, toBody]
      rw [idr_applied hbody hstarted hstream]
      split
      · rfl
      · rfl
  | stop =>
      have hbody : (toMessage (own w)).body = .stop (strToId16 w.ctx.streamId) := by
        simp [toMessage, own, command, hcall, toBody]
      rw [stop_applied hbody hstarted hstream]

theorem zero_refused (hsound : Sound g) (hrunning : g.stopped = false) (htime : g.started = true → Live g now)
    (hseq : w.ctx.requestSeq = 0) : (g.command (some (toMessage (own w))) now).1 = .protocol := by
  refine command_zero hrunning (by rw [own_seq, hseq]; rfl) ?_
  cases hstarted : g.started with
  | false => rw [checkLocked_idle hrunning hstarted]
  | true => rw [checkLocked_live hrunning hsound (htime hstarted)]

theorem head_accepted_iff (hheard : Heard ⟨g, w :: rest⟩) (hrunning : g.stopped = false) (htime : InTime g w now) :
    Accepts g w now ↔ w.call ≠ .restart ∧ w.call ≠ .destroy ∧ w.ctx.requestSeq ≠ 0 := by
  obtain ⟨hsound, htalks⟩ := hheard hrunning
  have hlive : g.started = true → Live g now := fun hon => by simpa [InTime, hon] using htime
  have hcurrent : Current w := by
    cases htalks with
    | first w hidle hfirst =>
        rcases hfirst with ⟨-, -, hcurrent⟩ | hrestart
        · exact hcurrent
        · exact fun hstart => by rw [hrestart] at hstart; cases hstart
    | stream pipe hon hall => exact (hall w List.mem_cons_self).current
  constructor
  · rintro ⟨hdecode, hstatus⟩
    obtain ⟨hrestart, hdestroy⟩ := (decode_iff hcurrent).mp hdecode
    refine ⟨hrestart, hdestroy, fun hseq => ?_⟩
    rw [zero_refused hsound hrunning hlive hseq] at hstatus
    cases hstatus
  · rintro ⟨hrestart, hdestroy, hseq⟩
    cases htalks with
    | first w hidle hfirst =>
        have hstart : w.call = .start := hfirst.elim (fun h => h.1) fun h => absurd h hrestart
        exact first_accepted hsound hrunning hidle hfirst htime hstart
    | stream pipe hon hall => exact stream_accepted hsound hrunning (hlive hon) (hall w List.mem_cons_self) hdestroy hseq

end Acceptance

section Calls

variable {ctx : Adapter} {w : Written}

def written (effects : List Effect) : List Written :=
  effects.filterMap fun
    | .wrote _ w => some w
    | _ => none

def wrote (s : Link) (e : CaptureLink.Event) : List Written := (call s.ctx e).elim [] fun result => written result.2

@[simp] theorem written_append (first second : List Effect) : written (first ++ second) = written first ++ written second :=
  List.filterMap_append ..

@[simp] theorem written_nil : written [] = [] := rfl

@[simp] theorem written_launched (n : Nat) (effects : List Effect) : written (.launched n :: effects) = written effects := rfl

@[simp] theorem written_ended (n : Nat) (effects : List Effect) : written (.ended n :: effects) = written effects := rfl

theorem written_cleanup (ctx : Adapter) (exited : Bool) : written (ctx.cleanupProcess exited).2.2 = [] := by
  rcases ended_cases ctx exited with hnone | ⟨n, -, hended⟩
  · rw [hnone, written_nil]
  · rw [hended, written_ended, written_nil]

theorem current_of_call {call : Call} (hcall : call ≠ .start) (h : w.call = call) : Current w :=
  fun hstart => absurd (h.symm.trans hstart) hcall

theorem written_farewell {call : Call} {effects : List Effect} (h : Farewell ctx call effects) :
    ∀ w ∈ written effects, w.call = call := by
  obtain ⟨sent, ended, rfl, hsent, hended⟩ := h
  have hnone : written ended = [] := by
    rcases hended with rfl | ⟨n, -, rfl⟩
    · rfl
    · rfl
  rw [written_append, hnone, List.append_nil]
  rcases hsent with rfl | ⟨n, w, -, hcall, -, -, rfl⟩
  · intro w hw
    cases hw
  · intro v hv
    rw [List.mem_singleton.mp hv, hcall]

theorem written_send (ctx : Adapter) (call : Call) (profile : Option CString) (writes : Bool) :
    ∀ w ∈ written (ctx.send call profile writes).2.2, w.call = call := by
  rcases send_cases ctx call profile writes with hsend | ⟨n, w, -, hcall, -, -, -, hsend⟩
  · rw [hsend]
    intro w hw
    cases hw
  · rw [hsend]
    intro v hv
    rw [List.mem_singleton.mp hv, hcall]

theorem written_open (ctx : Adapter) (call : Call) (profile : Option CString) (write exit : Nat) (os : Os) :
    ∀ w ∈ written (ctx.open call profile write exit os).2.2, w.call = call ∧ w.ctx = { ctx with requestSeq := 1 } := by
  rcases open_cases ctx call profile write exit os with ⟨n, tick, w, -, -, hcall, hctx, -, hopen⟩ | ⟨sent, hopen, hsent⟩
  · rw [hopen]
    intro v hv
    rw [List.mem_singleton.mp hv]
    exact ⟨hcall, hctx⟩
  · rw [hopen]
    intro v hv
    have hfailed := (failed_cases { ctx with requestSeq := 1 } (os.exits exit)).2.2
    simp only [after, written_append, hfailed, written_cleanup, List.append_nil] at hv
    rcases hsent with rfl | ⟨n, w, -, hcall, hctx, rfl⟩
    · cases hv
    · rw [List.mem_singleton.mp hv]
      exact ⟨hcall, hctx⟩

theorem written_launch (ctx : Adapter) (call : Call) (profile : Option CString) (write exit : Nat) (os : Os) :
    ∀ w ∈ written (ctx.launchAndOpen call profile write exit os).2.2, w.call = call ∧ w.ctx.savedParams = ctx.savedParams ∧
      w.ctx.currentDeadlineTickMs = ctx.currentDeadlineTickMs := by
  intro w hw
  cases hlaunched : os.launched with
  | none =>
      simp only [Adapter.launchAndOpen, hlaunched, Adapter.launchProcess] at hw
      cases hw
  | some n =>
      simp only [Adapter.launchAndOpen, hlaunched, Adapter.launchProcess, after, written_append, written_launched, written_nil,
        List.nil_append] at hw
      obtain ⟨hcall, hctx⟩ := written_open _ call profile write exit os w hw
      rw [hctx]
      exact ⟨hcall, rfl, rfl⟩

theorem written_begin {params : StreamParams} {os : Os} {o : Outcome} (h : ctx.begin params os = some o) :
    ∀ w ∈ written o.2.2, w.call = .start ∧ w.ctx.savedParams.deadlineTickMs = w.ctx.currentDeadlineTickMs := by
  simp only [Adapter.begin, Option.bind_eq_bind, Option.bind_eq_some_iff, Option.some.injEq] at h
  obtain ⟨leaseId, -, streamId, -, rfl⟩ := h
  intro w hw
  obtain ⟨hcall, hsaved, hdeadline⟩ := written_launch _ .start params.profile 1 1 os w hw
  rw [hsaved, hdeadline]
  exact ⟨hcall, rfl⟩

theorem written_start {params : StreamParams} {os : Os} {o : Outcome} (h : ctx.start params os = some o) :
    ∀ w ∈ written o.2.2, w.call = .stop ∨
      w.call = .start ∧ w.ctx.savedParams.deadlineTickMs = w.ctx.currentDeadlineTickMs := by
  unfold Adapter.start at h
  split_ifs at h with hon hsame
  · obtain rfl := Option.some.inj h
    intro w hw
    cases hw
  · simp only [Option.map_eq_some_iff] at h
    obtain ⟨o, hbegin, rfl⟩ := h
    intro w hw
    simp only [after, written_append, List.mem_append] at hw
    rcases hw with hw | hw
    · exact .inl (written_farewell (stop_farewell ctx os) w hw)
    · exact .inr (written_begin hbegin w hw)
  · exact fun w hw => .inr (written_begin h w hw)

theorem written_poll (ctx : Adapter) (os : Os) : ∀ w ∈ written (ctx.poll os).2, Current w := by
  intro w hw
  unfold Adapter.poll at hw
  split_ifs at hw with hidle hexpired
  · cases hw
  · exact current_of_call (by decide) (written_farewell (stop_farewell ctx os) w hw)
  · have hexit : written (ctx.checkExit os).2 = [] := by
      unfold Adapter.checkExit
      split
      · rfl
      · split_ifs <;> rfl
    simp only [written_append, hexit, List.nil_append] at hw
    unfold Adapter.executeRestart at hw
    split_ifs at hw with hpending hlate hdue
    · cases hw
    · exact current_of_call (by decide) (written_launch _ .restart os.savedProfile 0 0 os w hw).1
    · cases hw
    · cases hw

theorem wrote_current (s : Link) (e : CaptureLink.Event) : ∀ w ∈ wrote s e, Current w := by
  intro w hw
  cases e with
  | start params os =>
      unfold wrote at hw
      cases hstart : s.ctx.start params os with
      | none =>
          simp only [call, hstart] at hw
          cases hw
      | some o =>
          simp only [call, hstart] at hw
          rcases written_start hstart w hw with hstop | ⟨-, hdeadline⟩
          · exact current_of_call (by decide) hstop
          · exact fun _ => hdeadline
  | renewLease leaseId deadline os =>
      change w ∈ written (s.ctx.renewLease leaseId deadline os).2.2 at hw
      unfold Adapter.renewLease at hw
      split_ifs at hw
      · cases hw
      · cases hw
      · cases hw
      · exact current_of_call (by decide) (written_send _ _ _ _ w hw)
      · cases hw
  | forceIdr os =>
      change w ∈ written (s.ctx.forceIdr os).2.2 at hw
      unfold Adapter.forceIdr at hw
      split_ifs at hw
      · cases hw
      · cases hw
      · exact current_of_call (by decide) (written_send _ _ _ _ w hw)
  | stop os => exact current_of_call (by decide) (written_farewell (stop_farewell s.ctx os) w hw)
  | poll os => exact written_poll s.ctx os w hw
  | destroy os => exact current_of_call (by decide) (written_farewell (destroy_farewell s.ctx os) w hw)
  | _ => cases hw

end Calls

theorem commands_understood (events : List CaptureLink.Event) :
    (∀ e, ∀ w ∈ wrote (run CaptureLink.step Link.init events) e,
      IpcProtocol.ipcDecode w.frame = .ok (own w) ↔ w.call ≠ .restart ∧ w.call ≠ .destroy) ∧
    (∀ n g w rest now, (run CaptureLink.step Link.init events).children n = some ⟨g, w :: rest⟩ → g.stopped = false → InTime g w now →
      (Accepts g w now ↔ w.call ≠ .restart ∧ w.call ≠ .destroy ∧ w.ctx.requestSeq ≠ 0)) ∧
    ∀ a b : CString, strToId16 a = strToId16 b ↔ squeezed a = squeezed b := by
  refine ⟨fun e w hw => decode_iff (wrote_current _ e w hw), fun n g w rest now hn hrunning htime => ?_, fun a b => strToId16_inj⟩
  exact head_accepted_iff ((run_inv events).heard n _ hn) hrunning htime

def desktopRect : IpcProtocol.Rect := ⟨0, 0, 1280, 720⟩

def desktopStart : StreamParams := ⟨some ⟨[0x6c], by decide⟩, some ⟨[0x73], by decide⟩, none, desktopRect, 0, 5004, 5005, 100000⟩

/-- A system in which everything works, at one tick. -/
def osAt (tick : UInt64) (launched : Nat) : Os where
  tick _ := tick
  random := 0
  launched := some launched
  writes _ := true
  exits _ := true
  died := false
  ready := some tick.toNat
  savedProfile := none

def crash : List CaptureLink.Event := [.start desktopStart (osAt 1 0), .exit 0, .poll { osAt 2 0 with died := true }]

theorem restart_misread : ¬ ∀ events e, ∀ w ∈ wrote (run CaptureLink.step Link.init events) e,
    IpcProtocol.ipcDecode w.frame = .ok (own w) := by
  intro h
  have hcalls : (wrote (run CaptureLink.step Link.init crash) (.poll (osAt 5000 1))).map (·.call) = [.restart] := by
    decide +kernel
  obtain ⟨w, hw, hcall⟩ : ∃ w ∈ wrote (run CaptureLink.step Link.init crash) (.poll (osAt 5000 1)), w.call = .restart := by
    apply List.mem_map.mp
    rw [hcalls]
    exact List.mem_singleton_self _
  have hdecode := h crash (.poll (osAt 5000 1)) w hw
  rw [decode_restart hcall] at hdecode
  cases hdecode

end EtranProcessing.Desk.CommandsUnderstood
