import EtranProcessing.Desk.InputWorker
import EtranProcessing.Desk.OneMediaChild

namespace EtranProcessing.Desk.InputAuthority

open CaptureAdapter Inventory FfmpegSupervisor JsonMin ControlCommands InputWorker Library.Runs

/-- Who may control the desktop: the command fits the stream that runs, and its display allows input. -/
structure Authority (a : Agent) (d : Delivery) : Prop where
  running : a.sup.state = .running
  desktop : isDesktop a.sup.mode = true
  lease : a.sup.leaseId.val ≠ [] → d.leaseId.val = a.sup.leaseId.val
  stream : a.sup.streamInstanceId.val ≠ [] → d.streamInstanceId.val ≠ [] → d.streamInstanceId.val = a.sup.streamInstanceId.val
  policy : ∃ display, a.inv.findDisplay a.sup.sourceId = some display ∧ stricmp display.policy "input" = true

def policyOf (inv : SystemInventory) (sourceId : CString) : Option CString := (inv.findDisplay sourceId).map (·.policy)

structure StillChecked (a : Agent) (d : Delivery) : Prop where
  stream : getInfo a.sup = d.stream
  policy : policyOf a.inv d.stream.sourceId = policyOf d.inv d.stream.sourceId
  display : (policyOf d.inv d.stream.sourceId).isSome = true

def SoundAction (a : Agent) (d : Delivery) : Action → Prop
  | .start .. | .stop .. => True
  | .updateLease _ expiresAtMs => a.sup.leaseId.val = [] → expiresAtMs.toNat ≤ a.sup.leaseExpiresAtMs
  | .move | .click .. | .drag .. | .wheel .. | .key .. | .shortcut .. => StillChecked a d

def nextAction (a : Agent) : Event → Option (Delivery × Action)
  | .act t _ =>
      match a.stage t with
      | .acting d (action :: _) => some (d, action)
      | _ => none
  | _ => none

def Sound (a : Agent) (e : Event) : Prop := ∀ p ∈ nextAction a e, SoundAction a p.1 p.2

instance (a : Agent) (d : Delivery) : Decidable (StillChecked a d) :=
  decidable_of_iff (getInfo a.sup = d.stream ∧ policyOf a.inv d.stream.sourceId = policyOf d.inv d.stream.sourceId ∧
      (policyOf d.inv d.stream.sourceId).isSome = true)
    ⟨fun ⟨hstream, hpolicy, hdisplay⟩ => ⟨hstream, hpolicy, hdisplay⟩, fun h => ⟨h.stream, h.policy, h.display⟩⟩

instance (a : Agent) (d : Delivery) : (action : Action) → Decidable (SoundAction a d action)
  | .start .. | .stop .. => inferInstanceAs (Decidable True)
  | .updateLease _ expiresAtMs => inferInstanceAs (Decidable (a.sup.leaseId.val = [] → expiresAtMs.toNat ≤ a.sup.leaseExpiresAtMs))
  | .move | .click .. | .drag .. | .wheel .. | .key .. | .shortcut .. => inferInstanceAs (Decidable (StillChecked a d))

instance (a : Agent) (e : Event) : Decidable (Sound a e) :=
  inferInstanceAs (Decidable (∀ p ∈ nextAction a e, SoundAction a p.1 p.2))

def Granted (d : Delivery) : Action → Prop
  | .start .. | .stop .. => True
  | .updateLease leaseId _ => leaseId.val ≠ [] → d.leaseId.val = leaseId.val
  | .move | .click .. | .drag .. | .wheel .. | .key .. | .shortcut .. => inputGate d d.stream d.inv d.access = none

section Checks

variable {ownSn : Field 64} {d : Delivery} {action : Action}

theorem granted_of_injects (hgate : inputGate d d.stream d.inv d.access = none) (h : Action.injects action = true) :
    Granted d action := by
  cases action with
  | start | stop | updateLease => cases h
  | _ => exact hgate

def OnlyInjects (r : Response) : Prop := ∀ action ∈ r.executed, Action.injects action = true

theorem refuse_injects (code message : String) : OnlyInjects (refuse ownSn d code message) := by
  intro action hmem
  cases hmem

theorem inject_injects (h : Action.injects action = true) (code message : InjectError → String) :
    OnlyInjects (inject ownSn d action code message) := by
  unfold inject
  split
  all_goals
    intro other hmem
    rw [List.mem_singleton.mp hmem]
    exact h

theorem unanswered_injects {executed : List Action} (h : ∀ action ∈ executed, Action.injects action = true) :
    OnlyInjects (unanswered executed) := h

theorem mouseDrag_injects : OnlyInjects (mouseDrag ownSn d) := by
  unfold mouseDrag
  split
  · split
    · apply inject_injects rfl
    · apply refuse_injects
  · apply refuse_injects

theorem mouseWheel_injects : OnlyInjects (mouseWheel ownSn d) := by
  unfold mouseWheel
  split
  · split
    · apply inject_injects rfl
    · apply refuse_injects
  · apply refuse_injects

theorem mouseClick_injects : OnlyInjects (mouseClick ownSn d) := by
  unfold mouseClick
  extract_lets raw button
  split
  · apply refuse_injects
  · apply inject_injects rfl

theorem shortcutAction_injects : OnlyInjects (shortcutAction ownSn d) := by
  have hallowed : ∀ (allowed : Bool) (action : CString) (code message : InjectError → String) (refusal : String),
      OnlyInjects (if allowed then inject ownSn d (.shortcut action) code message else refuse ownSn d "action_blocked_policy" refusal) := by
    intro allowed action code message refusal
    split
    · apply inject_injects rfl
    · apply refuse_injects
  unfold shortcutAction
  extract_lets action
  split
  · apply refuse_injects
  split
  · apply hallowed
  split
  · apply hallowed
  split
  · apply hallowed
  · apply refuse_injects

theorem keyEvent_injects : OnlyInjects (keyEvent ownSn d) := by
  unfold keyEvent
  extract_lets kind vk typed
  split
  · apply refuse_injects
  · apply inject_injects rfl

theorem inputAction_injects : OnlyInjects (inputAction ownSn d) := by
  unfold inputAction
  split
  · exact shortcutAction_injects
  split
  · exact keyEvent_injects
  split
  · split
    · exact unanswered_injects (by simp)
    · intro action hmem
      cases hmem
  split
  · exact unanswered_injects (by simp [Action.injects])
  split
  · exact mouseDrag_injects
  split
  · exact mouseWheel_injects
  · exact mouseClick_injects

theorem gate_open {stream : StreamStateInfo} {inv : SystemInventory} {access : DesktopAccess}
    (hgate : inputGate d stream inv access = none) :
    stream.state = .running ∧ isDesktop stream.mode = true ∧ (stream.leaseId.val ≠ [] → d.leaseId.val = stream.leaseId.val) ∧
      (stream.streamInstanceId.val ≠ [] → d.streamInstanceId.val ≠ [] → d.streamInstanceId.val = stream.streamInstanceId.val) ∧
      ∀ policy ∈ policyOf inv stream.sourceId, stricmp policy "input" = true := by
  unfold inputGate at hgate
  split at hgate
  · cases hgate
  next hstate =>
  split at hgate
  · cases hgate
  next hmode =>
  split at hgate
  · cases hgate
  next hlease =>
  split at hgate
  · cases hgate
  split at hgate
  · cases hgate
  next hstream =>
  split at hgate
  · cases hgate
  next hpolicy =>
  refine ⟨not_not.mp hstate, by simpa using hmode, fun hset => ?_, fun hset hgiven => ?_, ?_⟩
  · by_contra hne
    exact hlease ⟨hset, .inr (Ne.symm hne)⟩
  · by_contra hne
    exact hstream ⟨hset, hgiven, Ne.symm hne⟩
  · intro policy hmem
    unfold policyOf at hmem
    obtain ⟨display, hdisplay, rfl⟩ := Option.map_eq_some_iff.mp hmem
    simpa [hdisplay] using hpolicy

theorem respond_granted : ∀ action ∈ (respond ownSn d).executed, Granted d action := by
  have hown : ∀ expiresAtMs, Granted d (.updateLease d.leaseId.str expiresAtMs) := fun _ _ => rfl
  unfold respond
  split
  · simp [inventoryGet, cached]
  split
  · unfold streamStart
    dsimp only
    split
    · simp [refuse, cached]
    · split
      · intro action hmem
        rcases List.mem_cons.mp hmem with rfl | hmem
        · trivial
        · split at hmem
          · rw [List.mem_singleton.mp hmem]
            exact hown _
          · cases hmem
      · intro action hmem
        rw [List.mem_singleton.mp hmem]
        trivial
  split
  · unfold streamStop
    dsimp only
    split
    all_goals
      intro action hmem
      rw [List.mem_singleton.mp hmem]
      trivial
  split
  · unfold renew
    split
    · simp [reply]
    split
    · simp [reply]
    split
    · simp [reply]
    split
    · simp [reply]
    · intro action hmem
      rw [List.mem_singleton.mp hmem]
      exact hown _
  split
  · unfold input
    split
    · split
      · simp [unanswered]
      · simp [refuse, cached]
    · next hgate =>
        intro action hmem
        rcases List.mem_append.mp hmem with hmem | hmem
        · split at hmem
          · rw [List.mem_singleton.mp hmem]
            exact (gate_open hgate).2.2.1
          · cases hmem
        · exact granted_of_injects hgate (inputAction_injects action hmem)
  · simp [reply]

end Checks

section Deadlines

variable (s : Supervisor) (w : World)

theorem cleanup_deadline : s.cleanupProcessHandles.1.leaseExpiresAtMs = s.leaseExpiresAtMs ∧
    s.cleanupProcessHandles.1.state = s.state := by
  unfold Supervisor.cleanupProcessHandles
  split <;> exact ⟨rfl, rfl⟩

theorem launchFfmpegProcess_deadline : (s.launchFfmpegProcess w).2.1.leaseExpiresAtMs = s.leaseExpiresAtMs := by
  unfold Supervisor.launchFfmpegProcess
  split <;> rfl

theorem restartFfmpegProcess_deadline (inv : Option SystemInventory) :
    (s.restartFfmpegProcess inv w).2.1.leaseExpiresAtMs = s.leaseExpiresAtMs := by
  unfold Supervisor.restartFfmpegProcess
  dsimp only
  split
  · rfl
  split
  · split
    · rfl
    split
    · rfl
    · apply launchFfmpegProcess_deadline
  split
  · split
    · rfl
    split
    · rfl
    · apply launchFfmpegProcess_deadline
  · rfl

theorem countRestart_deadline : (s.countRestart w).leaseExpiresAtMs = s.leaseExpiresAtMs := by
  unfold Supervisor.countRestart
  dsimp only
  split_ifs <;> rfl

theorem launchFfmpeg_deadline : (s.launchFfmpeg w).2.1.leaseExpiresAtMs = s.leaseExpiresAtMs := by
  have hkept := launchFfmpegProcess_deadline s w
  unfold Supervisor.launchFfmpeg
  split
  · rfl
  · generalize s.launchFfmpegProcess w = o at hkept ⊢
    obtain ⟨launched, s', effects⟩ := o
    cases launched <;> exact hkept

theorem launch_deadline {o : Result} (h : s.launch w = some o) : o.2.1.leaseExpiresAtMs = s.leaseExpiresAtMs := by
  unfold Supervisor.launch at h
  split at h
  · unfold Supervisor.launchCapture at h
    split at h
    · obtain rfl := Option.some.inj h
      exact launchFfmpeg_deadline s w
    · simp only [Option.bind_eq_bind, Option.bind_eq_some_iff] at h
      obtain ⟨⟨started, ctx, effects⟩, -, h⟩ := h
      cases started with
      | true =>
          obtain rfl := Option.some.inj h
          rfl
      | false =>
          obtain rfl := Option.some.inj h
          exact launchFfmpeg_deadline { s with backend := none } w
  · obtain rfl := Option.some.inj h
    exact launchFfmpeg_deadline s w

theorem start_deadline {streamInstanceId leaseId mode sourceId profile : CString} {inv : SystemInventory} {o : Result}
    (h : s.start streamInstanceId leaseId mode sourceId profile inv w = some o) : o.2.1.leaseExpiresAtMs ≤ s.leaseExpiresAtMs := by
  unfold Supervisor.start at h
  split at h
  · exact Nat.le_of_eq (congrArg (·.2.1.leaseExpiresAtMs) (Option.some.inj h).symm)
  split at h
  · exact Nat.le_of_eq (congrArg (·.2.1.leaseExpiresAtMs) (Option.some.inj h).symm)
  split at h
  · exact Nat.le_of_eq (congrArg (·.2.1.leaseExpiresAtMs) (Option.some.inj h).symm)
  split at h
  · exact Nat.le_of_eq (congrArg (·.2.1.leaseExpiresAtMs) (Option.some.inj h).symm)
  · simp only [Option.bind_eq_bind, Option.bind_eq_some_iff] at h
    obtain ⟨-, -, -, -, -, -, -, -, launched, hlaunch, ho⟩ := h
    obtain rfl := Option.some.inj ho
    exact (Nat.le_of_eq (launch_deadline _ w hlaunch)).trans (Nat.zero_le _)

theorem stopActiveStream_deadline : (s.stopActiveStream w).2.1.leaseExpiresAtMs ≤ s.leaseExpiresAtMs ∧
    ((s.stopActiveStream w).1 = true → (s.stopActiveStream w).2.1.state = .stopped) ∧
    ((s.stopActiveStream w).2.1.state = s.state ∨ (s.stopActiveStream w).2.1.state = .stopped ∨
      (s.stopActiveStream w).2.1.state = .stopping) := by
  have hnow : ∃ s' : Supervisor, (if s.streamInstanceId.val ≠ [] then { s with state := .stopping } else s) = s' ∧
      s'.leaseExpiresAtMs = s.leaseExpiresAtMs ∧ (s'.state = s.state ∨ s'.state = .stopping) := by
    split_ifs
    · exact ⟨_, rfl, rfl, .inr rfl⟩
    · exact ⟨s, rfl, rfl, .inl rfl⟩
  obtain ⟨s', hs', hdeadline, hstate⟩ := hnow
  unfold Supervisor.stopActiveStream
  rw [hs']
  dsimp only
  split
  · exact ⟨Nat.zero_le _, fun _ => rfl, .inr (.inl rfl)⟩
  · split
    · exact ⟨Nat.le_of_eq hdeadline, fun h => (by cases h), hstate.imp id .inr⟩
    · exact ⟨Nat.zero_le _, fun _ => rfl, .inr (.inl rfl)⟩

theorem stop_deadline (streamInstanceId leaseId : CString) :
    (s.stop streamInstanceId leaseId w).2.1.leaseExpiresAtMs ≤ s.leaseExpiresAtMs ∧
    ((s.stop streamInstanceId leaseId w).1 = true → (s.stop streamInstanceId leaseId w).2.1.state = .stopped) ∧
    ((s.stop streamInstanceId leaseId w).2.1.state = s.state ∨ (s.stop streamInstanceId leaseId w).2.1.state = .stopped ∨
      (s.stop streamInstanceId leaseId w).2.1.state = .stopping) := by
  unfold Supervisor.stop
  split
  · next hstopped => exact ⟨Nat.le_refl _, fun _ => hstopped, .inl rfl⟩
  split
  · exact ⟨Nat.le_refl _, fun h => (by cases h), .inl rfl⟩
  split
  · exact ⟨Nat.le_refl _, fun h => (by cases h), .inl rfl⟩
  · exact stopActiveStream_deadline s w

theorem pollBackend_deadline : (s.pollBackend w).1.leaseExpiresAtMs = s.leaseExpiresAtMs ∧
    ((s.pollBackend w).1.state = s.state ∨ (s.pollBackend w).1.state = .failed) := by
  unfold Supervisor.pollBackend
  split
  · exact ⟨rfl, .inl rfl⟩
  · dsimp only
    split
    · exact ⟨rfl, .inr rfl⟩
    · exact ⟨rfl, .inl rfl⟩

theorem recover_deadline (inv : Option SystemInventory) : (s.recover inv w).1.leaseExpiresAtMs = s.leaseExpiresAtMs := by
  unfold Supervisor.recover
  split
  · have hkept := restartFfmpegProcess_deadline s.cleanupProcessHandles.1 w inv
    rw [(cleanup_deadline s).1] at hkept
    dsimp only
    generalize s.cleanupProcessHandles.1.restartFfmpegProcess inv w = o at hkept ⊢
    obtain ⟨restarted, s', effects⟩ := o
    cases restarted with
    | true => exact hkept
    | false => exact (countRestart_deadline s' w).trans hkept
  · rfl

theorem watch_deadline (inv : Option SystemInventory) : (s.watch inv w).1.leaseExpiresAtMs = s.leaseExpiresAtMs := by
  have hcleaned := (cleanup_deadline s).1
  unfold Supervisor.watch
  dsimp only
  split
  · exact (countRestart_deadline _ w).trans hcleaned
  split
  · exact hcleaned
  split
  · exact hcleaned
  split
  · exact (countRestart_deadline _ w).trans hcleaned
  · rfl

theorem tick_deadline (inv : Option SystemInventory) : (s.tick inv w).1.leaseExpiresAtMs ≤ s.leaseExpiresAtMs := by
  have hpolled := (pollBackend_deadline s w).1
  unfold Supervisor.tick
  dsimp only
  split
  · exact Nat.zero_le _
  split
  · exact Nat.le_of_eq ((recover_deadline _ w inv).trans hpolled)
  split
  · exact Nat.le_of_eq ((watch_deadline _ w inv).trans hpolled)
  · exact Nat.le_of_eq hpolled

end Deadlines

def Quiet (s : Supervisor) : Prop := s.state ≠ .running ∧ s.state ≠ .restarting

section Quietness

variable {s : Supervisor} {w : World}

theorem quiet_of_stop {streamInstanceId leaseId : CString} (h : Quiet s) : Quiet (s.stop streamInstanceId leaseId w).2.1 := by
  unfold Quiet
  rcases (stop_deadline s w streamInstanceId leaseId).2.2 with hstate | hstate | hstate
  · rw [hstate]
    exact h
  · simp [hstate]
  · simp [hstate]

theorem updateLease_state (leaseId : CString) (expiresAtMs : Nat) : (s.updateLease leaseId expiresAtMs w).1.state = s.state := by
  unfold Supervisor.updateLease
  split
  · split
    · dsimp only
      split <;> rfl
    · rfl
  · rfl

theorem updateLease_raises (leaseId : CString) (expiresAtMs : Nat)
    (h : s.leaseExpiresAtMs < (s.updateLease leaseId expiresAtMs w).1.leaseExpiresAtMs) :
    s.leaseExpiresAtMs < expiresAtMs ∧ (s.leaseId.val = [] ∨ leaseId.val ≠ [] ∧ s.leaseId = leaseId) := by
  unfold Supervisor.updateLease at h
  split at h
  · next hlease =>
      split at h
      · next hlater => exact ⟨hlater, hlease⟩
      · exact absurd h (Nat.lt_irrefl _)
  · exact absurd h (Nat.lt_irrefl _)

theorem pollBackend_quiet (h : Quiet s) : Quiet (s.pollBackend w).1 := by
  unfold Quiet
  rcases (pollBackend_deadline s w).2 with hstate | hstate
  · rw [hstate]
    exact h
  · simp [hstate]

theorem tick_quiet (inv : Option SystemInventory) (h : Quiet s) : Quiet (s.tick inv w).1 := by
  have hpolled := pollBackend_quiet (w := w) h
  unfold Supervisor.tick
  dsimp only
  split
  · exact ⟨nofun, nofun⟩
  split
  · next hrestarting => exact absurd hrestarting hpolled.2
  split
  · next hrunning => exact absurd hrunning hpolled.1
  · exact hpolled

theorem tick_over (inv : Option SystemInventory) (h : s.leaseOver w) : Quiet (s.tick inv w).1 := by
  obtain ⟨hdeadline, hstate⟩ := pollBackend_deadline s w
  rcases hstate with hstate | hfailed
  · have hover : (s.pollBackend w).1.leaseOver w := by
      unfold Supervisor.leaseOver at h ⊢
      rw [hdeadline, hstate]
      exact h
    unfold Supervisor.tick
    dsimp only
    rw [if_pos hover]
    exact ⟨nofun, nofun⟩
  · have hpolled : Quiet (s.pollBackend w).1 := ⟨by simp [hfailed], by simp [hfailed]⟩
    unfold Supervisor.tick
    dsimp only
    split
    · exact ⟨nofun, nofun⟩
    split
    · next hrestarting => exact absurd hrestarting hpolled.2
    split
    · next hrunning => exact absurd hrunning hpolled.1
    · exact hpolled

end Quietness

section Steps

variable {ownSn : Field 64} {a a' : Agent} {e : Event}

def Prepared (a : Agent) : Prop := ∀ t d left, a.stage t = .acting d left → ∀ action ∈ left, Granted d action

theorem goto_stage (a : Agent) (t t' : Thread) (stage : Stage) : (a.goto t stage).stage t' = if t' = t then stage else a.stage t' := by
  cases t <;> cases t' <;> rfl

@[simp] theorem goto_sup (a : Agent) (t : Thread) (stage : Stage) : (a.goto t stage).sup = a.sup := by cases t <;> rfl

theorem Prepared.threads (h : Prepared a) (hmqtt : a'.mqtt = a.mqtt) (hworker : a'.worker = a.worker) : Prepared a' := by
  intro t d left hacting
  cases t with
  | mqtt => exact h .mqtt d left (hmqtt.symm.trans hacting)
  | worker => exact h .worker d left (hworker.symm.trans hacting)

theorem Prepared.goto (h : Prepared a) (t : Thread) {stage : Stage}
    (hstage : ∀ d left, stage = .acting d left → ∀ action ∈ left, Granted d action) : Prepared (a.goto t stage) := by
  intro t' d left hacting
  rw [goto_stage] at hacting
  split at hacting
  · exact hstage d left hacting
  · exact h t' d left hacting

theorem Prepared.elsewhere (h : Prepared a) (t : Thread) {stage : Stage} (hstage : ∀ d left, stage ≠ .acting d left) :
    Prepared (a.goto t stage) :=
  h.goto t fun d left hacting => absurd hacting (hstage d left)

theorem Prepared.respond (h : Prepared a) (t : Thread) (d : Delivery) : Prepared (a.goto t (.acting d (respond ownSn d).executed)) := by
  apply h.goto t
  intro d' left hacting
  obtain ⟨rfl, rfl⟩ := Stage.acting.inj hacting
  exact respond_granted

/-- What a step does to the supervisor. -/
inductive Touched (a : Agent) : Event → Supervisor → Prop
  | same (e : Event) : Touched a e a.sup
  | acted (t : Thread) (w : World) (d : Delivery) (action : Action) (left : List Action) (sup : Supervisor)
      (hstage : a.stage t = .acting d (action :: left)) (hperform : perform a.sup a.inv d w action = some sup) :
      Touched a (.act t w) sup
  | ticked (w : World) : Touched a (.tick w) (a.sup.tick (some a.inv) w).1
  | stopped (w : World) : Touched a (.shutdown w) (a.sup.stop empty empty w).2.1

theorem step?_cases (h : Prepared a) (hstep : a.step? ownSn e = some a') : Prepared a' ∧ Touched a e a'.sup := by
  cases e with
  | receive =>
      obtain ⟨-, -, rfl⟩ := Option.map_eq_some_iff.mp hstep
      unfold Agent.receive
      split
      · split
        · exact ⟨h, .same _⟩
        · exact ⟨h.threads rfl rfl, .same _⟩
      · exact ⟨h.elsewhere .mqtt fun _ _ => nofun, .same _⟩
  | take nowMs =>
      simp only [Agent.step?, Agent.take] at hstep
      split at hstep
      · next d queue hworker hqueue =>
          obtain rfl := Option.some.inj hstep
          refine ⟨?_, .same _⟩
          have hidle : Prepared (a.goto .worker (if expired d nowMs then .idle else .taken d)) := by
            apply h.elsewhere .worker
            split <;> exact fun _ _ => nofun
          exact hidle.threads rfl rfl
      · cases hstep
  | check t found =>
      simp only [Agent.step?, Agent.check] at hstep
      split at hstep
      · next d _ =>
          obtain rfl := Option.some.inj hstep
          rw [goto_sup]
          refine ⟨?_, .same _⟩
          split
          · exact h.elsewhere t fun _ _ => nofun
          split
          · exact h.elsewhere t fun _ _ => nofun
          · exact h.respond t d
      · cases hstep
  | look t =>
      simp only [Agent.step?, Agent.look] at hstep
      split at hstep
      · next d _ =>
          obtain rfl := Option.some.inj hstep
          rw [goto_sup]
          refine ⟨?_, .same _⟩
          split
          · exact h.elsewhere t fun _ _ => nofun
          · exact h.respond t _
      · cases hstep
  | gate t access =>
      simp only [Agent.step?, Agent.gate] at hstep
      split at hstep
      · next d _ =>
          obtain rfl := Option.some.inj hstep
          rw [goto_sup]
          exact ⟨h.respond t _, .same _⟩
      · cases hstep
  | act t w =>
      simp only [Agent.step?, Agent.act] at hstep
      split at hstep
      · next d action left hstage =>
          simp only [Option.bind_eq_bind, Option.bind_eq_some_iff] at hstep
          obtain ⟨sup, hperform, ha'⟩ := hstep
          obtain rfl := Option.some.inj ha'
          rw [goto_sup]
          refine ⟨?_, .acted t w d action left sup hstage hperform⟩
          have hkept : Prepared { a with sup := sup } := h.threads rfl rfl
          apply hkept.goto t
          intro d' left' hacting
          obtain ⟨rfl, rfl⟩ := Stage.acting.inj hacting
          exact fun other hmem => h t d (action :: left) hstage other (List.mem_cons_of_mem _ hmem)
      · cases hstep
  | done t =>
      simp only [Agent.step?, Agent.done] at hstep
      split at hstep
      · obtain rfl := Option.some.inj hstep
        rw [goto_sup]
        exact ⟨h.elsewhere t fun _ _ => nofun, .same _⟩
      · cases hstep
  | tick w =>
      obtain ⟨-, -, rfl⟩ := Option.map_eq_some_iff.mp hstep
      exact ⟨h.threads rfl rfl, .ticked w⟩
  | shutdown w =>
      obtain ⟨-, -, rfl⟩ := Option.map_eq_some_iff.mp hstep
      exact ⟨h.threads rfl rfl, .stopped w⟩
  | refresh inv =>
      obtain ⟨-, -, rfl⟩ := Option.map_eq_some_iff.mp hstep
      exact ⟨h.threads rfl rfl, .same _⟩

theorem step_cases (h : Prepared a) : Prepared (step ownSn a e) ∧ Touched a e (step ownSn a e).sup := by
  unfold step
  cases hstep : a.step? ownSn e with
  | none => exact ⟨h, .same e⟩
  | some a' => exact step?_cases h hstep

theorem start_prepared (sup : Supervisor) (inv : SystemInventory) : Prepared (Agent.start sup inv) := by
  intro t d left hacting
  cases t <;> cases hacting

theorem run_prepared {events : List Event} (h : Prepared a) : Prepared (run (step ownSn) a events) :=
  run_kept (p := Prepared) (fun _ _ h => (step_cases h).1) events a h

theorem nextAction_act {p : Delivery × Action} (h : p ∈ nextAction a e) :
    ∃ t w left, e = .act t w ∧ a.stage t = .acting p.1 (p.2 :: left) := by
  unfold nextAction at h
  split at h
  · next t w =>
      split at h
      · next d action left hstage =>
          obtain rfl := Option.some.inj h
          exact ⟨t, w, left, rfl, hstage⟩
      · cases h
  · cases h

variable {d : Delivery} {action : Action}

theorem nextAction_of_stage {t : Thread} {w : World} {left : List Action}
    (h : a.stage t = .acting d (action :: left)) : (d, action) ∈ nextAction a (.act t w) := by
  simp [nextAction, h]

theorem authority_of_checked (hgate : inputGate d d.stream d.inv d.access = none) (hchecked : StillChecked a d) :
    Authority a d := by
  obtain ⟨hrunning, hdesktop, hlease, hstream, hpolicy⟩ := gate_open hgate
  have hsame := hchecked.stream
  have hdisplay := hchecked.display
  rw [← hsame] at hrunning hdesktop hlease hstream
  refine ⟨hrunning, hdesktop, hlease, hstream, ?_⟩
  obtain ⟨policy, hmem⟩ := Option.isSome_iff_exists.mp hdisplay
  have hinput := hpolicy policy hmem
  rw [← hchecked.policy, ← hsame] at hmem
  obtain ⟨display, hfound, rfl⟩ := Option.map_eq_some_iff.mp hmem
  exact ⟨display, hfound, hinput⟩

theorem soundAction_injects (hsound : SoundAction a d action) (h : Action.injects action = true) :
    StillChecked a d := by
  cases action with
  | start | stop | updateLease => cases h
  | _ => exact hsound

theorem granted_injects (hgranted : Granted d action) (h : Action.injects action = true) :
    inputGate d d.stream d.inv d.access = none := by
  cases action with
  | start | stop | updateLease => cases h
  | _ => exact hgranted

def Carries (a : Agent) (d : Delivery) : Prop := a.sup.leaseId.val ≠ [] ∧ d.leaseId.val = a.sup.leaseId.val

theorem perform_raises {w : World} {sup : Supervisor} (hgranted : Granted d action)
    (hsound : SoundAction a d action) (hperform : perform a.sup a.inv d w action = some sup)
    (hraised : a.sup.leaseExpiresAtMs < sup.leaseExpiresAtMs) : Carries a d := by
  have hnot : sup.leaseExpiresAtMs ≤ a.sup.leaseExpiresAtMs → Carries a d := fun hle => absurd hraised (Nat.not_lt.mpr hle)
  cases action with
  | start =>
      simp only [perform, Option.bind_eq_bind, Option.bind_eq_some_iff] at hperform
      obtain ⟨⟨started, sup', effects⟩, hstart, hsup⟩ := hperform
      dsimp only at hsup
      split at hsup
      · obtain rfl := Option.some.inj hsup
        exact hnot (start_deadline a.sup w hstart)
      · cases hsup
  | stop streamInstanceId leaseId =>
      simp only [perform] at hperform
      split at hperform
      · obtain rfl := Option.some.inj hperform
        exact hnot (stop_deadline a.sup w streamInstanceId leaseId).1
      · cases hperform
  | updateLease leaseId expiresAtMs =>
      obtain rfl := Option.some.inj hperform
      obtain ⟨hlater, hlease⟩ := updateLease_raises leaseId expiresAtMs.toNat hraised
      have hactive : a.sup.leaseId.val ≠ [] := fun hnone => absurd hlater (Nat.not_lt.mpr (hsound hnone))
      obtain ⟨hset, hsame⟩ := hlease.resolve_left hactive
      exact ⟨hactive, (hgranted hset).trans (congrArg Subtype.val hsame).symm⟩
  | _ =>
      obtain rfl := Option.some.inj hperform
      exact hnot (Nat.le_refl _)

structure Proper (ownSn : Field 64) (a : Agent) (e : Event) : Prop where
  injected : ∀ p ∈ nextAction a e, Action.injects p.2 = true → Authority a p.1
  raised : a.sup.leaseExpiresAtMs < (step ownSn a e).sup.leaseExpiresAtMs → ∃ p ∈ nextAction a e, Carries a p.1

theorem step_proper (h : Prepared a) (hsound : Sound a e) : Proper ownSn a e := by
  refine ⟨fun p hp hinjects => ?_, fun hraised => ?_⟩
  · obtain ⟨t, w, left, rfl, hstage⟩ := nextAction_act hp
    have hgranted := h t p.1 (p.2 :: left) hstage p.2 List.mem_cons_self
    exact authority_of_checked (granted_injects hgranted hinjects) (soundAction_injects (hsound p hp) hinjects)
  · have htouched := (@step_cases ownSn a e h).2
    generalize (step ownSn a e).sup = sup at htouched hraised
    cases htouched with
    | same => exact absurd hraised (Nat.lt_irrefl _)
    | acted t w d action left sup hstage hperform =>
        have hp : (d, action) ∈ nextAction a (.act t w) := nextAction_of_stage hstage
        have hgranted := h t d (action :: left) hstage action List.mem_cons_self
        exact ⟨_, hp, perform_raises hgranted (hsound _ hp) hperform hraised⟩
    | ticked w => exact absurd hraised (Nat.not_lt.mpr (tick_deadline a.sup w _))
    | stopped w => exact absurd hraised (Nat.not_lt.mpr (stop_deadline a.sup w _ _).1)

def isStart : Action → Bool
  | .start .. => true
  | _ => false

def NoStart (a : Agent) (e : Event) : Prop := ∀ p ∈ nextAction a e, isStart p.2 = false

theorem perform_quiet {w : World} {sup : Supervisor} (hnot : isStart action = false)
    (hperform : perform a.sup a.inv d w action = some sup) (h : Quiet a.sup) : Quiet sup := by
  cases action with
  | start => cases hnot
  | stop =>
      simp only [perform] at hperform
      split at hperform
      · obtain rfl := Option.some.inj hperform
        exact quiet_of_stop h
      · cases hperform
  | updateLease =>
      obtain rfl := Option.some.inj hperform
      unfold Quiet
      rw [updateLease_state]
      exact h
  | _ =>
      obtain rfl := Option.some.inj hperform
      exact h

theorem step_quiet (h : Prepared a) (hquiet : Quiet a.sup) (hnot : NoStart a e) : Quiet (step ownSn a e).sup := by
  have htouched := (@step_cases ownSn a e h).2
  generalize (step ownSn a e).sup = sup at htouched ⊢
  cases htouched with
  | same => exact hquiet
  | acted t w d action left sup hstage hperform => exact perform_quiet (hnot _ (nextAction_of_stage hstage)) hperform hquiet
  | ticked w => exact tick_quiet _ hquiet
  | stopped w => exact quiet_of_stop hquiet

theorem run_quiet {events : List Event} (h : Prepared a) (hquiet : Quiet a.sup) (hnot : Along (step ownSn) NoStart a events) :
    Quiet (run (step ownSn) a events).sup := by
  induction events generalizing a with
  | nil => exact hquiet
  | cons e events ih => exact ih (step_cases h).1 (step_quiet h hquiet hnot.1) hnot.2

/-- A stop that is confirmed, or the tick after the end of the lease. -/
def Ends (ownSn : Field 64) (a : Agent) (e : Event) : Prop :=
  (a.step? ownSn e).isSome = true ∧
    match e with
    | .tick w => a.sup.leaseOver w
    | .shutdown w => (a.sup.stop empty empty w).1 = true
    | .act _ w => ∃ p ∈ nextAction a e, ∃ streamInstanceId leaseId, p.2 = .stop streamInstanceId leaseId ∧
        (a.sup.stop streamInstanceId leaseId w).1 = true
    | _ => False

theorem quiet_of_stopped {s : Supervisor} (h : s.state = .stopped) : Quiet s := by simp [Quiet, h]

theorem step_ends (hends : Ends ownSn a e) : Quiet (step ownSn a e).sup := by
  obtain ⟨hsome, hends⟩ := hends
  obtain ⟨a', hstep⟩ := Option.isSome_iff_exists.mp hsome
  have hnext : step ownSn a e = a' := by simp [step, hstep]
  rw [hnext]
  cases e with
  | tick w =>
      obtain ⟨-, -, rfl⟩ := Option.map_eq_some_iff.mp hstep
      exact tick_over _ hends
  | shutdown w =>
      obtain ⟨-, -, rfl⟩ := Option.map_eq_some_iff.mp hstep
      exact quiet_of_stopped ((stop_deadline a.sup w empty empty).2.1 hends)
  | act t w =>
      obtain ⟨⟨d, action⟩, hp, streamInstanceId, leaseId, rfl, hstopped⟩ := hends
      obtain ⟨t', w', left, he, hstage⟩ := nextAction_act hp
      obtain ⟨rfl, rfl⟩ := Event.act.inj he
      simp only [Agent.step?, Agent.act, hstage, perform, Option.bind_eq_bind, Option.bind_eq_some_iff] at hstep
      obtain ⟨sup, hsup, ha'⟩ := hstep
      obtain rfl := Option.some.inj ha'
      rw [goto_sup]
      split at hsup
      · obtain rfl := Option.some.inj hsup
        exact quiet_of_stopped ((stop_deadline a.sup w streamInstanceId leaseId).2.1 hstopped)
      · cases hsup
  | _ => exact hends.elim

end Steps

theorem input_authority (ownSn : Field 64) (sup : Supervisor) (inv : SystemInventory) (events : List Event)
    (hsound : Along (step ownSn) Sound (Agent.start sup inv) events) :
    Along (step ownSn) (Proper ownSn) (Agent.start sup inv) events ∧
      ∀ before e during last after, events = before ++ e :: (during ++ last :: after) →
        Ends ownSn (run (step ownSn) (Agent.start sup inv) before) e →
        Along (step ownSn) NoStart (run (step ownSn) (Agent.start sup inv) (before ++ [e])) during →
        ∀ p ∈ nextAction (run (step ownSn) (Agent.start sup inv) (before ++ e :: during)) last, Action.injects p.2 = false := by
  have hproper : ∀ (events : List Event) (a : Agent), Prepared a → Along (step ownSn) Sound a events →
      Along (step ownSn) (Proper ownSn) a events := by
    intro events
    induction events with
    | nil => exact fun _ _ _ => trivial
    | cons e events ih => exact fun a h hsound => ⟨step_proper h hsound.1, ih _ (step_cases h).1 hsound.2⟩
  have hall := hproper events _ (start_prepared sup inv) hsound
  refine ⟨hall, fun before e during last after hevents hends hnot p hp => ?_⟩
  have hprepared : Prepared (run (step ownSn) (Agent.start sup inv) before) := run_prepared (start_prepared sup inv)
  rw [run_append] at hnot
  have hquiet : Quiet (run (step ownSn) (Agent.start sup inv) (before ++ e :: during)).sup := by
    rw [run_append]
    have hafter : Prepared (step ownSn (run (step ownSn) (Agent.start sup inv) before) e) := (step_cases hprepared).1
    change Quiet (run (step ownSn) (step ownSn (run (step ownSn) (Agent.start sup inv) before) e) during).sup
    exact run_quiet hafter (step_ends hends) hnot
  rw [hevents, ← List.cons_append, ← List.append_assoc] at hall
  have hlast := (hall.split.2).1.injected p hp
  by_contra hinjects
  exact hquiet.1 (hlast (by simpa using hinjects)).running

/-- A command with these fields; the agent and the system answer that all is well. -/
def command (fields : String) (hzero : 0 ∉ text fields) : Delivery where
  payload := ⟨text "\x7b\"v\":1,\"command_id\":\"c\",\"lease_id\":\"l\",\"stream_instance_id\":\"i\"," ++ text fields ++ text "\x7d", by
    simp only [List.mem_append, hzero]
    decide⟩
  payloadLen := 100
  fileTime := 116444736000000000
  time := ⟨0, Nat.zero_lt_succ _⟩
  inv := ⟨[], [], []⟩
  start := .ok ⟨text "started", by decide⟩
  stop := .ok ⟨text "stopped", by decide⟩
  stream := ⟨empty, empty, empty, empty, .stopped⟩
  access := .ok
  coordinates := true
  allowF12 := false
  allowAltF4 := false
  allowWinD := false
  vkAllowed _ := false
  injected := .ok ()

def startCommand : Delivery := command "\"type\":\"stream_start\",\"mode\":\"desktop\",\"source_id\":\"d\"" (by decide)
def stopCommand : Delivery := command "\"type\":\"stream_stop\"" (by decide)
def clickCommand : Delivery := command "\"type\":\"mouse_click\",\"x\":1,\"y\":1,\"expires_at_ms\":5000" (by decide)

theorem ownSerial_fits : 0 ∉ text "s" ∧ (text "s").length < 64 := by decide

def ownSerial : Field 64 := ⟨text "s", ownSerial_fits⟩

def openInventory : SystemInventory where
  displays := [⟨⟨text "d", by decide⟩, empty, true, 0, 0, 640, 480, 1, ⟨text "input", by decide⟩⟩]
  cameras := []
  allowedProfiles := []

def world : World := OneMediaChild.worldAt 1 7

def kiosk : Agent := Agent.start (Supervisor.init empty) openInventory

def onMqtt (d : Delivery) : List Event := [.receive d 0, .check .mqtt false, .act .mqtt world, .done .mqtt]

def checkedClick : List Event :=
  onMqtt startCommand ++ [.receive clickCommand 0, .take 0, .check .worker false, .look .worker, .gate .worker .ok]

theorem input_authority_click : ∃ p ∈ nextAction (run (step ownSerial) kiosk (checkedClick ++ [.act .worker world])) (.act .worker world),
    Action.injects p.2 = true ∧ Authority (run (step ownSerial) kiosk (checkedClick ++ [.act .worker world])) p.1 := by
  have hsound : Along (step ownSerial) Sound kiosk ((checkedClick ++ [.act .worker world]) ++ [.act .worker world]) := by
    decide +kernel
  have hinjects : (nextAction (run (step ownSerial) kiosk (checkedClick ++ [.act .worker world])) (.act .worker world)).map
      (fun p => Action.injects p.2) = some true := by decide +kernel
  obtain ⟨p, hp, htrue⟩ := Option.map_eq_some_iff.mp hinjects
  obtain ⟨hproper, -⟩ := input_authority ownSerial (Supervisor.init empty) openInventory _ hsound
  exact ⟨p, hp, htrue, hproper.split.2.1.injected p hp htrue⟩

def stoppedBetween : List Event := checkedClick ++ [.act .worker world] ++ onMqtt stopCommand

theorem click_after_stop : ¬ ∀ (ownSn : Field 64) (sup : Supervisor) (inv : SystemInventory) (events : List Event),
    Along (step ownSn) (Proper ownSn) (Agent.start sup inv) events := by
  intro h
  have hproper : Along (step ownSerial) (Proper ownSerial) kiosk (stoppedBetween ++ [.act .worker world]) := h _ _ _ _
  have hinjects : (nextAction (run (step ownSerial) kiosk stoppedBetween) (.act .worker world)).map
      (fun p => Action.injects p.2) = some true := by decide +kernel
  obtain ⟨p, hp, htrue⟩ := Option.map_eq_some_iff.mp hinjects
  have hstopped : (run (step ownSerial) kiosk stoppedBetween).sup.state = .stopped := by decide +kernel
  have hrunning := (hproper.split.2.1.injected p hp htrue).running
  rw [hstopped] at hrunning
  cases hrunning

end EtranProcessing.Desk.InputAuthority
