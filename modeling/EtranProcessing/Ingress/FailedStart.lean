import EtranProcessing.Ingress.Finality

namespace EtranProcessing.Ingress.FailedStart

open Library.Tables Library.Runs
open Control State Clock Lease Routes Stores Lifecycle MediaV2 EventLoop Moves Settling ModernPaths Refinement
open SessionTable CameraFence Teardown Isolation Restart Finality

/-- The connections are the same. Those of the device may have been revoked if
it was taken. -/
def SameClients (taken : Prop) (sn : CString) (w w' : World) : Prop :=
  ∃ f, w'.clients = w.clients.map f ∧ ∀ c, SamePeer c (f c) ∧
    ((f c).cameraRouteRevoked = c.cameraRouteRevoked ∨ taken ∧ c.sn = sn)

variable {late : MediaSession → Prop} {sn : CString} {w w' : World} {taken : Prop}

theorem SameClients.of_eq (h : w'.clients = w.clients) :
    SameClients taken sn w w' :=
  ⟨id, by simpa using h, fun c => ⟨.refl c, .inl rfl⟩⟩

theorem SameClients.mono {taken taken' : Prop} (h : SameClients taken sn w w')
    (hmono : taken → taken') : SameClients taken' sn w w' := by
  obtain ⟨f, hf, hkeep⟩ := h
  exact ⟨f, hf, fun c => ⟨(hkeep c).1, (hkeep c).2.imp_right fun h => ⟨hmono h.1, h.2⟩⟩⟩

variable {sn id : CString} {u v w : World}

theorem SameClients.trans (h : SameClients taken sn u v)
    (h' : SameClients taken sn v w) : SameClients taken sn u w := by
  obtain ⟨f, hf, hkeep⟩ := h
  obtain ⟨g, hg, hkeep'⟩ := h'
  refine ⟨g ∘ f, by rw [hg, hf, List.map_map], fun c => ⟨(hkeep c).1.trans (hkeep' (f c)).1, ?_⟩⟩
  rcases (hkeep' (f c)).2 with h | ⟨ht, hsn⟩
  · rcases (hkeep c).2 with h₀ | h₀
    · exact .inl (h.trans h₀)
    · exact .inr h₀
  · exact .inr ⟨ht, (hkeep c).1.sn.symm.trans hsn⟩

theorem SameClients.map (f : IngressClient → IngressClient)
    (hw : w'.clients = w.clients.map fun c => if c.sn = sn then f c else c) (ht : taken)
    (hf : ∀ c, SamePeer c (f c)) : SameClients taken sn w w' := by
  refine ⟨_, hw, fun c => ?_⟩
  by_cases h : c.sn = sn
  · rw [if_pos h]
    exact ⟨hf c, .inr ⟨ht, h⟩⟩
  · rw [if_neg h]
    exact ⟨.refl c, .inl rfl⟩

def Enters (id : CString) (w w' : World) : Prop :=
  (∀ j, (session w j).sessionId ≠ id) ∧ ∃ j, (session w' j).sessionId = id ∧ (session w' j).state = .stopped

/-- What is left of the tables after a start of session id on device sn, which
the records in late have made room for, and one more if the table was full. -/
structure Frame (late : MediaSession → Prop) (full taken : Prop) (sn id : CString) (w w' : World) : Prop where
  record : ∀ j, (session w j).state ≠ .empty → ¬ late (session w j) →
    session w' j = session w j ∨ finished (session w j) = true ∧ full
  others : (w'.routes.filter fun e => e.sn != sn) = w.routes.filter fun e => e.sn != sn
  own : (∃ j, late (session w j)) ∨ Enters id w w' ∨ w'.routes = w.routes
  clients : SameClients taken sn w w'

theorem Frame.of_quiet {full taken : Prop}
    (h : Quiet w w') :
    Frame late full taken sn id w w' :=
  ⟨fun j _ _ => .inl (by rw [h.session_eq]), by rw [h.routes], .inr (.inr h.routes), .of_eq h.clients⟩

theorem Frame.mono {full taken taken' : Prop}
    (h : Frame late full taken sn id w w') (hmono : taken → taken') : Frame late full taken' sn id w w' :=
  ⟨h.record, h.others, h.own, h.clients.mono hmono⟩

theorem Enters.after {id : CString} (h : Quiet u v) (he : Enters id v w) : Enters id u w := by
  rw [Enters, h.session_eq] at he
  exact he

theorem Frame.after_quiet {full taken : Prop}
    (hq : Quiet u v)
    (h : Frame late full taken sn id v w) : Frame late full taken sn id u w := by
  refine ⟨?_, ?_, ?_, (SameClients.of_eq hq.clients).trans h.clients⟩
  · intro j hj hlate
    have := h.record j
    rw [hq.session_eq] at this
    exact this hj hlate
  · rw [h.others, hq.routes]
  · rcases h.own with ⟨j, hj⟩ | he | hr
    · rw [hq.session_eq] at hj
      exact .inl ⟨j, hj⟩
    · exact .inr (.inl (he.after hq))
    · exact .inr (.inr (hr.trans hq.routes))

def creates : JanusRequest → Option Nat
  | .create id .. => some id
  | _ => none

/-- What the request made in Janus, it has told Janus to destroy: it asked for no
mountpoint; or it did in the end, and was refused; or the end is a destroy of the
only mountpoint it asked for. -/
inductive NothingLeft (e : Env) (tick : Nat) : List JanusRequest → Prop
  | unmade (log : List JanusRequest) (h : ∀ q ∈ log, creates q = none) : NothingLeft e tick log
  | refused (front : List JanusRequest) (q : JanusRequest) (h : ∀ q ∈ front, creates q = none)
      (hno : e.janusCreated (tick - 1) = false) : NothingLeft e tick (front ++ [q])
  | undone (front : List JanusRequest) (m : Nat) (h : ∀ q ∈ front, creates q = none ∨ creates q = some m) :
      NothingLeft e tick (front ++ [.destroy m])

def Made (w w' : World) : Prop :=
  ∃ front m, w'.janus = w.janus ++ (front ++ [.destroy m]) ∧ ∃ q ∈ front, creates q = some m

theorem expire_teardown {w : World} {i : Nat} {t : Int} (hfind : findSessionById w (session w i).sessionId = some i)
    (hl : live (session w i) = true) (hover : leaseOver w (session w i) t = true) :
    ∃ s, s.state = .stopped ∧ SameIdentity (session w i) s ∧
      registry (expireMediaSession w i t) = { registry w with
        slots := Function.update (session w) i s
        routes := dropEntry (session w i).sn w.routes
        clients := dropTargets (registry w) (session w i).sn } ∧
      (expireMediaSession w i t).janus = w.janus ++ [.destroy (session w i).mountpointId] := by
  have hne : (session w i).state ≠ .stopped := by
    rcases (live_iff _).mp hl with h | h <;> simp [h]
  have hjanus := congrArg Fabric.janus (expireMediaSession_fabric w i t)
  have htarget : target w (.expiry i t) = some i := by
    simp [target, hl, hover, stoppable, hfind, Option.filter, hne]
  rw [htarget] at hjanus
  rcases expireMediaSession_spec w i t with ⟨hnot, _⟩ | ⟨_, w₁, hclock, hstop⟩
  · exact absurd ⟨hl, hover⟩ hnot
  · have hq := Quiet.of_clockOnly hclock
    have hresolved : findSessionById w₁ (session w i).sessionId = some i := (hq.settles.findSessionById _).trans hfind
    have hstate : (session w₁ i).state ≠ .stopped := by
      rw [hq.session_eq]
      exact hne
    refine ⟨stoppedRecord w₁ i (bytes "ttl_expired"), rfl, ?_, ?_, hjanus⟩
    · rw [← hq.session_eq]
      exact stoppedRecord_identity w₁ i _
    · rw [hstop]
      simp only [stopMediaSession, hresolved, hstate, if_false]
      rw [(teardown_spec w₁ i _ (findSessionById_some hresolved).1).2.2, hq.registry_eq, hq.session_eq, hq.routes]

theorem overwriteFirst_filter (sn : CString) (rtp rtcp : Int) (routes : List RouteEntry) :
    ((overwriteFirst sn rtp rtcp routes).filter fun e => e.sn != sn) = routes.filter fun e => e.sn != sn := by
  induction routes with
  | nil => rfl
  | cons e routes ih =>
      by_cases h : e.sn = sn
      · simp [overwriteFirst, h]
      · simp [overwriteFirst, h, ih]

theorem putEntry_filter (hlen : sn.length < 128) (rtp rtcp : Int) (routes : List RouteEntry) :
    ((putEntry sn rtp rtcp routes).filter fun e => e.sn != sn) = routes.filter fun e => e.sn != sn := by
  simp only [putEntry]
  split
  · exact overwriteFirst_filter sn rtp rtcp routes
  · simp [safeStrcpy_of_lt hlen]

theorem dropEntry_others (sn : CString) (routes : List RouteEntry) :
    ((dropEntry sn routes).filter fun e => e.sn != sn) = routes.filter fun e => e.sn != sn := by
  apply filter_eraseP routes
  intro e he
  simpa using he

theorem dropTargets_clients (w : World) (sn : CString) {w' : World} (h : w'.clients = dropTargets (registry w) sn) :
    SameClients True sn w w' := by
  simp only [dropTargets] at h
  split at h
  · exact .map (updateTargets 0 0) h trivial (updateTargets_peer 0 0)
  · exact .of_eq h

section Commit

variable {w : World} {i : Nat} {c : MediaSession}

theorem mvChecked_frame (hfind : findSessionById w (session w i).sessionId = some i) (hl : live (session w i) = true)
    (hstatus : 400 ≤ (mvChecked w i).1.status) :
    ∃ s, s.state = .stopped ∧ SameIdentity (session w i) s ∧
      registry (mvChecked w i).2 = { registry w with
        slots := Function.update (session w) i s
        routes := dropEntry (session w i).sn w.routes
        clients := dropTargets (registry w) (session w i).sn } ∧
      (mvChecked w i).2.janus = w.janus ++ [.destroy (session w i).mountpointId] := by
  have hne : (session w i).state ≠ .stopped := by
    rcases (live_iff _).mp hl with h | h <;> simp [h]
  simp only [mvChecked] at hstatus ⊢
  by_cases hover : leaseOver (advance w) (session w i) (now w) = true
  · obtain ⟨s, hs, hid, hreg, hjanus⟩ := expire_teardown (w := advance w) (t := now w) hfind hl hover
    have hstopped : (session (expireMediaSession (advance w) i (now w)) i).state = .stopped := by
      rw [show session (expireMediaSession (advance w) i (now w)) i = _ from congrFun (congrArg Registry.slots hreg) i]
      simpa using hs
    rw [if_pos hstopped]
    exact ⟨s, hs, hid, hreg, hjanus⟩
  · rcases expireMediaSession_spec (advance w) i (now w) with ⟨_, hclock⟩ | ⟨h, _⟩
    · have hsame : (session (expireMediaSession (advance w) i (now w)) i).state ≠ .stopped := by
        rw [(Quiet.of_clockOnly hclock).session_eq]
        exact hne
      rw [if_neg hsame] at hstatus
      simp at hstatus
    · exact absurd h.2 hover

/-- The slot and the session id of a start are free. -/
structure Free (w : World) (i : Nat) (c : MediaSession) : Prop where
  lt : i < w.sessions.length
  vacant : (session w i).state = .empty
  named : c.sessionId ≠ []
  fresh : ∀ j, (session w j).sessionId ≠ c.sessionId
  short : c.sn.length < 128
  starting : c.state = .starting

theorem Free.quiet {w' : World} (h : Free w i c) (hq : Quiet w w') : Free w' i c := by
  refine ⟨hq.sessions ▸ h.lt, ?_, h.named, ?_, h.short, h.starting⟩
  · rw [hq.session_eq]
    exact h.vacant
  · rw [hq.session_eq]
    exact h.fresh

theorem Free.fenced (h : Free w i c) (epoch : Nat) : Free w i (fenced c epoch) := by
  obtain ⟨minimum, he⟩ := fenced_keeps c epoch
  rw [he]
  exact ⟨h.lt, h.vacant, h.named, h.fresh, h.short, h.starting⟩

theorem resolves_entered (h : Free w i c) : findSessionById (setSession w i c) c.sessionId = some i := by
  have hi : i < (setSession w i c).sessions.length := by simpa [setSession] using h.lt
  have hslots := session_setSession w i c h.lt
  cases hfind : findSessionById (setSession w i c) c.sessionId with
  | none =>
      have hnone := findSessionById_none h.named hfind i
      rw [hslots] at hnone
      simp at hnone
  | some j =>
      have hj := (findSessionById_some hfind).2.1
      rw [hslots] at hj
      by_cases hij : j = i
      · rw [hij]
      · rw [Function.update_of_ne hij] at hj
        exact absurd hj (h.fresh j)

theorem takeOver_clients (w : World) (c : MediaSession) :
    SameClients (c.cameraSource = true) c.sn w (takeOver w c) := by
  simp only [takeOver]
  split
  next hcam => exact .map (fun d => { d with cameraRouteRevoked := true }) rfl hcam fun d => by constructor <;> rfl
  · exact .of_eq rfl

def entered (w : World) (i : Nat) (c : MediaSession) : World :=
  limitKeyframes (setSession { w with
    routes := putEntry c.sn c.rtpPort c.rtcpPort w.routes
    clients := retarget c.sn c.rtpPort c.rtcpPort w.clients } i c) c.sn

theorem entered_session (h : Free w i c) : session (entered w i c) = Function.update (session w) i c :=
  session_setSession _ i c h.lt

theorem entered_frame (h : Free w i c) (hstatus : 400 ≤ (mvChecked (entered w i c) i).1.status) :
    Frame (fun _ => False) False (Enters c.sessionId w (mvChecked (entered w i c) i).2) c.sn c.sessionId w
      (mvChecked (entered w i c) i).2 ∧
    (mvChecked (entered w i c) i).2.janus = w.janus ++ [.destroy c.mountpointId] := by
  have hslots := entered_session h
  have hself : session (entered w i c) i = c := by simp [hslots]
  have hfind : findSessionById (entered w i c) (session (entered w i c) i).sessionId = some i := by
    rw [hself]
    exact resolves_entered ⟨h.lt, h.vacant, h.named, h.fresh, h.short, h.starting⟩
  have hl : live (session (entered w i c) i) = true := by
    rw [hself, live_iff]
    exact .inr h.starting
  obtain ⟨s, hs, hid, hreg, hjanus⟩ := mvChecked_frame hfind hl hstatus
  rw [hself] at hid hreg hjanus
  generalize (mvChecked (entered w i c) i).2 = w' at hreg hjanus ⊢
  have hslots' : session w' = Function.update (session (entered w i c)) i s := congrArg Registry.slots hreg
  have hroutes : w'.routes = dropEntry c.sn (putEntry c.sn c.rtpPort c.rtcpPort w.routes) := congrArg Registry.routes hreg
  have henters : Enters c.sessionId w w' := by
    refine ⟨h.fresh, i, ?_⟩
    rw [hslots']
    simpa using ⟨hid.sessionId, hs⟩
  refine ⟨⟨fun j hj _ => .inl ?_, ?_, .inr (.inl henters), ?_⟩, hjanus⟩
  · have hij : j ≠ i := by
      rintro rfl
      exact hj h.vacant
    rw [hslots', Function.update_of_ne hij, hslots, Function.update_of_ne hij]
  · rw [hroutes, dropEntry_others, putEntry_filter h.short]
  · have hdrop := (dropTargets_clients (entered w i c) c.sn (congrArg Registry.clients hreg)).mono fun _ => henters
    have hput : SameClients (Enters c.sessionId w w') c.sn w { w with
        clients := retarget c.sn c.rtpPort c.rtcpPort w.clients } :=
      .map (updateTargets c.rtpPort c.rtcpPort) rfl henters (updateTargets_peer _ _)
    have hlimit : SameClients (Enters c.sessionId w w') c.sn
        { w with clients := retarget c.sn c.rtpPort c.rtcpPort w.clients } (entered w i c) :=
      .map (fun d => { d with keyframeFeedbackIntervalMs := 500 }) rfl henters fun d => by constructor <;> rfl
    exact (hput.trans hlimit).trans hdrop

theorem mvCommit_frame (h : Free w i c) (hstatus : 400 ≤ (mvCommit w i c).1.status) :
    Frame (fun _ => False) False (c.cameraSource = true ∨ Enters c.sessionId w (mvCommit w i c).2) c.sn c.sessionId w
      (mvCommit w i c).2 ∧
    (mvCommit w i c).2.janus = w.janus ++ [.destroy c.mountpointId] := by
  have hd := h.fenced w.nextEpoch
  obtain ⟨minimum, he⟩ := fenced_keeps c w.nextEpoch
  have hid : (fenced c w.nextEpoch).sessionId = c.sessionId := by rw [he]
  have hsn : (fenced c w.nextEpoch).sn = c.sn := by rw [he]
  have hmount : (fenced c w.nextEpoch).mountpointId = c.mountpointId := by rw [he]
  have hcam : (fenced c w.nextEpoch).cameraSource = c.cameraSource := by rw [he]
  simp only [mvCommit] at hstatus ⊢
  rw [← hid, ← hsn, ← hmount, ← hcam]
  generalize fenced c w.nextEpoch = d at hd hstatus ⊢
  have htake := takeOver_spec w d
  have hclients := takeOver_clients w d
  have hjanus : (takeOver w d).janus = w.janus := by
    simp only [takeOver]
    split <;> rfl
  have hsame : session (takeOver w d) = session w := htake.session_eq
  generalize takeOver w d = w₁ at htake hclients hjanus hsame hstatus ⊢
  cases hup : upsertRoute w₁ d.sn d.rtpPort d.rtcpPort with
  | none =>
      refine ⟨⟨fun j _ _ => .inl (congrFun hsame j), ?_, .inr (.inr htake.routes), hclients.mono .inl⟩, ?_⟩
      · exact congrArg _ htake.routes
      · exact congrArg (· ++ [JanusRequest.destroy d.mountpointId]) hjanus
  | some w₂ =>
      rw [hup] at hstatus
      obtain rfl := upsertRoute_some hup
      have hd₁ : Free w₁ i d := by
        refine ⟨htake.sessions ▸ hd.lt, ?_, hd.named, ?_, hd.short, hd.starting⟩
        · rw [hsame]
          exact hd.vacant
        · rw [hsame]
          exact hd.fresh
      obtain ⟨hframe, hlog⟩ := entered_frame hd₁ hstatus
      change Frame _ _ (_ ∨ Enters _ w (mvChecked (entered w₁ i d) i).2) _ _ w (mvChecked (entered w₁ i d) i).2 ∧
        (mvChecked (entered w₁ i d) i).2.janus = _
      generalize (mvChecked (entered w₁ i d) i).2 = w' at hframe hlog ⊢
      have henters : Enters d.sessionId w₁ w' ↔ Enters d.sessionId w w' := by simp only [Enters, hsame]
      rw [henters] at hframe
      refine ⟨⟨fun j hj _ => ?_, ?_, ?_, (hclients.mono .inl).trans (hframe.clients.mono .inr)⟩, by rw [hlog, hjanus]⟩
      · have hrecord := hframe.record j
        rw [hsame] at hrecord
        exact hrecord hj id
      · rw [hframe.others, htake.routes]
      · rcases hframe.own with ⟨_, hfalse⟩ | he | hr
        · exact hfalse.elim
        · exact .inr (.inl (henters.mp he))
        · exact .inr (.inr (hr.trans htake.routes))

theorem rechecks_creates {e : Env} {m : Nat} {alive : Prop} {log : List JanusRequest} (h : Rechecks e m alive log) :
    ∀ q ∈ log, creates q = none ∨ creates q = some m := by
  cases h <;> simp [creates]

theorem mvEnsure_log (w : World) (c : MediaSession) :
    ∃ log, (mvEnsure w c).2.janus = w.janus ++ log ∧ ∀ q ∈ log, creates q = none ∨ creates q = some c.mountpointId := by
  simp only [mvEnsure]
  cases c.descriptor with
  | none => exact ⟨[], by simp, by simp⟩
  | some d =>
      obtain ⟨log, hlog, hrechecks⟩ := janusEnsureFormat_log w c.mountpointId c.rtpPort c.rtcpPort c.pin d.track.codec
        d.track.payloadType (safeStrcpy 256 (mvFmtp d.track)) true trivial
      exact ⟨log, hlog, rechecks_creates hrechecks⟩

theorem mvReadBack_frame (h : Free w i c) (hstatus : 400 ≤ (mvReadBack w i c).1.status) :
    Frame (fun _ => False) False (c.cameraSource = true ∨ Enters c.sessionId w (mvReadBack w i c).2) c.sn c.sessionId w
      (mvReadBack w i c).2 ∧
    ∃ front, (mvReadBack w i c).2.janus = w.janus ++ (front ++ [.destroy c.mountpointId]) ∧
      ∀ q ∈ front, creates q = none ∨ creates q = some c.mountpointId := by
  have hq := mvEnsure_quiet w c
  obtain ⟨log, hlog, hcreates⟩ := mvEnsure_log w c
  simp only [mvReadBack] at hstatus ⊢
  generalize mvEnsure w c = answer at hq hlog hstatus ⊢
  obtain ⟨outcome, w₁⟩ := answer
  have hdestroy : Frame (fun _ => False) False (c.cameraSource = true ∨ Enters c.sessionId w
      (janusDestroyMountpoint w₁ c.mountpointId)) c.sn c.sessionId w (janusDestroyMountpoint w₁ c.mountpointId) ∧
      ∃ front, (janusDestroyMountpoint w₁ c.mountpointId).janus = w.janus ++ (front ++ [.destroy c.mountpointId]) ∧
        ∀ q ∈ front, creates q = none ∨ creates q = some c.mountpointId := by
    refine ⟨.of_quiet (hq.trans (janusSend_quiet _ _)), log, ?_, hcreates⟩
    rw [← List.append_assoc, ← hlog]
    rfl
  cases outcome with
  | unavailable => exact hdestroy
  | conflict => exact hdestroy
  | ready =>
      have hq₁ : Quiet w w₁ := hq
      obtain ⟨hframe, hcommit⟩ := mvCommit_frame (h.quiet hq₁) hstatus
      dsimp only at hlog ⊢
      generalize (mvCommit w₁ i c).2 = w' at hframe hcommit ⊢
      refine ⟨(hframe.after_quiet hq₁).mono (Or.imp_right (.after hq₁)), log, ?_, hcreates⟩
      rw [hcommit, hlog, List.append_assoc]

/-- How far the trace of a refused start can go. A session of the device whose
lease was over has been stopped; a camera start that got as far as a mountpoint
may have revoked the connections of its device. -/
structure Contained (late : MediaSession → Prop) (full : Prop) (sn id : CString) (camera : Bool) (w w' : World) :
    Prop where
  frame : Frame late full ((∃ j, late (session w j)) ∨ Enters id w w' ∨ camera = true ∧ Made w w') sn id w w'
  janus : ∃ log, w'.janus = w.janus ++ log ∧ NothingLeft w.env w'.tick log

variable {late : MediaSession → Prop} {sn id : CString} {camera : Bool} {full : Prop}

theorem Contained.of_quiet
    {w w' : World} (h : Quiet w w')
    {log : List JanusRequest} (hlog : w'.janus = w.janus ++ log) (hleft : NothingLeft w.env w'.tick log) :
    Contained late full sn id camera w w' :=
  ⟨.of_quiet h, log, hlog, hleft⟩

theorem Contained.refl (w : World) :
    Contained late full sn id camera w w :=
  ⟨.of_quiet (.refl w), [], by simp, .unmade _ (by simp)⟩

theorem Contained.after
    {u v w : World} (hc : ClockOnly u v)
    (h : Contained late full sn id camera v w) : Contained late full sn id camera u w := by
  obtain ⟨_, _, _, rfl⟩ := hc
  exact ⟨⟨h.frame.record, h.frame.others, h.frame.own, h.frame.clients⟩, h.janus⟩

theorem readBack_contained (h : Free w i c) {w₂ : World} (hq : Quiet w w₂) {front : List JanusRequest} {q : JanusRequest}
    (hlog : w₂.janus = w.janus ++ (front ++ [q])) (hfront : ∀ q ∈ front, creates q = none)
    (hmade : creates q = some c.mountpointId) (hstatus : 400 ≤ (mvReadBack w₂ i c).1.status) :
    Contained (fun _ => False) False c.sn c.sessionId c.cameraSource w (mvReadBack w₂ i c).2 := by
  obtain ⟨hframe, later, hlater, hcreates⟩ := mvReadBack_frame (h.quiet hq) hstatus
  generalize (mvReadBack w₂ i c).2 = w' at hframe hlater ⊢
  have hall : w'.janus = w.janus ++ ((front ++ [q] ++ later) ++ [.destroy c.mountpointId]) := by
    rw [hlater, hlog]
    simp only [List.append_assoc]
  have hmade' : Made w w' := ⟨_, c.mountpointId, hall, q, by simp, hmade⟩
  refine ⟨(hframe.after_quiet hq).mono ?_, _, hall, .undone _ _ ?_⟩
  · rintro (hcam | henters)
    · exact .inr (.inr ⟨hcam, hmade'⟩)
    · exact .inr (.inl (henters.after hq))
  · intro p hp
    simp only [List.mem_append, List.mem_singleton] at hp
    rcases hp with (hp | rfl) | hp
    · exact .inl (hfront p hp)
    · exact .inr hmade
    · exact hcreates p hp

theorem Contained.relax {w w' : World}
    (h : Contained (fun _ => False) full sn id camera w w') : Contained late full sn id camera w w' := by
  obtain ⟨hframe, hjanus⟩ := h
  refine ⟨⟨fun j hne _ => hframe.record j hne not_false, hframe.others, ?_, hframe.clients.mono ?_⟩, hjanus⟩
  · exact hframe.own.imp_left fun ⟨_, hfalse⟩ => hfalse.elim
  · exact Or.imp_left fun ⟨_, hfalse⟩ => hfalse.elim

theorem mvCreate_contained (h : Free w i c) (t : Track) (hstatus : 400 ≤ (mvCreate w i c t).1.status) :
    Contained (fun _ => False) False c.sn c.sessionId c.cameraSource w (mvCreate w i c t).2 := by
  have hq₁ := janusSend_quiet w (.info c.mountpointId)
  have hinfo : Contained (fun _ => False) False c.sn c.sessionId c.cameraSource w (janusSend w (.info c.mountpointId)) :=
    .of_quiet hq₁ rfl (.unmade _ (by simp [creates]))
  have hq := hq₁.trans (janusCreateFormat_quiet (janusSend w (.info c.mountpointId)) c.mountpointId c.rtpPort
    c.rtcpPort c.pin t.codec t.payloadType (safeStrcpy 256 (mvFmtp t)))
  have hlog : (janusCreateFormat (janusSend w (.info c.mountpointId)) c.mountpointId c.rtpPort c.rtcpPort c.pin
      t.codec t.payloadType (safeStrcpy 256 (mvFmtp t))).2.janus = w.janus ++ ([.info c.mountpointId] ++
        [.create c.mountpointId c.rtpPort c.rtcpPort c.pin t.codec t.payloadType (safeStrcpy 256 (mvFmtp t))]) := by
    simp [janusCreateFormat, janusSend, advance]
  have hanswer : (janusCreateFormat (janusSend w (.info c.mountpointId)) c.mountpointId c.rtpPort c.rtcpPort c.pin
      t.codec t.payloadType (safeStrcpy 256 (mvFmtp t))).1 = w.env.janusCreated (w.tick + 1) := rfl
  have htick : (janusCreateFormat (janusSend w (.info c.mountpointId)) c.mountpointId c.rtpPort c.rtcpPort c.pin
      t.codec t.payloadType (safeStrcpy 256 (mvFmtp t))).2.tick = w.tick + 2 := rfl
  simp only [mvCreate] at hstatus ⊢
  generalize janusCreateFormat (janusSend w (.info c.mountpointId)) c.mountpointId c.rtpPort c.rtcpPort c.pin
    t.codec t.payloadType (safeStrcpy 256 (mvFmtp t)) = created at hq hlog hanswer htick hstatus ⊢
  obtain ⟨made, w₂⟩ := created
  cases hfound : w.env.janusInfo w.tick with
  | none => exact hinfo
  | some info =>
      rw [hfound] at hstatus
      dsimp only at hq hlog hanswer htick hstatus ⊢
      split
      · exact hinfo
      next habsent =>
        rw [if_neg habsent] at hstatus
        cases made with
        | true => exact readBack_contained h hq hlog (by simp [creates]) rfl hstatus
        | false =>
            refine .of_quiet hq hlog (.refused _ _ (by simp [creates]) ?_)
            change w.env.janusCreated (w₂.tick - 1) = false
            rw [htick]
            exact hanswer.symm

theorem Contained.vacates {w₁ w' : World} (hv : Vacates w i w₁)
    (hj : w₁.janus = w.janus)
    (h : Contained (fun _ => False) False sn id camera w₁ w') (hfresh : ∀ j, (session w j).sessionId ≠ id) :
    Contained (fun _ => False) (maxMediaSessions ≤ w.sessions.length) sn id camera w w' := by
  have henters : Enters id w₁ w' → Enters id w w' := fun he => ⟨hfresh, he.2⟩
  have hmade : Made w₁ w' → Made w w' := by
    intro hm
    rw [Made, hj] at hm
    exact hm
  obtain ⟨hframe, log, hlog, hleft⟩ := h
  have hkept : ∀ j, (session w₁ j).state ≠ .empty → session w' j = session w₁ j := fun j hne =>
    (hframe.record j hne not_false).resolve_right fun h => h.2
  refine ⟨⟨fun j hne _ => ?_, by rw [hframe.others, hv.routes], ?_, ?_⟩, log, by rw [hlog, hj], hv.env ▸ hleft⟩
  · rcases hv.slots with hs | ⟨⟨hfinished, hfull⟩, hs⟩
    · rw [← hs] at hne ⊢
      exact .inl (hkept j hne)
    · by_cases hij : j = i
      · rw [hij]
        exact .inr ⟨hfinished, hfull⟩
      · have hsame : session w₁ j = session w j := by rw [hs, Function.update_of_ne hij]
        rw [← hsame] at hne ⊢
        exact .inl (hkept j hne)
  · rcases hframe.own with ⟨_, hfalse⟩ | he | hr
    · exact hfalse.elim
    · exact .inr (.inl (henters he))
    · exact .inr (.inr (hr.trans hv.routes))
  · refine (SameClients.of_eq hv.clients).trans (hframe.clients.mono ?_)
    rintro (⟨_, hfalse⟩ | he | ⟨hcam, hm⟩)
    · exact hfalse.elim
    · exact .inr (.inl (henters he))
    · exact .inr (.inr ⟨hcam, hmade hm⟩)

theorem mvAllocate_contained (hc : Vacant w c) (r : MediaStart) (t : Int)
    (hstatus : 400 ≤ (mvAllocate w c r t).1.status) :
    Contained (fun _ => False) (maxMediaSessions ≤ w.sessions.length) c.sn c.sessionId c.cameraSource w
      (mvAllocate w c r t).2 := by
  simp only [mvAllocate] at hstatus ⊢
  cases hports : allocatePortPair w with
  | none => exact .refl w
  | some pair =>
      rw [hports] at hstatus
      dsimp only at hstatus ⊢
      cases hslot : allocateSessionSlot w with
      | none => exact .refl w
      | some slot =>
          rw [hslot] at hstatus
          obtain ⟨i, w₁⟩ := slot
          have hv := allocateSessionSlot_spec hslot
          have hj : w₁.janus = w.janus := by
            obtain ⟨sessions, rfl⟩ := allocateSessionSlot_sessions hslot
            rfl
          apply Contained.vacates hv hj _ hc.fresh
          dsimp only at hstatus ⊢
          split
          · exact .refl w₁
          next hgeneration =>
            rw [if_neg hgeneration] at hstatus
            have hfree : Free (nextRouteGeneration w₁) i (mvRecord c pair.1 pair.2 (nextRouteGeneration w₁).routeGeneration t
                r.leaseExpiresAt) := by
              refine ⟨hv.lt, hv.vacant, hc.candidate.named.1, fun j => ?_, hc.candidate.sn.2, rfl⟩
              rcases hv.slot j with h | h
              · exact h ▸ hc.fresh j
              · change (session w₁ j).sessionId ≠ _
                rw [h]
                exact hc.candidate.named.1.symm
            obtain ⟨hframe, hjanus⟩ := mvCreate_contained hfree r.descriptor.track hstatus
            exact ⟨⟨hframe.record, hframe.others, hframe.own, hframe.clients⟩, hjanus⟩

theorem mvPin_contained (hc : Vacant w c) (r : MediaStart) (t : Int) (hstatus : 400 ≤ (mvPin w c r t).1.status) :
    Contained (fun _ => False) (maxMediaSessions ≤ w.sessions.length) c.sn c.sessionId c.cameraSource w
      (mvPin w c r t).2 := by
  have hclock := advance_clockOnly w
  simp only [mvPin] at hstatus ⊢
  split
  next hpin =>
    rw [if_pos hpin] at hstatus
    exact mvAllocate_contained hc r t hstatus
  next hpin =>
    rw [if_neg hpin] at hstatus
    cases hrandom : mvRandomPin w with
    | none => exact .after hclock (.refl _)
    | some pin =>
        rw [hrandom] at hstatus
        have hlen := mvRandomPin_length hrandom
        have hc₁ : Vacant (advance w) { c with pin := pin } :=
          (hc.quiet (advance_quiet w)).same (by constructor <;> rfl) (by simp only; omega)
        exact .after hclock (mvAllocate_contained hc₁ r t hstatus)

end Commit

theorem NothingLeft.prefixed {e : Env} {tick : Nat} {log : List JanusRequest} (h : NothingLeft e tick log)
    {first : List JanusRequest} (hfirst : ∀ q ∈ first, creates q = none) : NothingLeft e tick (first ++ log) := by
  cases h with
  | unmade _ h =>
      refine .unmade _ fun q hq => ?_
      rcases List.mem_append.mp hq with hq | hq
      · exact hfirst q hq
      · exact h q hq
  | refused front q h hno =>
      rw [← List.append_assoc]
      refine .refused _ q (fun p hp => ?_) hno
      rcases List.mem_append.mp hp with hp | hp
      · exact hfirst p hp
      · exact h p hp
  | undone front m h =>
      rw [← List.append_assoc]
      refine .undone _ m fun p hp => ?_
      rcases List.mem_append.mp hp with hp | hp
      · exact .inl (hfirst p hp)
      · exact h p hp

section Owner

variable {w : World} {t : Int}

def Late (w : World) (sn : CString) (t : Int) (s : MediaSession) : Prop :=
  live s = true ∧ s.sn = sn ∧ leaseOver w s t = true

/-- A session of the device whose lease is over shares its id with no other
record. -/
def Single (late : MediaSession → Prop) (w : World) : Prop :=
  ∀ k j, late (session w k) → (session w j).sessionId = (session w k).sessionId → j = k

variable {late : MediaSession → Prop} {c : MediaSession}

theorem Single.resolves (h : Single late w) {k : Nat} (hk : late (session w k))
    (hn : (session w k).sessionId ≠ []) : findSessionById w (session w k).sessionId = some k := by
  cases hfind : findSessionById w (session w k).sessionId with
  | none => exact absurd rfl (findSessionById_none hn hfind k)
  | some j => rw [h k j hk (findSessionById_some hfind).2.1]

theorem expireOwner_cases (hs : Sane (registry w)) {sn : CString} (hsingle : Single (Late w sn t) w) :
    ClockOnly w (expireOptional w (findActiveSessionForSn w sn) t) ∨
    ∃ k s, Late w sn t (session w k) ∧
      registry (expireOptional w (findActiveSessionForSn w sn) t) = { registry w with
        slots := Function.update (session w) k s
        routes := dropEntry sn w.routes
        clients := dropTargets (registry w) sn } ∧
      (expireOptional w (findActiveSessionForSn w sn) t).janus = w.janus ++ [.destroy (session w k).mountpointId] := by
  cases hfind : findActiveSessionForSn w sn with
  | none => exact .inl (.refl w)
  | some k =>
      obtain ⟨_, hl, hsn, _⟩ := findActiveSessionForSn_some hfind
      by_cases hover : leaseOver w (session w k) t = true
      · have hlate : Late w sn t (session w k) := ⟨hl, hsn, hover⟩
        have hn : (session w k).sessionId ≠ [] := ((hs.record k).sessionId (live_not_empty hl)).1
        obtain ⟨s, _, _, hreg, hjanus⟩ := expire_teardown (hsingle.resolves hlate hn) hl hover
        rw [hsn] at hreg
        exact .inr ⟨k, s, hlate, hreg, hjanus⟩
      · rcases expireMediaSession_spec w k t with ⟨_, hclock⟩ | ⟨h, _⟩
        · exact .inl hclock
        · exact absurd h.2 hover

theorem Contained.after_owner {sn id : CString} {camera : Bool} {full : Prop} {w₁ w' : World}
    {k m : Nat}
    {s : MediaSession} (hlate : late (session w k)) (henv : w₁.env = w.env)
    (hreg : registry w₁ = { registry w with
      slots := Function.update (session w) k s
      routes := dropEntry sn w.routes
      clients := dropTargets (registry w) sn })
    (hj : w₁.janus = w.janus ++ [.destroy m]) (h : Contained (fun _ => False) full sn id camera w₁ w') :
    Contained late full sn id camera w w' := by
  obtain ⟨hframe, log, hlog, hleft⟩ := h
  have hslots : session w₁ = Function.update (session w) k s := congrArg Registry.slots hreg
  have hroutes : w₁.routes = dropEntry sn w.routes := congrArg Registry.routes hreg
  have hclients : w₁.clients = dropTargets (registry w) sn := congrArg Registry.clients hreg
  refine ⟨⟨fun j hne hnot => ?_, by rw [hframe.others, hroutes, dropEntry_others], .inl ⟨k, hlate⟩, ?_⟩,
    .destroy m :: log, by rw [hlog, hj, List.append_assoc]; rfl, ?_⟩
  · have hjk : j ≠ k := by
      rintro rfl
      exact hnot hlate
    have hsame : session w₁ j = session w j := by rw [hslots, Function.update_of_ne hjk]
    have hrecord := hframe.record j
    rw [hsame] at hrecord
    exact hrecord hne not_false
  · have htaken : (∃ j, late (session w j)) := ⟨k, hlate⟩
    exact ((dropTargets_clients w sn hclients).mono fun _ => .inl htaken).trans (hframe.clients.mono fun _ => .inl htaken)
  · have hfirst : ∀ q ∈ [JanusRequest.destroy m], creates q = none := by simp [creates]
    exact henv ▸ hleft.prefixed hfirst

theorem mvAdmit_contained (hc : Vacant w c) (r : MediaStart) (hsingle : Single (Late w c.sn t) w)
    (hstatus : 400 ≤ (mvAdmit w c r t).1.status) :
    Contained (Late w c.sn t) (maxMediaSessions ≤ w.sessions.length) c.sn c.sessionId c.cameraSource w
      (mvAdmit w c r t).2 := by
  have hset := expireOptional_settles w (findActiveSessionForSn w c.sn) t
  have hpath := expireOptional_path (p := anything) w (findActiveSessionForSn w c.sn) t
  have hc₁ := hc.settles hset (hpath.sane hc.sane)
  have hcases := expireOwner_cases hc.sane hsingle
  simp only [mvAdmit] at hstatus ⊢
  generalize expireOptional w (findActiveSessionForSn w c.sn) t = w₁ at hset hc₁ hcases hstatus ⊢
  have hfinish : ∀ w', Contained (fun _ => False) (maxMediaSessions ≤ w₁.sessions.length) c.sn c.sessionId c.cameraSource w₁ w' →
      Contained (Late w c.sn t) (maxMediaSessions ≤ w.sessions.length) c.sn c.sessionId c.cameraSource w w' := by
    intro w' h
    rw [hset.length] at h
    rcases hcases with hclock | ⟨k, s, hlate, hreg, hjanus⟩
    · exact h.relax.after hclock
    · exact h.after_owner hlate hset.env hreg hjanus
  apply hfinish
  by_cases hbusy : (findActiveSessionForSn w₁ c.sn).isSome = true
  · rw [if_pos hbusy]
    exact .refl w₁
  · rw [if_neg hbusy] at hstatus ⊢
    by_cases hformat : supported w₁.evidence r = false
    · rw [if_pos hformat]
      exact .refl w₁
    · rw [if_neg hformat] at hstatus ⊢
      exact mvPin_contained hc₁ r t hstatus

def consulted (w : World) (c : MediaSession) (r : MediaStart) : World :=
  if c.contractVersion = 3 then (mediaV3BeginDeadline w c r.leaseExpiresAt).2 else w

theorem mvFresh_contained (hc : Vacant w c) (r : MediaStart)
    (hsingle : Single (Late (consulted w c r) c.sn t) w) (hstatus : 400 ≤ (mvFresh w c r t).1.status) :
    Contained (Late (consulted w c r) c.sn t) (maxMediaSessions ≤ w.sessions.length) c.sn c.sessionId c.cameraSource w
      (mvFresh w c r t).2 := by
  simp only [mvFresh, consulted] at hsingle hstatus ⊢
  by_cases hv : c.contractVersion = 3
  · simp only [if_pos hv] at hsingle hstatus ⊢
    obtain ⟨hclock, hcase⟩ := begin_cases w c r.leaseExpiresAt
    generalize mediaV3BeginDeadline w c r.leaseExpiresAt = answer at hclock hcase hsingle hstatus ⊢
    obtain ⟨accepted, w₁⟩ := answer
    have hq : Quiet w w₁ := .of_clockOnly hclock
    dsimp only at hclock hsingle hstatus ⊢
    obtain rfl | ⟨d, rfl, _, _⟩ := hcase
    · exact .after hclock (.refl w₁)
    · have hc₁ := (hc.quiet hq).same (d := { c with issuerExpiryUtc := r.leaseExpiresAt, monotonicDeadlineMs := d })
        (by constructor <;> rfl) hc.candidate.pin
      have hsingle₁ : Single (Late w₁ c.sn t) w₁ := by
        intro k j
        rw [hq.session_eq]
        exact hsingle k j
      have hadmit := mvAdmit_contained hc₁ r hsingle₁ hstatus
      rw [hq.sessions] at hadmit
      exact hadmit.after hclock
  · simp only [if_neg hv] at hsingle hstatus ⊢
    exact mvAdmit_contained hc r hsingle hstatus

theorem janusEnsureFormat_nothingLeft (w : World) (m : Nat) (rtp rtcp : Int) (pin codec : CString) (pt : Int)
    (fmtp : CString) (strict : Bool) (h : (janusEnsureFormat w m rtp rtcp pin codec pt fmtp strict).1 ≠ .ready) :
    ∃ log, (janusEnsureFormat w m rtp rtcp pin codec pt fmtp strict).2.janus = w.janus ++ log ∧
      NothingLeft w.env (janusEnsureFormat w m rtp rtcp pin codec pt fmtp strict).2.tick log := by
  have hasked : ∀ tick, NothingLeft w.env tick [.info m] := fun tick => .unmade _ (by simp [creates])
  simp only [janusEnsureFormat] at h ⊢
  cases hinfo : w.env.janusInfo w.tick with
  | none => exact ⟨[.info m], rfl, hasked _⟩
  | some info =>
      rw [hinfo] at h
      dsimp only at h ⊢
      split
      · split <;> exact ⟨[.info m], rfl, hasked _⟩
      next hfound =>
        rw [if_neg hfound] at h
        have hno : w.env.janusCreated (w.tick + 1) = false := by
          cases hcreated : w.env.janusCreated (w.tick + 1) with
          | false => rfl
          | true =>
              have hyes : (janusCreateFormat (janusSend w (.info m)) m rtp rtcp pin codec pt fmtp).1 = true := hcreated
              simp [hyes] at h
        refine ⟨[.info m] ++ [.create m rtp rtcp pin codec pt fmtp], ?_, .refused _ _ (by simp [creates]) hno⟩
        simp [janusCreateFormat, janusSend, advance]

theorem mvEnsure_nothingLeft (w : World) (s : MediaSession) (h : (mvEnsure w s).1 ≠ .ready) :
    ∃ log, (mvEnsure w s).2.janus = w.janus ++ log ∧ NothingLeft w.env (mvEnsure w s).2.tick log := by
  simp only [mvEnsure] at h ⊢
  cases hd : s.descriptor with
  | none => exact ⟨[], by simp, .unmade _ (by simp)⟩
  | some d =>
      rw [hd] at h
      exact janusEnsureFormat_nothingLeft w _ _ _ _ _ _ _ true h

theorem mvReplay_contained {full : Prop} {sn id : CString} {camera : Bool} {i : Nat}
    (hfind : findSessionById w (session w i).sessionId = some i) (r : MediaStart)
    (hstatus : 400 ≤ (mvReplay w i c r t).1.status) : Contained late full sn id camera w (mvReplay w i c r t).2 := by
  simp only [mvReplay] at hstatus ⊢
  by_cases hsame : sameStart (session w i) c r = false
  · rw [if_pos hsame]
    exact .refl w
  · rw [if_neg hsame] at hstatus ⊢
    rcases expireMediaSession_spec w i t with ⟨_, hclock⟩ | ⟨hover, _⟩
    · by_cases hl : live (session (expireMediaSession w i t) i) = true
      · rw [if_pos hl] at hstatus ⊢
        have hq := mvEnsure_quiet (expireMediaSession w i t) (session (expireMediaSession w i t) i)
        have hleft := mvEnsure_nothingLeft (expireMediaSession w i t) (session (expireMediaSession w i t) i)
        generalize mvEnsure (expireMediaSession w i t) (session (expireMediaSession w i t) i) = answer at hq hleft hstatus ⊢
        obtain ⟨outcome, w'⟩ := answer
        have hbad : outcome ≠ .ready := by
          rintro rfl
          simp at hstatus
        obtain ⟨log, hlog, hnothing⟩ := hleft hbad
        have hensured : Contained late full sn id camera w w' := (Contained.of_quiet hq hlog hnothing).after hclock
        cases outcome with
        | ready => exact absurd rfl hbad
        | conflict => exact hensured
        | unavailable => exact hensured
      · rw [if_neg hl] at hstatus
        simp at hstatus
    · obtain ⟨w₁, _, hrecord⟩ := expire_resolved hfind hover.1 hover.2
      have hl : live (session (expireMediaSession w i t) i) = false := by
        rw [hrecord]
        rfl
      simp [hl] at hstatus

/-- A session of the device of a start whose lease is over when the start looks
at it. -/
def Lapsing (w : World) (r : MediaStart) (s : MediaSession) : Prop :=
  Late (consulted (advance w) (filled r) r) r.sn (now w) s

theorem mvStart_contained {r : MediaStart} (hr : Admitted r) (hs : Sane (registry w)) (hsingle : Single (Lapsing w r) w)
    (hstatus : 400 ≤ (mvStart w r).1.status) :
    Contained (Lapsing w r) (maxMediaSessions ≤ w.sessions.length) r.sn r.sessionId (filled r).cameraSource w
      (mvStart w r).2 := by
  have hclock := advance_clockOnly w
  have hstay : Contained (Lapsing w r) (maxMediaSessions ≤ w.sessions.length) r.sn r.sessionId (filled r).cameraSource w
      (advance w) := .after hclock (.refl _)
  have hsn : (filled r).sn = r.sn := (filled_transcribes hr).sn
  have hid : (filled r).sessionId = r.sessionId := (filled_transcribes hr).sessionId
  simp only [mvStart] at hstatus ⊢
  cases hfill : mvFill (advance w) r with
  | none => exact hstay
  | some c =>
      rw [hfill] at hstatus
      obtain rfl := mvFill_some hfill
      have hcand : Candidate (filled r) := filled_candidate hr
      dsimp only at hstatus ⊢
      split
      · exact hstay
      next hlease =>
        rw [if_neg hlease] at hstatus
        split
        · exact hstay
        next hcoordinates =>
          rw [if_neg hcoordinates] at hstatus
          cases hfind : findSessionById (advance w) (filled r).sessionId with
          | some i =>
              rw [hfind] at hstatus
              have hresolves : findSessionById (advance w) (session (advance w) i).sessionId = some i := by
                rw [(findSessionById_some hfind).2.1]
                exact hfind
              exact (mvReplay_contained hresolves r hstatus).after hclock
          | none =>
              rw [hfind] at hstatus
              have hc : Vacant (advance w) (filled r) := ⟨hs, hcand, findSessionById_none hcand.named.1 hfind⟩
              have hfresh := mvFresh_contained hc r (by rw [hsn]; exact hsingle) hstatus
              rw [hsn, hid] at hfresh
              exact hfresh.after hclock

end Owner

def lateClock : World :=
  { env := { sampleEnv (fun _ => true) with time := fun tick => if tick < 6 then 1000 else 5000 } }

def overdueDoor : World := run lateClock [.start false ⟨desktopRequest, desktopRequest_admitted⟩]

/-- A start whose codec the server has not been probed for. -/
def laterRequest : MediaStart :=
  { desktopRequest with
    sessionId := uuid "6"
    operationId := uuid "7"
    leaseId := uuid "8"
    streamInstanceId := uuid "9"
    leaseExpiresAt := 5600
    descriptor := ⟨[], uuid "5", bytes "desktop", none, { cameraTrack with codec := bytes "h265" }⟩ }

def failingJanus : World := { env := sampleEnv fun tick => decide (tick ≠ 12 ∧ tick < 775) }

/-- A stopped session of contract 2 in a table that is full of live sessions
otherwise. -/
def crowdedHall : World :=
  run failingJanus ([.start false ⟨desktopRequest, desktopRequest_admitted⟩,
    .update false ⟨2, bytes "door", uuid "1", uuid "3", uuid "4", uuid "5", .stop []⟩] ++
    List.replicate 128 (.v1 .post (sessionsPrefix ++ bytes "start") (startWithPorts "a" "gate")))

def hallRequest : MediaStart :=
  { laterRequest with sn := bytes "hall", leaseExpiresAt := 1600, descriptor := desktopRequest.descriptor }

end EtranProcessing.Ingress.FailedStart
