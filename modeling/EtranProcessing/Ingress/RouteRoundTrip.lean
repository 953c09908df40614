import EtranProcessing.Ingress.Teardown

namespace EtranProcessing.Ingress.RouteRoundTrip

open State Clock JsonText Routes Stores Lifecycle MediaV2 EventLoop Moves Settling SessionTable LegacyPaths ModernPaths
open Teardown Lease

/-- The two ways to start a session, behind the checks of the request itself. -/
inductive StartCall
  | legacy (body : CString)
  | modern (cameraNegotiated : Bool) (request : AdmittedStart)

def StartCall.begin (w : World) : StartCall → Reply × World
  | .legacy body => handleMediaSessionStart w body
  | .modern negotiated request => mediaV2Start w negotiated request.1

def StartCall.sn : StartCall → CString
  | .legacy body => jsonGetString body "sn" 128
  | .modern _ request => request.1.sn

def OnlyJoins (i : Nat) (w w' : World) : Prop := ∀ j, j ≠ i → live (session w' j) = true → session w' j = session w j

/-- The id of record i resolves to another record, which has been stopped in
its place. -/
def Overshadowed (w : World) (i : Nat) : Prop :=
  ∃ j, findSessionById w (session w i).sessionId = some j ∧ (session w j).state = .stopped

/-- The route table after a start: the device has its entry, unless the session
ran out while it started and its id took down an older record. -/
def Routed (sn : CString) (w w' : World) : Prop :=
  ∃ i, OnlyJoins i w w' ∧ ((∃ rtp rtcp, w'.routes = putEntry sn rtp rtcp w.routes) ∨ Overshadowed w' i)

variable {sn : CString} {i : Nat} {w w' : World}

theorem OnlyJoins.trans {u v w : World} (h : OnlyJoins i u v) (h' : OnlyJoins i v w) : OnlyJoins i u w := by
  intro j hj hl
  have he := h' j hj hl
  rw [he]
  exact h j hj (he ▸ hl)

theorem Quiet.onlyJoins (h : Quiet w w') (i : Nat) : OnlyJoins i w w' := by
  intro j _ _
  rw [h.session_eq]

theorem Settles.onlyJoins (h : Settles w w') (i : Nat) : OnlyJoins i w w' := fun j _ => h.live j

theorem Vacates.onlyJoins (h : Vacates w i w') : OnlyJoins i w w' := fun j _ => h.live j

theorem setSession_onlyJoins (w : World) (s : MediaSession) (hi : i < w.sessions.length) :
    OnlyJoins i w (setSession w i s) := by
  intro j hj _
  rw [session_setSession w i s hi, Function.update_of_ne hj]

theorem Quiet.overshadowed (h : Quiet w w') (ho : Overshadowed w i) : Overshadowed w' i := by
  obtain ⟨j, hfind, hstate⟩ := ho
  refine ⟨j, ?_, ?_⟩
  · rw [h.session_eq, h.settles.findSessionById]
    exact hfind
  · rw [h.session_eq]
    exact hstate

theorem Routed.before {u v w : World} (h : Quiet u v) (hr : Routed sn v w) : Routed sn u w := by
  obtain ⟨i, hjoins, hroutes⟩ := hr
  refine ⟨i, (Quiet.onlyJoins h i).trans hjoins, ?_⟩
  rwa [← h.routes]

theorem Routed.after {u v w : World} (hr : Routed sn u v) (h : Quiet v w) : Routed sn u w := by
  obtain ⟨i, hjoins, hroutes⟩ := hr
  refine ⟨i, hjoins.trans (Quiet.onlyJoins h i), ?_⟩
  rcases hroutes with ⟨rtp, rtcp, he⟩ | ho
  · exact .inl ⟨rtp, rtcp, h.routes.trans he⟩
  · exact .inr (Quiet.overshadowed h ho)

theorem expire_survivor (w : World) (i : Nat) (t : Int) (h : (session (expireMediaSession w i t) i).state ≠ .stopped) :
    Quiet w (expireMediaSession w i t) ∨ Overshadowed (expireMediaSession w i t) i := by
  have hsettles := expireMediaSession_settles w i t
  obtain ⟨-, hclock⟩ | ⟨-, w₁, hclock, hstop⟩ := expireMediaSession_spec w i t
  · exact .inl (.of_clockOnly hclock)
  · have hq := Quiet.of_clockOnly hclock
    cases hk : stoppable w₁ (session w i).sessionId with
    | none =>
        left
        rw [hstop, stopMediaSession_none hk]
        exact hq
    | some k =>
        right
        obtain ⟨hfind, -⟩ := Option.filter_eq_some_iff.mp hk
        have hsame : session (expireMediaSession w i t) i = session w i := by
          rcases hsettles.slot i with he | he
          · exact he
          · exact absurd he.1 h
        refine ⟨k, ?_, ?_⟩
        · rw [hsame, hsettles.findSessionById, ← hq.settles.findSessionById]
          exact hfind
        · rw [hstop]
          exact (stopMediaSession_stops hk _).2

theorem survivor_routed {u w : World} {rtp rtcp t : Int} (hjoins : OnlyJoins i u w)
    (hroutes : w.routes = putEntry sn rtp rtcp u.routes)
    (halive : (session (expireMediaSession (advance w) i t) i).state ≠ .stopped) :
    Routed sn u (expireMediaSession (advance w) i t) := by
  have hsettles := (advance_quiet w).settles.trans (expireMediaSession_settles (advance w) i t)
  refine ⟨i, hjoins.trans (Settles.onlyJoins hsettles i), ?_⟩
  rcases expire_survivor (advance w) i t halive with hq | ho
  · exact .inl ⟨rtp, rtcp, hq.routes.trans hroutes⟩
  · exact .inr ho

theorem startChecked_routed {u w : World} {rtp rtcp : Int} (hjoins : OnlyJoins i u w)
    (hroutes : w.routes = putEntry sn rtp rtcp u.routes) (hstatus : (startChecked w i).1.status = 201) :
    Routed sn u (startChecked w i).2 := by
  simp only [startChecked] at hstatus ⊢
  split at hstatus
  · simp [State.failure] at hstatus
  next halive =>
    rw [if_neg halive]
    exact (survivor_routed hjoins hroutes halive).after (saveBoth_quiet _ _ _)

theorem mvChecked_routed {u w : World} {rtp rtcp : Int} (hjoins : OnlyJoins i u w)
    (hroutes : w.routes = putEntry sn rtp rtcp u.routes) (hstatus : (mvChecked w i).1.status = 201) :
    Routed sn u (mvChecked w i).2 := by
  simp only [mvChecked] at hstatus ⊢
  split at hstatus
  · simp [State.failure] at hstatus
  next halive =>
    rw [if_neg halive]
    exact (survivor_routed hjoins hroutes halive).after ((mvPersist_quiet _ _).trans (countStarted_quiet _))

section Legacy

theorem startActivate_routed {u w : World} {i : Nat} {r : StartRequest} {rtp rtcp : Int} (hi : i < w.sessions.length)
    (hjoins : OnlyJoins i u w) (hroutes : w.routes = putEntry r.fields.sn rtp rtcp u.routes)
    (hstatus : (startActivate w i r).1.status = 201) : Routed r.fields.sn u (startActivate w i r).2 := by
  apply startChecked_routed _ _ hstatus
  · exact rtp
  · exact rtcp
  · apply hjoins.trans
    apply OnlyJoins.trans (Quiet.onlyJoins (advance_quiet w) i)
    exact (setSession_onlyJoins (advance w) _ hi).trans (Quiet.onlyJoins (countStarted_quiet _) i)
  · exact hroutes

theorem startSlot_routed (w : World) (r : StartRequest) (rtp rtcp : Int)
    (hstatus : (startSlot w r rtp rtcp).1.status = 201) : Routed r.fields.sn w (startSlot w r rtp rtcp).2 := by
  simp only [startSlot] at hstatus ⊢
  cases hslot : allocateSessionSlot w with
  | none => simp [hslot, State.failure] at hstatus
  | some slot =>
      obtain ⟨i, w₁⟩ := slot
      have hv := allocateSessionSlot_spec hslot
      simp only [hslot] at hstatus ⊢
      generalize hs : startRecord (session w₁ i) r rtp rtcp (now w₁) = s at hstatus ⊢
      have hset := setSession_onlyJoins (advance w₁) s hv.lt
      have hlen : i < (setSession (advance w₁) i s).sessions.length := by
        simpa [setSession, advance] using hv.lt
      have hq := janusMountpointEnsure_quiet (setSession (advance w₁) i s) s.mountpointId rtp rtcp r.fields.pin
      cases hjanus : janusMountpointEnsure (setSession (advance w₁) i s) s.mountpointId rtp rtcp r.fields.pin with
      | mk ensure w₂ =>
          rw [hjanus] at hq hstatus
          cases ensure with
          | conflict | unavailable => simp [State.failure] at hstatus
          | ready =>
              simp only at hstatus ⊢
              cases hup : upsertRoute w₂ r.fields.sn rtp rtcp with
              | none => simp [hup, State.failure] at hstatus
              | some w₃ =>
                  simp only [hup] at hstatus ⊢
                  obtain rfl := upsertRoute_some hup
                  apply startActivate_routed _ _ _ hstatus
                  · exact rtp
                  · exact rtcp
                  · rw [show _ = w₂.sessions from rfl, hq.sessions]
                    exact hlen
                  · apply (Vacates.onlyJoins hv).trans
                    apply OnlyJoins.trans (Quiet.onlyJoins (advance_quiet w₁) i)
                    exact hset.trans (Quiet.onlyJoins hq i)
                  · have hsame : w₂.routes = w.routes := hq.routes.trans hv.routes
                    rw [← hsame]

theorem startPorts_routed (w : World) (r : StartRequest) (hstatus : (startPorts w r).1.status = 201) :
    Routed r.fields.sn w (startPorts w r).2 := by
  simp only [startPorts] at hstatus ⊢
  split at hstatus
  next hports =>
    rw [if_pos hports]
    cases hpair : allocatePortPair w with
    | none => simp [hpair, State.failure] at hstatus
    | some pair =>
        rw [hpair] at hstatus
        exact startSlot_routed w r pair.1 pair.2 hstatus
  next hports =>
    rw [if_neg hports]
    exact startSlot_routed w r _ _ hstatus

theorem startFresh_routed (w : World) (r : StartRequest) (hidle : findActiveSessionForSn w r.fields.sn = none)
    (hstatus : (startFresh w r).1.status = 201) : Routed r.fields.sn w (startFresh w r).2 := by
  simp only [startFresh, hidle, expireOptional] at hstatus ⊢
  exact startPorts_routed w r hstatus

theorem Quiet.idle {w w' : World} (h : Quiet w w') (sn : CString) :
    findActiveSessionForSn w' sn = findActiveSessionForSn w sn := by
  rw [findActiveSessionForSn, findActiveSessionForSn, h.sessions]

theorem startExisting_status (w : World) (i : Nat) (r : StartRequest) : (startExisting w i r).1.status ≠ 201 := by
  simp only [startExisting]
  split
  · simp [State.failure]
  · split <;> simp [State.failure]

theorem startLookup_routed (w : World) (r : StartRequest) (hidle : findActiveSessionForSn w r.fields.sn = none)
    (hstatus : (startLookup w r).1.status = 201) : Routed r.fields.sn w (startLookup w r).2 := by
  simp only [startLookup] at hstatus ⊢
  cases hfind : findSessionById w r.fields.sessionId with
  | none =>
      rw [hfind] at hstatus
      exact startFresh_routed w r hidle hstatus
  | some i =>
      simp only [hfind] at hstatus ⊢
      split at hstatus
      · simp [State.failure] at hstatus
      next hlegacy =>
        rw [if_neg hlegacy]
        split at hstatus
        · exact absurd hstatus (startExisting_status _ i r)
        next hdead =>
          rw [if_neg hdead]
          split at hstatus
          · split at hstatus <;> simp [State.failure] at hstatus
          next hstate =>
            rw [if_neg hstate]
            rcases expire_survivor w i r.requestAt hstate with hq | ⟨j, hj, hstopped⟩
            · apply Routed.before hq
              exact startFresh_routed _ r ((Quiet.idle hq _).trans hidle) hstatus
            · -- the record was found by its id, so the stop cannot have missed it
              have hsettles := expireMediaSession_settles w i r.requestAt
              have hid : (session (expireMediaSession w i r.requestAt) i).sessionId = r.fields.sessionId := by
                rw [(hsettles.identity i).sessionId]
                exact (findSessionById_some hfind).2.1
              rw [hid, hsettles.findSessionById, hfind] at hj
              obtain rfl := Option.some.inj hj
              exact absurd hstopped hstate

theorem handleMediaSessionStart_routed (w : World) (body : CString)
    (hidle : findActiveSessionForSn w (jsonGetString body "sn" 128) = none)
    (hstatus : (handleMediaSessionStart w body).1.status = 201) :
    Routed (jsonGetString body "sn" 128) w (handleMediaSessionStart w body).2 := by
  simp only [handleMediaSessionStart] at hstatus ⊢
  split at hstatus
  · simp [State.failure] at hstatus
  next hbody =>
    rw [if_neg hbody]
    split at hstatus
    · simp [State.failure] at hstatus
    next hfields =>
      rw [if_neg hfields]
      cases hlease : mediaLeaseTtl body (now w) (clampTtl (startFields body).ttlSec) with
      | none => simp [hlease, State.failure] at hstatus
      | some lease =>
          rw [hlease] at hstatus
          apply Routed.before (advance_quiet w)
          exact startLookup_routed (advance w) ⟨startFields body, lease.1, lease.2, now w⟩ hidle hstatus

end Legacy

section Modern

theorem mvCommit_routed (w : World) {i : Nat} (c : MediaSession) (hi : i < w.sessions.length)
    (hstatus : (mvCommit w i c).1.status = 201) : Routed c.sn w (mvCommit w i c).2 := by
  have hsn : (fenced c w.nextEpoch).sn = c.sn := by
    simp only [fenced]
    split <;> rfl
  have htake := takeOver_spec w (fenced c w.nextEpoch)
  have htaken : session (takeOver w (fenced c w.nextEpoch)) = session w := htake.session_eq
  simp only [mvCommit] at hstatus ⊢
  rw [← hsn]
  generalize fenced c w.nextEpoch = d at hstatus htake htaken ⊢
  cases hup : upsertRoute (takeOver w d) d.sn d.rtpPort d.rtcpPort with
  | none => simp [hup, State.failure] at hstatus
  | some w₁ =>
      simp only [hup] at hstatus ⊢
      obtain rfl := upsertRoute_some hup
      have hlt : i < (takeOver w d).sessions.length := htake.sessions ▸ hi
      have hset := setSession_onlyJoins { takeOver w d with
        routes := putEntry d.sn d.rtpPort d.rtcpPort (takeOver w d).routes
        clients := retarget d.sn d.rtpPort d.rtcpPort (takeOver w d).clients } d hlt
      apply mvChecked_routed _ _ hstatus
      · exact d.rtpPort
      · exact d.rtcpPort
      · intro j hj hl
        rw [← htaken]
        exact hset j hj hl
      · exact congrArg (putEntry d.sn d.rtpPort d.rtcpPort) htake.routes

theorem mvReadBack_routed (w : World) {i : Nat} (c : MediaSession) (hi : i < w.sessions.length)
    (hstatus : (mvReadBack w i c).1.status = 201) : Routed c.sn w (mvReadBack w i c).2 := by
  have hq := mvEnsure_quiet w c
  simp only [mvReadBack] at hstatus ⊢
  cases hensure : mvEnsure w c with
  | mk ensure w₁ =>
      rw [hensure] at hq hstatus
      cases ensure with
      | conflict | unavailable => simp [State.failure] at hstatus
      | ready =>
          apply Routed.before hq
          exact mvCommit_routed w₁ c (hq.sessions ▸ hi) hstatus

theorem mvCreate_routed (w : World) {i : Nat} (c : MediaSession) (t : Track) (hi : i < w.sessions.length)
    (hstatus : (mvCreate w i c t).1.status = 201) : Routed c.sn w (mvCreate w i c t).2 := by
  simp only [mvCreate] at hstatus ⊢
  cases hinfo : w.env.janusInfo w.tick with
  | none => simp [hinfo, State.failure] at hstatus
  | some info =>
      simp only [hinfo] at hstatus ⊢
      split at hstatus
      · simp [State.failure] at hstatus
      next hfound =>
        rw [if_neg hfound]
        split at hstatus
        next hcreated =>
          rw [if_pos hcreated]
          have hq := (janusSend_quiet w (.info c.mountpointId)).trans (janusCreateFormat_quiet
            (janusSend w (.info c.mountpointId)) c.mountpointId c.rtpPort c.rtcpPort c.pin t.codec t.payloadType
            (safeStrcpy 256 (mvFmtp t)))
          apply Routed.before hq
          exact mvReadBack_routed _ c (hq.sessions ▸ hi) hstatus
        · simp [State.failure] at hstatus

theorem mvAllocate_routed (w : World) (c : MediaSession) (r : MediaStart) (t : Int)
    (hstatus : (mvAllocate w c r t).1.status = 201) : Routed c.sn w (mvAllocate w c r t).2 := by
  simp only [mvAllocate] at hstatus ⊢
  cases hports : allocatePortPair w with
  | none => simp [hports, State.failure] at hstatus
  | some pair =>
      simp only [hports] at hstatus ⊢
      cases hslot : allocateSessionSlot w with
      | none => simp [hslot, State.failure] at hstatus
      | some slot =>
          obtain ⟨i, w₁⟩ := slot
          have hv := allocateSessionSlot_spec hslot
          simp only [hslot] at hstatus ⊢
          split at hstatus
          · simp [State.failure] at hstatus
          next hgeneration =>
            rw [if_neg hgeneration]
            have hq : Quiet w₁ (nextRouteGeneration w₁) := by constructor <;> rfl
            obtain ⟨j, hjoins, hroutes⟩ := Routed.before hq (mvCreate_routed _ _ _ hv.lt hstatus)
            refine ⟨j, ?_, ?_⟩
            · intro k hk hl
              have he := hjoins k hk hl
              rw [he]
              exact hv.live k (he ▸ hl)
            · rw [hv.routes] at hroutes
              exact hroutes

theorem mvPin_routed (w : World) (c : MediaSession) (r : MediaStart) (t : Int)
    (hstatus : (mvPin w c r t).1.status = 201) : Routed c.sn w (mvPin w c r t).2 := by
  simp only [mvPin] at hstatus ⊢
  split at hstatus
  next hpin =>
    rw [if_pos hpin]
    exact mvAllocate_routed w c r t hstatus
  next hpin =>
    rw [if_neg hpin]
    cases hrandom : mvRandomPin w with
    | none => simp [hrandom, State.failure] at hstatus
    | some pin =>
        rw [hrandom] at hstatus
        exact Routed.before (advance_quiet w) (mvAllocate_routed (advance w) { c with pin := pin } r t hstatus)

theorem mvAdmit_routed (w : World) (c : MediaSession) (r : MediaStart) (t : Int)
    (hidle : findActiveSessionForSn w c.sn = none) (hstatus : (mvAdmit w c r t).1.status = 201) :
    Routed c.sn w (mvAdmit w c r t).2 := by
  simp only [mvAdmit, hidle, expireOptional] at hstatus ⊢
  split at hstatus
  · simp [State.failure] at hstatus
  next hfree =>
    rw [if_neg hfree]
    split at hstatus
    · simp [State.failure] at hstatus
    next hsupported =>
      rw [if_neg hsupported]
      exact mvPin_routed w c r t hstatus

theorem mvFresh_routed (w : World) (c : MediaSession) (r : MediaStart) (t : Int)
    (hidle : findActiveSessionForSn w c.sn = none) (hstatus : (mvFresh w c r t).1.status = 201) :
    Routed c.sn w (mvFresh w c r t).2 := by
  simp only [mvFresh] at hstatus ⊢
  split at hstatus
  next hthree =>
    rw [if_pos hthree]
    obtain ⟨hclock, hcase⟩ := begin_cases w c r.leaseExpiresAt
    generalize mediaV3BeginDeadline w c r.leaseExpiresAt = answer at hclock hcase hstatus ⊢
    obtain ⟨accepted, w₁⟩ := answer
    have hq : Quiet w w₁ := .of_clockOnly hclock
    obtain rfl | ⟨d, rfl, -, -⟩ := hcase
    · simp [State.failure] at hstatus
    · apply Routed.before hq
      exact mvAdmit_routed w₁ { c with issuerExpiryUtc := r.leaseExpiresAt, monotonicDeadlineMs := d } r t
        ((Quiet.idle hq _).trans hidle) hstatus
  next hthree =>
    rw [if_neg hthree]
    exact mvAdmit_routed w c r t hidle hstatus

theorem mvReplay_status (w : World) (i : Nat) (c : MediaSession) (r : MediaStart) (t : Int) :
    (mvReplay w i c r t).1.status ≠ 201 := by
  simp only [mvReplay]
  split
  · simp [State.failure]
  · split
    · split <;> simp [State.failure]
    · simp

theorem mvStart_routed (w : World) {r : MediaStart} (hr : Admitted r)
    (hidle : findActiveSessionForSn w r.sn = none) (hstatus : (mvStart w r).1.status = 201) :
    Routed r.sn w (mvStart w r).2 := by
  have hsn : (filled r).sn = r.sn := safeStrcpy_of_lt (Nat.lt_of_le_of_lt hr.snLength (by decide))
  simp only [mvStart] at hstatus ⊢
  cases hfill : mvFill (advance w) r with
  | none => simp [hfill, State.failure] at hstatus
  | some c =>
      obtain rfl := mvFill_some hfill
      simp only [hfill] at hstatus ⊢
      split at hstatus
      · simp [State.failure] at hstatus
      next hlease =>
        rw [if_neg hlease]
        split at hstatus
        · simp [State.failure] at hstatus
        next hcoordinates =>
          rw [if_neg hcoordinates]
          cases hfind : findSessionById (advance w) (filled r).sessionId with
          | some i =>
              rw [hfind] at hstatus
              exact absurd hstatus (mvReplay_status _ i _ r _)
          | none =>
              rw [hfind] at hstatus
              apply Routed.before (advance_quiet w)
              have hfresh := mvFresh_routed (advance w) (filled r) r (now w) (by rw [hsn]; exact hidle) hstatus
              rwa [hsn] at hfresh

end Modern

theorem begin_routed (w : World) (call : StartCall) (hidle : findActiveSessionForSn w call.sn = none)
    (hstatus : (call.begin w).1.status = 201) : Routed call.sn w (call.begin w).2 := by
  cases call with
  | legacy body => exact handleMediaSessionStart_routed w body hidle hstatus
  | modern negotiated request =>
      simp only [StartCall.begin, mediaV2Start] at hstatus ⊢
      split at hstatus
      · simp [State.failure] at hstatus
      next hextended =>
        rw [if_neg hextended]
        exact mvStart_routed w request.2 hidle hstatus

theorem begin_sn_length (call : StartCall) : call.sn.length < 128 := by
  cases call with
  | legacy body => exact jsonGetString_length body "sn" 128 (by decide)
  | modern negotiated request => exact Nat.lt_of_le_of_lt request.2.snLength (by decide)

theorem begin_named {w : World} {call : StartCall} (hstatus : (call.begin w).1.status = 201) : call.sn ≠ [] := by
  cases call with
  | legacy body =>
      simp only [StartCall.begin, handleMediaSessionStart] at hstatus
      split at hstatus
      · simp [State.failure] at hstatus
      · split at hstatus
        · simp [State.failure] at hstatus
        next hfields =>
          rw [not_or] at hfields
          exact hfields.2
  | modern negotiated request =>
      have hsn : (filled request.1).sn = request.1.sn :=
        safeStrcpy_of_lt (Nat.lt_of_le_of_lt request.2.snLength (by decide))
      change request.1.sn ≠ []
      rw [← hsn]
      exact (filled_candidate request.2).sn.1

theorem drop_put (hlen : sn.length < 128) (rtp rtcp : Int) (routes : List RouteEntry) :
    dropEntry sn (putEntry sn rtp rtcp routes) = routes ↔ lookupRoute routes sn = none := by
  by_cases h : (lookupRoute routes sn).isSome = true
  · have hsome : lookupRoute routes sn ≠ none := Option.isSome_iff_ne_none.mp h
    simp only [putEntry, if_pos h, hsome, iff_false]
    intro he
    obtain ⟨r, hr, hsn⟩ := List.find?_isSome.mp h
    have hlength : (overwriteFirst sn rtp rtcp routes).length = routes.length ∧
        ∃ e ∈ overwriteFirst sn rtp rtcp routes, (e.sn == sn) = true := by
      clear h hsome he
      induction routes with
      | nil => simp at hr
      | cons e routes ih =>
          by_cases hfirst : e.sn = sn
          · simp [overwriteFirst, hfirst]
          · obtain rfl | hr := List.mem_cons.mp hr
            · exact absurd (beq_iff_eq.mp hsn) hfirst
            · obtain ⟨hsame, e', he', hsn'⟩ := ih hr
              refine ⟨by simp [overwriteFirst, hfirst, hsame], e', ?_, hsn'⟩
              simp [overwriteFirst, hfirst, he']
    obtain ⟨hsame, e, hmem, hsn'⟩ := hlength
    have hshort := List.length_eraseP_of_mem (p := fun e : RouteEntry => e.sn == sn) hmem hsn'
    have hnonempty := List.length_pos_of_mem hmem
    rw [dropEntry] at he
    rw [he] at hshort
    omega
  · have hnone : lookupRoute routes sn = none := by simpa using h
    simp only [hnone, iff_true, dropEntry]
    rw [putEntry, if_neg h, safeStrcpy_of_lt hlen, List.eraseP_append_right _ ?_]
    · simp
    · intro e he
      exact List.find?_eq_none.mp hnone e he

theorem target_resolves {w : World} {call : StopCall} {k : Nat} (h : target w call = some k) :
    findSessionById w (session w k).sessionId = some k := by
  have hstoppable {id : CString} (hid : stoppable w id = some k) :
      findSessionById w (session w k).sessionId = some k := by
    obtain ⟨hfind, -⟩ := Option.filter_eq_some_iff.mp hid
    rw [(findSessionById_some hfind).2.1]
    exact hfind
  cases call with
  | byId => exact hstoppable h
  | bySn body =>
      simp only [target] at h
      split at h
      · cases h
      · obtain ⟨i, -, hi⟩ := Option.bind_eq_some_iff.mp h
        split at hi
        · cases hi
        · exact hstoppable hi
  | update =>
      obtain ⟨i, -, hi⟩ := Option.bind_eq_some_iff.mp h
      split at hi
      · cases hi
      · exact hstoppable hi
  | expiry =>
      simp only [target] at h
      split at h
      · exact hstoppable h
      · cases h

def startDoorCall : StartCall := .legacy (bytes "\x7b\"session_id\":\"a\",\"sn\":\"door\"\x7d")

def stopDoorCall : StopCall := .byId (bytes "a") []

def configuredDoor : World := { goodJanus with routes := [⟨bytes "door", 5000, 5001, true⟩] }

end EtranProcessing.Ingress.RouteRoundTrip
