import EtranProcessing.Library.Intervals
import EtranProcessing.Metering.RemoteSessions

namespace EtranProcessing.Metering.EverySecondOnce

open Library.Fallible Library.Intervals Library.Runs Library.Tables RemoteSessions

def sessionOf : AuditEvent → Nat
  | .anchor sessionId .. | .usagePeriod sessionId .. | .ended sessionId .. => sessionId

def IsEnd (sid : Nat) : AuditEvent → Prop
  | .ended sessionId .. => sessionId = sid
  | _ => False

/-- What a call writes about a session, and what it makes of the cursor. -/
inductive Writes (s s' : Session) : List AuditEvent → Prop where
  | nothing (hcursor : s'.lastCursor = s.lastCursor) : Writes s s' []
  | anchor (activeAt time : Rat) (eventId : String) (hactive : s.activeAt = some activeAt)
      (hunanchored : Unanchored s activeAt)
      (hcursor : (s'.lastCursor : Int) = max (initialMeteringCursor activeAt) (initialMeteringCursor time)) :
      Writes s s' [.anchor s.id eventId time s'.lastCursor]
  | period (activeAt time : Rat) (eventId : String) (providerSessionId : Option String)
      (hactive : s.activeAt = some activeAt) (hanchored : initialMeteringCursor activeAt ≤ (s.lastCursor : Int))
      (hlt : s.lastCursor < s'.lastCursor) (hend : (s'.lastCursor : Int) = wholeSeconds time) :
      Writes s s' [.usagePeriod s.id eventId time s.lastCursor s'.lastCursor providerSessionId]

def counts (usage : Usage) : String × Nat × Nat := (usage.eventId, usage.startEpoch, usage.endEpoch)

def countedBy : AuditEvent → Option (String × Nat × Nat)
  | .usagePeriod _ eventId _ startEpoch endEpoch _ => some (eventId, startEpoch, endEpoch)
  | _ => none

structure Adds (db : Database) (added : List AuditEvent) (db' : Database) : Prop where
  audit : db'.audit = db.audit ++ added
  usage : db'.usage.map counts = db.usage.map counts ++ added.filterMap countedBy

/-- A call on a session writes about that session only, and ends it or leaves its state. -/
structure Touches (db : Database) (s s' : Session) (added : List AuditEvent) (db' : Database) : Prop
    extends Adds db added db' where
  found : db.session s.id = some s
  live : s.state.live = true
  activeAt : s'.activeAt = s.activeAt
  row : ∀ sid, db'.session sid = if sid = s.id then some s' else db.session sid
  writes : ∃ written rest, added = written ++ rest ∧ Writes s s' written ∧ ∀ event ∈ rest, IsEnd s.id event

variable {hashing : Hashing} {db db' : Database} {s s' : Session}

section Rows

theorem getActiveSession_spec {terminalId : Nat} (h : getActiveSession db terminalId = .ok (some s)) :
    db.session s.id = some s ∧ s.state.live = true := by
  unfold getActiveSession at h
  split at h
  next => cases h
  next session hfilter =>
    cases h
    have hmem : s ∈ db.sessions.filter fun r => r.terminalId == terminalId && r.state.live := by
      rw [hfilter]
      exact List.mem_singleton.mpr rfl
    obtain ⟨hmem, hlive⟩ := List.mem_filter.mp hmem
    rw [Bool.and_eq_true] at hlive
    exact ⟨find?_of_mem Session.id db.ids_nodup hmem, hlive.2⟩
  next => cases h

theorem session_putSession (hfound : db.session s.id = some s) (hid : s'.id = s.id) (sid : Nat) :
    (db.putSession s').session sid = if sid = s.id then some s' else db.session sid := by
  rw [← hid] at hfound ⊢
  exact find?_replace Session.id hfound sid

theorem session_of_sessions (h : db'.sessions = db.sessions) (sid : Nat) : db'.session sid = db.session sid := by
  unfold Database.session
  rw [h]

theorem Adds.refl (db : Database) : Adds db [] db := ⟨by simp, by simp⟩

theorem Adds.trans {db'' : Database} {added later : List AuditEvent} (h : Adds db added db')
    (h' : Adds db' later db'') : Adds db (added ++ later) db'' := by
  constructor
  · rw [h'.audit, h.audit, List.append_assoc]
  · rw [h'.usage, h.usage, List.append_assoc, List.filterMap_append]

theorem Adds.event {event : AuditEvent} (h : countedBy event = none) :
    Adds db [event] { db with audit := db.audit ++ [event] } := by
  refine ⟨rfl, ?_⟩
  simp [h]

end Rows

section Calls

variable {time activeAt : Rat} {seconds : Nat}

theorem recordPeriod_spec (hactive : s.activeAt = some activeAt)
    (hanchored : initialMeteringCursor activeAt ≤ (s.lastCursor : Int))
    (h : recordPeriod hashing db s (wholeSeconds time) time = .ok (db', s', seconds)) :
    ∃ written, db'.sessions = db.sessions ∧ Adds db written db' ∧ Writes s s' written ∧ s'.id = s.id ∧
      s'.activeAt = s.activeAt := by
  simp only [recordPeriod] at h
  split at h
  next =>
    simp only [return_eq_ok, Prod.mk.injEq] at h
    obtain ⟨rfl, rfl, _⟩ := h
    exact ⟨[], rfl, .refl _, .nothing rfl, rfl, rfl⟩
  next hlt =>
    simp only [recordSessionUsage, bind_eq_ok, require_eq_ok, return_eq_ok, recordSessionEvent, Prod.mk.injEq] at h
    obtain ⟨_, ⟨_, _, rfl⟩, rfl, rfl, _⟩ := h
    refine ⟨_, rfl, ⟨rfl, by simp [counts, countedBy]⟩, ?_, rfl, rfl⟩
    exact .period activeAt time _ _ hactive hanchored (by simp only; omega) (by simp only; omega)

theorem anchorSession_spec (hactive : s.activeAt = some activeAt) (hunanchored : Unanchored s activeAt)
    (h : anchorSession hashing db s activeAt time = .ok db') :
    ∃ (middle : Database) (t : Session) (written : List AuditEvent), db' = middle.putSession t ∧
      middle.sessions = db.sessions ∧ Adds db written middle ∧ Writes s t written ∧ t.id = s.id ∧
      t.activeAt = s.activeAt := by
  simp only [anchorSession, recordSessionEvent, bind_eq_ok, require_eq_ok, return_eq_ok] at h
  obtain ⟨_, hpos, rfl⟩ := h
  refine ⟨_, _, _, rfl, rfl, .event rfl, ?_, rfl, rfl⟩
  exact .anchor activeAt time _ hactive hunanchored (Int.toNat_of_nonneg hpos)

theorem touches_putSession (written rest : List AuditEvent) {middle : Database} {t : Session}
    (hfound : db.session s.id = some s) (hlive : s.state.live = true) (hsessions : middle.sessions = db.sessions)
    (hadds : Adds db (written ++ rest) middle) (hid : t.id = s.id) (hactive : t.activeAt = s.activeAt)
    (hwrites : Writes s t written) (hrest : ∀ event ∈ rest, IsEnd s.id event) :
    Touches db s t (written ++ rest) (middle.putSession t) where
  audit := hadds.audit
  usage := hadds.usage
  found := hfound
  live := hlive
  activeAt := hactive
  row sid := by
    rw [session_putSession ((session_of_sessions hsessions s.id).trans hfound) hid, session_of_sessions hsessions]
  writes := ⟨written, rest, rfl, hwrites, hrest⟩

theorem checkpoint_touches {terminalId sessionId : Nat} {providerSessionId : String}
    (h : checkpointRemoteSession hashing db terminalId sessionId providerSessionId time = .ok (db', seconds)) :
    db' = db ∨ ∃ s s' added, Touches db s s' added db' := by
  simp only [checkpointRemoteSession, bind_eq_ok] at h
  obtain ⟨found, hfound, h⟩ := h
  split at h
  next =>
    simp only [return_eq_ok, Prod.mk.injEq] at h
    exact .inl h.1
  next session =>
    obtain ⟨hrow, hlive⟩ := getActiveSession_spec hfound
    split at h
    next =>
      simp only [return_eq_ok, Prod.mk.injEq] at h
      exact .inl h.1
    next activeAt hactive =>
      split at h
      next =>
        simp only [return_eq_ok, Prod.mk.injEq] at h
        exact .inl h.1
      next =>
        split at h
        next hunanchored =>
          simp only [bind_eq_ok, return_eq_ok, Prod.mk.injEq] at h
          obtain ⟨_, hanchor, rfl, _⟩ := h
          obtain ⟨middle, t, written, rfl, hsessions, hadds, hwrites, hid, hactive'⟩ :=
            anchorSession_spec hactive hunanchored hanchor
          exact .inr ⟨session, t, _, touches_putSession written [] hrow hlive hsessions (by simpa using hadds) hid
            hactive' hwrites (by simp)⟩
        next hanchored =>
          split at h
          next =>
            simp only [return_eq_ok, Prod.mk.injEq] at h
            exact .inl h.1
          next =>
            simp only [bind_eq_ok, return_eq_ok, Prod.mk.injEq] at h
            obtain ⟨⟨middle, t, _⟩, hperiod, rfl, _⟩ := h
            simp only [Unanchored, not_or, not_lt] at hanchored
            obtain ⟨written, hsessions, hadds, hwrites, hid, hactive'⟩ :=
              recordPeriod_spec hactive hanchored.2 hperiod
            exact .inr ⟨session, t, _, touches_putSession written [] hrow hlive hsessions (by simpa using hadds) hid
              hactive' hwrites (by simp)⟩

variable {confirmedEnd : Bool}

theorem recordTail_spec
    (h : recordTail hashing db s time confirmedEnd = .ok (db', s', seconds)) :
    ∃ written, db'.sessions = db.sessions ∧ Adds db written db' ∧ Writes s s' written ∧ s'.id = s.id ∧
      s'.activeAt = s.activeAt := by
  unfold recordTail at h
  split at h
  next activeAt hactive =>
    split at h
    next hanchored => exact recordPeriod_spec hactive hanchored.2 h
    next =>
      cases h
      exact ⟨[], rfl, .refl _, .nothing rfl, rfl, rfl⟩
  next =>
    cases h
    exact ⟨[], rfl, .refl _, .nothing rfl, rfl, rfl⟩

theorem endSession_spec {reason : String}
    (h : endSession hashing db s reason time confirmedEnd seconds = .ok (db', s')) :
    ∃ (middle : Database) (event : AuditEvent), db' = middle.putSession s' ∧ middle.sessions = db.sessions ∧
      Adds db [event] middle ∧ IsEnd s.id event ∧ s'.id = s.id ∧ s'.activeAt = s.activeAt ∧
      s'.lastCursor = s.lastCursor := by
  simp only [endSession, recordSessionEvent, bind_eq_ok, require_eq_ok, return_eq_ok, Prod.mk.injEq] at h
  obtain ⟨_, _, rfl, rfl⟩ := h
  refine ⟨_, _, rfl, rfl, .event rfl, ?_, rfl, rfl, rfl⟩
  rfl

theorem Writes.of_lastCursor {t : Session} {written : List AuditEvent} (h : Writes s s' written)
    (hcursor : t.lastCursor = s'.lastCursor) : Writes s t written := by
  cases h with
  | nothing hsame => exact .nothing (hcursor.trans hsame)
  | anchor activeAt time eventId hactive hunanchored hmax =>
      rw [← hcursor] at hmax ⊢
      exact .anchor activeAt time eventId hactive hunanchored hmax
  | period activeAt time eventId provider hactive hanchored hlt hend =>
      rw [← hcursor] at hlt hend ⊢
      exact .period activeAt time eventId provider hactive hanchored hlt hend

theorem close_touches {terminalId : Nat} {sessionType : SessionType} {reason : String}
    {expectedProviderSessionId : Option String} {closed : Option Session}
    (h : closeRemoteSession hashing db terminalId sessionType reason time confirmedEnd expectedProviderSessionId =
      .ok (db', closed)) : db' = db ∨ ∃ s s' added, Touches db s s' added db' := by
  simp only [closeRemoteSession, bind_eq_ok] at h
  obtain ⟨found, hfound, h⟩ := h
  split at h
  next =>
    simp only [return_eq_ok, Prod.mk.injEq] at h
    exact .inl h.1
  next session =>
    obtain ⟨hrow, hlive⟩ := getActiveSession_spec hfound
    split at h
    next =>
      simp only [return_eq_ok, Prod.mk.injEq] at h
      exact .inl h.1
    next =>
      simp only [bind_eq_ok, return_eq_ok, Prod.mk.injEq] at h
      obtain ⟨⟨recorded, t, tail⟩, htail, ⟨ended, t'⟩, hend, rfl, _⟩ := h
      obtain ⟨written, hsessions, hadds, hwrites, hid, hactive⟩ := recordTail_spec htail
      obtain ⟨middle, event, rfl, hsessions', hadds', hevent, hid', hactive', hcursor⟩ := endSession_spec hend
      refine .inr ⟨session, t', _, touches_putSession written [event] hrow hlive (hsessions'.trans hsessions)
        (hadds.trans hadds') (hid'.trans hid) (hactive'.trans hactive) (hwrites.of_lastCursor hcursor) ?_⟩
      intro other hother
      rw [List.mem_singleton.mp hother, ← hid]
      exact hevent

theorem switchSource_touches {terminalId : Nat} {providerSessionId : String}
    (h : switchSource db terminalId providerSessionId = .ok db') :
    db' = db ∨ ∃ s s' added, Touches db s s' added db' := by
  simp only [switchSource, bind_eq_ok] at h
  obtain ⟨found, hfound, h⟩ := h
  split at h
  next =>
    simp only [return_eq_ok] at h
    exact .inl h
  next session =>
    obtain ⟨hrow, hlive⟩ := getActiveSession_spec hfound
    simp only [return_eq_ok] at h
    rw [h]
    exact .inr ⟨session, _, _, touches_putSession [] [] hrow hlive rfl (.refl db) rfl rfl (.nothing rfl) (by simp)⟩

theorem step_touches (hashing : Hashing) (db : Database) (e : Event) :
    step hashing db e = db ∨ ∃ s s' added, Touches db s s' added (step hashing db e) := by
  cases e with
  | checkpoint =>
      simp only [step]
      split
      next h => exact checkpoint_touches h
      next => exact .inl rfl
  | close =>
      simp only [step]
      split
      next h => exact close_touches h
      next => exact .inl rfl
  | switchSource =>
      simp only [step]
      split
      next h => exact switchSource_touches h
      next => exact .inl rfl

end Calls

section Periods

def anchorAfter (sid cursor : Nat) : AuditEvent → Nat
  | .anchor sessionId _ _ cursorEpoch => if sessionId = sid then cursorEpoch else cursor
  | _ => cursor

def anchorOf (sid first : Nat) (events : List AuditEvent) : Nat := events.foldl (anchorAfter sid) first

def periodOf (sid : Nat) : AuditEvent → Option (Nat × Nat)
  | .usagePeriod sessionId _ _ startEpoch endEpoch _ => if sessionId = sid then some (startEpoch, endEpoch) else none
  | _ => none

def periodsOf (sid : Nat) (events : List AuditEvent) : List (Nat × Nat) := events.filterMap (periodOf sid)

def PeriodWithin (sid : Nat) (activeAt : Option Rat) : AuditEvent → Prop
  | .usagePeriod sessionId _ time startEpoch endEpoch _ => sessionId = sid →
      ∃ active ∈ activeAt, ⌈active⌉ ≤ (startEpoch : Int) ∧ (endEpoch : Int) ≤ ⌊time⌋
  | _ => True

variable {sid first : Nat} {events added : List AuditEvent}

theorem anchorOf_append : anchorOf sid first (events ++ added) = anchorOf sid (anchorOf sid first events) added := by
  simp [anchorOf]

theorem periodsOf_append : periodsOf sid (events ++ added) = periodsOf sid events ++ periodsOf sid added := by
  simp [periodsOf]

def Silent (sid : Nat) : AuditEvent → Prop
  | .anchor sessionId .. | .usagePeriod sessionId .. => sessionId ≠ sid
  | .ended .. => True

variable {event : AuditEvent}

theorem Silent.of_sessionOf (h : sessionOf event ≠ sid) : Silent sid event := by
  cases event with
  | anchor => exact h
  | usagePeriod => exact h
  | ended => trivial

theorem Silent.of_isEnd (h : IsEnd sid event) : Silent sid event := by
  cases event with
  | anchor => exact h.elim
  | usagePeriod => exact h.elim
  | ended => trivial

theorem anchorOf_silent (h : ∀ event ∈ added, Silent sid event) : anchorOf sid first added = first := by
  induction added generalizing first with
  | nil => rfl
  | cons event added ih =>
      have hrest : anchorOf sid (anchorAfter sid first event) added = anchorAfter sid first event :=
        ih fun other hother => h other (List.mem_cons_of_mem _ hother)
      have hevent := h event List.mem_cons_self
      refine hrest.trans ?_
      cases event with
      | anchor sessionId => exact if_neg hevent
      | usagePeriod => rfl
      | ended => rfl

theorem periodsOf_silent (h : ∀ event ∈ added, Silent sid event) : periodsOf sid added = [] := by
  rw [periodsOf, List.filterMap_eq_nil_iff]
  intro event hmem
  have hevent := h event hmem
  cases event with
  | anchor => rfl
  | usagePeriod sessionId => exact if_neg hevent
  | ended => rfl

theorem periodWithin_silent (h : Silent sid event) (activeAt : Option Rat) :
    PeriodWithin sid activeAt event := by
  cases event with
  | anchor => trivial
  | usagePeriod => exact fun heq => absurd heq h
  | ended => trivial

theorem wholeSeconds_eq_floor {time : Rat} (h : 0 < wholeSeconds time) : wholeSeconds time = ⌊time⌋ := by
  have hnum : 0 ≤ time.num := by
    by_contra hneg
    have hpos : 0 ≤ (-time.num).tdiv time.den := Int.tdiv_nonneg (by omega) (Int.natCast_nonneg _)
    rw [Int.neg_tdiv] at hpos
    simp only [wholeSeconds] at h
    omega
  rw [wholeSeconds, Rat.floor_def', Int.tdiv_eq_ediv_of_nonneg hnum]

end Periods

section Steps

variable {sid : Nat} {e : Event}

variable {s : Session} {events : List AuditEvent} {began : Session}

theorem step_session (hashing : Hashing) (db : Database) (e : Event) (h : db.session sid = some s) :
    ∃ s' added, (step hashing db e).session sid = some s' ∧ Adds db added (step hashing db e) ∧
      ((s' = s ∧ ∀ event ∈ added, sessionOf event ≠ sid) ∨ Touches db s s' added (step hashing db e)) := by
  rcases step_touches hashing db e with hsame | ⟨touched, after, added, htouches⟩
  · rw [hsame]
    exact ⟨s, [], h, .refl db, .inl ⟨rfl, by simp⟩⟩
  · by_cases hsid : sid = touched.id
    · have htouched : touched = s := by
        rw [hsid, htouches.found] at h
        exact Option.some.inj h
      refine ⟨after, added, ?_, htouches.toAdds, .inr (htouched ▸ htouches)⟩
      rw [htouches.row, if_pos hsid]
    · refine ⟨s, added, ?_, htouches.toAdds, .inl ⟨rfl, ?_⟩⟩
      · rw [htouches.row, if_neg hsid, h]
      · intro event hmem
        obtain ⟨written, rest, rfl, hwrites, hrest⟩ := htouches.writes
        rcases List.mem_append.mp hmem with hwritten | hend
        · cases hwrites with
          | nothing => simp at hwritten
          | anchor | period =>
              rw [List.mem_singleton.mp hwritten]
              exact fun heq => hsid heq.symm
        · have hevent := hrest event hend
          cases event with
          | anchor => exact hevent.elim
          | usagePeriod => exact hevent.elim
          | ended => exact fun heq => hsid (heq.symm.trans hevent)

structure Metered (sid : Nat) (began : Session) (events : List AuditEvent) (s : Session) : Prop where
  activeAt : s.activeAt = began.activeAt
  chained : Chained (anchorOf sid began.lastCursor events) (periodsOf sid events) s.lastCursor
  within : ∀ event ∈ events, PeriodWithin sid began.activeAt event

theorem mem_periodsOf {p : Nat × Nat} (h : p ∈ periodsOf sid events) :
    ∃ eventId time provider, AuditEvent.usagePeriod sid eventId time p.1 p.2 provider ∈ events := by
  obtain ⟨event, hmem, hperiod⟩ := List.mem_filterMap.mp h
  cases event with
  | anchor => cases hperiod
  | usagePeriod sessionId eventId time startEpoch endEpoch provider =>
      simp only [periodOf] at hperiod
      split at hperiod
      next heq =>
        cases hperiod
        exact ⟨eventId, time, provider, heq ▸ hmem⟩
      next => cases hperiod
  | ended => cases hperiod

theorem Metered.periodsOf_eq_nil
    (h : Metered sid began events s) {activeAt : Rat} (hactive : s.activeAt = some activeAt)
    (hunanchored : Unanchored s activeAt) : periodsOf sid events = [] := by
  rcases h.chained.eq_nil_or with hnil | ⟨p, hp, hlt⟩
  · exact hnil
  · exfalso
    obtain ⟨eventId, time, provider, hmem⟩ := mem_periodsOf hp
    obtain ⟨active, hactive', hstart, _⟩ := h.within _ hmem rfl
    cases Option.some.inj ((hactive.symm.trans h.activeAt).trans hactive')
    rcases hunanchored with hzero | hbefore
    · omega
    · simp only [initialMeteringCursor] at hbefore
      omega

theorem Writes.le {s s' : Session} {written : List AuditEvent} (h : Writes s s' written) :
    s.lastCursor ≤ s'.lastCursor := by
  cases h with
  | nothing hcursor => omega
  | anchor activeAt time eventId hactive hunanchored hcursor =>
      rcases hunanchored with hzero | hbefore
      · omega
      · omega
  | period activeAt time eventId provider hactive hanchored hlt hend => omega

theorem Metered.writes {events written : List AuditEvent} {s s' : Session}
    (h : Metered s.id began events s) (hwrites : Writes s s' written) (hactiveAt : s'.activeAt = s.activeAt) :
    Metered s.id began (events ++ written) s' := by
  constructor
  · exact hactiveAt.trans h.activeAt
  · rw [anchorOf_append, periodsOf_append]
    cases hwrites with
    | nothing hcursor =>
        rw [hcursor]
        simpa [anchorOf, periodsOf] using h.chained
    | anchor activeAt time eventId hactive hunanchored hcursor =>
        rw [h.periodsOf_eq_nil hactive hunanchored]
        show Chained (if s.id = s.id then s'.lastCursor else _) [] s'.lastCursor
        rw [if_pos rfl]
        exact rfl
    | period activeAt time eventId provider hactive hanchored hlt hend =>
        have hlast := h.chained.append hlt
        simpa [anchorOf, anchorAfter, periodsOf, periodOf] using hlast
  · intro event hmem
    rcases List.mem_append.mp hmem with hold | hnew
    · exact h.within event hold
    · cases hwrites with
      | nothing => simp at hnew
      | anchor =>
          rw [List.mem_singleton.mp hnew]
          trivial
      | period activeAt time eventId provider hactive hanchored hlt hend =>
          rw [List.mem_singleton.mp hnew]
          intro _
          refine ⟨activeAt, h.activeAt.symm.trans hactive, hanchored, ?_⟩
          rw [hend, wholeSeconds_eq_floor (by omega)]

theorem Metered.silent {events added : List AuditEvent}
    (h : Metered sid began events s) (hsilent : ∀ event ∈ added, Silent sid event) :
    Metered sid began (events ++ added) s := by
  constructor
  · exact h.activeAt
  · rw [anchorOf_append, periodsOf_append, anchorOf_silent hsilent, periodsOf_silent hsilent, List.append_nil]
    exact h.chained
  · intro event hmem
    rcases List.mem_append.mp hmem with hold | hnew
    · exact h.within event hold
    · exact periodWithin_silent (hsilent event hnew) _

theorem session_id (h : db.session sid = some s) : s.id = sid := by
  simpa using List.find?_some h

theorem Metered.step (h : Metered sid began events s)
    (hashing : Hashing) (hs : db.session sid = some s) (e : Event) :
    ∃ s' added, (RemoteSessions.step hashing db e).session sid = some s' ∧
      Adds db added (RemoteSessions.step hashing db e) ∧ Metered sid began (events ++ added) s' ∧
      s.lastCursor ≤ s'.lastCursor ∧
      (s.state.live = false → s' = s ∧ ∀ event ∈ added, sessionOf event ≠ sid) := by
  obtain ⟨s', added, hs', hadds, ⟨rfl, hothers⟩ | htouches⟩ := step_session hashing db e hs
  · exact ⟨s', added, hs', hadds, h.silent fun event hmem => .of_sessionOf (hothers event hmem), Nat.le_refl _,
      fun _ => ⟨rfl, hothers⟩⟩
  · cases session_id hs
    obtain ⟨written, rest, rfl, hwrites, hrest⟩ := htouches.writes
    refine ⟨s', _, hs', hadds, ?_, hwrites.le, ?_⟩
    · rw [← List.append_assoc]
      exact (h.writes hwrites htouches.activeAt).silent fun event hmem => .of_isEnd (hrest event hmem)
    · intro hdead
      simp [htouches.live] at hdead

end Steps

section Runs

variable {sid : Nat}

theorem Metered.run {began : Session} (hashing : Hashing) (events : List Event) (db : Database)
    (recorded : List AuditEvent) {s : Session} (h : Metered sid began recorded s) (hs : db.session sid = some s) :
    ∃ last added, (Library.Runs.run (RemoteSessions.step hashing) db events).session sid = some last ∧
      Adds db added (Library.Runs.run (RemoteSessions.step hashing) db events) ∧
      Metered sid began (recorded ++ added) last ∧ s.lastCursor ≤ last.lastCursor ∧
      (s.state.live = false → last = s ∧ ∀ event ∈ added, sessionOf event ≠ sid) := by
  induction events generalizing db recorded s with
  | nil => exact ⟨s, [], hs, .refl db, by simpa using h, Nat.le_refl _, fun _ => ⟨rfl, by simp⟩⟩
  | cons e events ih =>
      obtain ⟨s', added, hs', hadds, hmetered, hle, hdead⟩ := h.step hashing hs e
      obtain ⟨last, later, hlast, hadds', hmetered', hle', hdead'⟩ := ih _ _ hmetered hs'
      refine ⟨last, added ++ later, hlast, hadds.trans hadds', ?_, Nat.le_trans hle hle', ?_⟩
      · rw [← List.append_assoc]
        exact hmetered'
      · intro hstate
        obtain ⟨rfl, hothers⟩ := hdead hstate
        obtain ⟨rfl, hothers'⟩ := hdead' hstate
        refine ⟨rfl, ?_⟩
        intro event hmem
        rcases List.mem_append.mp hmem with hmem | hmem
        · exact hothers event hmem
        · exact hothers' event hmem

/-- Whatever calls come at whatever times, the periods of a session follow each other from
its anchor to its cursor, which never goes back; each lies between the time that the
session was active and the call that recorded it; and of a session that was closed or
given up nothing is recorded. -/
theorem every_second_once (hashing : Hashing) (start : Database) (events : List Event) (sid : Nat) (first : Session)
    (hfirst : start.session sid = some first) :
    ∃ last added, (run (step hashing) start events).session sid = some last ∧
      Adds start added (run (step hashing) start events) ∧
      Chained (anchorOf sid first.lastCursor added) (periodsOf sid added) last.lastCursor ∧
      ((periodsOf sid added).map fun p => p.2 - p.1).sum =
        last.lastCursor - anchorOf sid first.lastCursor added ∧
      (periodsOf sid added).Pairwise (fun p q => p.2 ≤ q.1) ∧
      (∀ event ∈ added, PeriodWithin sid first.activeAt event) ∧
      ∀ before after, events = before ++ after → ∃ middle,
        (run (step hashing) start before).session sid = some middle ∧ first.lastCursor ≤ middle.lastCursor ∧
        middle.lastCursor ≤ last.lastCursor ∧
        (middle.state.live = false → last = middle ∧ ∃ later,
          Adds (run (step hashing) start before) later (run (step hashing) start events) ∧
          ∀ event ∈ later, sessionOf event ≠ sid) := by
  have hmetered : Metered sid first [] first := ⟨rfl, rfl, by simp⟩
  obtain ⟨last, added, hlast, hadds, hend, _, _⟩ := hmetered.run hashing events start [] hfirst
  rw [List.nil_append] at hend
  have hsum := hend.chained.sum
  refine ⟨last, added, hlast, hadds, hend.chained, by omega, hend.chained.disjoint, hend.within, ?_⟩
  intro before after hevents
  obtain ⟨middle, early, hmiddle, _, hthen, hle, _⟩ := hmetered.run hashing before start [] hfirst
  obtain ⟨last', later, hlast', hadds', _, hle', hdead⟩ := hthen.run hashing after _ _ hmiddle
  rw [← run_append, ← hevents] at hlast' hadds'
  cases Option.some.inj (hlast.symm.trans hlast')
  refine ⟨middle, hmiddle, hle, hle', ?_⟩
  intro hstate
  obtain ⟨hsame, hothers⟩ := hdead hstate
  exact ⟨hsame, later, hadds', hothers⟩

/-- A video session that was active from the second 1000, with a checkpoint, a clock that
goes back, and an end in the middle of a second. -/
def tableDatabase : Database where
  sessions := [⟨4, 1, 7, some "lease", .video, .active, some 1000, none, none, none, 1000, none⟩]
  ids_nodup := by decide
  terminals _ _ := true
  usage := []
  audit := []

def tableEvents : List Event :=
  [.checkpoint 7 4 "lease" 1060, .checkpoint 7 4 "lease" 1030, .close 7 .video "done" (2171 / 2) true none,
    .checkpoint 7 4 "lease" 1200]

def tableHashing : Hashing where
  next _ rowId _ :=
    if rowId = 0 then "d9f118ee84c5a075aa77ba88b83f5f9bd0836ed7c42dfce230085865361fabf6"
    else if rowId = 1 then "04bc5117da710650cd62146d0b2a56b9b1ea5387a07b1bdac2eb5d1b1d9524cb"
    else "d327b49d1c89019b7941a22c68473af1e631d958c38058ea273ba9f795811457"

theorem every_second_once_table :
    periodsOf 4 (run (step tableHashing) tableDatabase tableEvents).audit = [(1000, 1060), (1060, 1085)] ∧
      ∃ last added, (run (step tableHashing) tableDatabase tableEvents).session 4 = some last ∧
        Chained (anchorOf 4 1000 added) (periodsOf 4 added) last.lastCursor := by
  refine ⟨by decide +kernel, ?_⟩
  obtain ⟨last, added, hlast, _, hchained, _⟩ := every_second_once tableHashing tableDatabase tableEvents 4 _ rfl
  exact ⟨last, added, hlast, hchained⟩

end Runs

end EtranProcessing.Metering.EverySecondOnce
