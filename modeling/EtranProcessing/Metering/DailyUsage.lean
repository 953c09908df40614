import EtranProcessing.Metering.LocalDays

namespace EtranProcessing.Metering.DailyUsage

open LocalDays

structure Hashing where
  operation : Nat → Int → String → String
  chained : String → String → String

structure FinUsageDaily where
  tenantId : Nat
  timezone : String
  tariffVersionId : Nat
  sourceSeconds : Int
  videoSeconds : Int
  consoleSeconds : Int
  freeSeconds : Int
  sourceEventId : String
  sourceEventsHash : String
  ledgerTransactionId : Option Nat
  deriving DecidableEq

/-- An audit event of type duration.recorded. -/
structure Recorded where
  tenantId : Nat
  terminalId : Nat
  operationId : String
  localDate : Int
  videoSeconds : Int
  consoleSeconds : Int
  historicalPosted : Bool
  deriving DecidableEq

structure Db where
  -- the tenant of a terminal
  tenantOf : Nat → Option Nat
  timezone : Nat → Option String
  tariffs : List Nat
  -- the row of a terminal and a date
  rows : Nat × Int → Option FinUsageDaily
  audit : List Recorded

inductive UsageError where
  | unsupportedType
  | unknownTerminal
  | unknownTimezone
  | split (failure : Failure)
  deriving DecidableEq

/-- The arguments of a call. -/
structure Session where
  tenantId : Nat
  terminalId : Nat
  sessionType : String
  start : Int
  stop : Int
  eventId : String

section Calls

variable (hashing : Hashing) (resolve : String → Option Zone) (fuel : Nat)

def replayed (db : Db) (s : Session) (date : Int) : Bool :=
  db.audit.any fun e => e.tenantId == s.tenantId && e.operationId == hashing.operation s.terminalId date s.eventId

def videoOf (s : Session) (seconds : Int) : Int := if s.sessionType = "video" then seconds else 0

def consoleOf (s : Session) (seconds : Int) : Int := if s.sessionType = "console" then seconds else 0

def rowFor (db : Db) (s : Session) (timezone : String) (tariff : Nat) (date : Int) : FinUsageDaily :=
  match db.rows (s.terminalId, date) with
  | some row => row
  | none => ⟨s.tenantId, timezone, tariff, 0, 0, 0, 0, s.eventId, hashing.operation s.terminalId date s.eventId, none⟩

/-- A posted row stays as it is. -/
def addSeconds (row : FinUsageDaily) (s : Session) (date seconds : Int) : FinUsageDaily :=
  match row.ledgerTransactionId with
  | some _ => row
  | none =>
      { row with
        videoSeconds := row.videoSeconds + videoOf s seconds
        consoleSeconds := row.consoleSeconds + consoleOf s seconds
        sourceSeconds := row.sourceSeconds + seconds
        freeSeconds := row.freeSeconds + seconds
        sourceEventsHash := hashing.chained row.sourceEventsHash (hashing.operation s.terminalId date s.eventId) }

/-- One portion of the interval. -/
def recordPortion (s : Session) (timezone : String) (tariff : Nat) (db : Db) (portion : Int × Int) : Db :=
  if replayed hashing db s portion.1 then db
  else
    let row := rowFor hashing db s timezone tariff portion.1
    { db with
      rows := Function.update db.rows (s.terminalId, portion.1) (some (addSeconds hashing row s portion.1 portion.2))
      audit := db.audit ++ [⟨s.tenantId, s.terminalId, hashing.operation s.terminalId portion.1 s.eventId, portion.1,
        videoOf s portion.2, consoleOf s portion.2, row.ledgerTransactionId.isSome⟩] }

def timezoneOf (db : Db) (tenantId : Nat) : String :=
  match db.timezone tenantId with
  | some name => if name = "" then "UTC" else name
  | none => "UTC"

/-- The portions of an interval by the time zone that the tenant has now. -/
def portions (db : Db) (s : Session) : Except UsageError (List (Int × Int)) :=
  match resolve (timezoneOf db s.tenantId) with
  | none => .error .unknownTimezone
  | some zone =>
      match splitIntervalByLocalDays zone fuel s.start s.stop with
      | .error failure => .error (.split failure)
      | .ok chunks => .ok chunks

/-- The tariffs are asked for one before the days are gone through, and one is made when there is none. -/
def recordSessionUsage (db : Db) (s : Session) : Except UsageError Db :=
  if s.sessionType ≠ "video" ∧ s.sessionType ≠ "console" then .error .unsupportedType
  else if db.tenantOf s.terminalId ≠ some s.tenantId then .error .unknownTerminal
  else
    let db := if db.tariffs = [] then { db with tariffs := [1] } else db
    (portions resolve fuel db s).map fun chunks =>
      chunks.foldl (recordPortion hashing s (timezoneOf db s.tenantId) (db.tariffs.headD 1)) db

def called (db : Db) (s : Session) : Db :=
  match recordSessionUsage hashing resolve fuel db s with
  | .ok db' => db'
  | .error _ => db

end Calls

/-- What happens to the rows: sessions are recorded, tenants change their time
zone, and rows are posted to the ledger. -/
inductive Step (hashing : Hashing) (resolve : String → Option Zone) : Db → Db → Prop
  | recorded (db : Db) (fuel : Nat) (s : Session) : Step hashing resolve db (called hashing resolve fuel db s)
  | moved (db : Db) (tenantId : Nat) (name : Option String) :
      Step hashing resolve db { db with timezone := Function.update db.timezone tenantId name }
  | posted (db : Db) (key : Nat × Int) (row : FinUsageDaily) (ledgerId : Nat) (h : db.rows key = some row) :
      Step hashing resolve db
        { db with rows := Function.update db.rows key (some { row with ledgerTransactionId := some ledgerId }) }

structure Fresh (db : Db) : Prop where
  posted : ∀ key row, db.rows key = some row → row.ledgerTransactionId ≠ none
  audit : db.audit = []

def Reachable (hashing : Hashing) (resolve : String → Option Zone) (db : Db) : Prop :=
  ∃ first, Fresh first ∧ Relation.ReflTransGen (Step hashing resolve) first db

def seconds (db : Db) (key : Nat × Int) : Option (Int × Int × Int × Int) :=
  (db.rows key).map fun row => (row.videoSeconds, row.consoleSeconds, row.sourceSeconds, row.freeSeconds)

def Posted (db : Db) (key : Nat × Int) : Prop := ∃ row, db.rows key = some row ∧ row.ledgerTransactionId ≠ none

def recordedOn (db : Db) (key : Nat × Int) : List Recorded :=
  db.audit.filter fun e => e.terminalId == key.1 && e.localDate == key.2

section Portions

variable {hashing : Hashing} {resolve : String → Option Zone} {fuel : Nat} {db db' : Db} {s : Session} {timezone : String}
  {tariff : Nat} {portion : Int × Int} {key : Nat × Int}

theorem splitLoop_positive {tz : Zone} {start stop : Int} (fuel : Nat) (cursor assigned : Int) {chunks : List (Int × Int)}
    (h : splitLoop tz start stop fuel cursor assigned = .ok chunks) : ∀ p ∈ chunks, 0 < p.2 := by
  induction fuel generalizing cursor assigned chunks with
  | zero => cases h
  | succ fuel ih =>
      rw [splitLoop] at h
      split at h
      next =>
        cases hhere : inRange (tz.wall cursor) with
        | error failure => simp [hhere, bind, Except.bind] at h
        | ok here =>
            cases hnext : dateInRange (here / day + 1) with
            | error failure => simp [hhere, hnext, bind, Except.bind] at h
            | ok nextDay =>
                cases hmidnight : inRange (tz.toUtc (nextDay * day)) with
                | error failure => simp [hhere, hnext, hmidnight, bind, Except.bind] at h
                | ok midnight =>
                    cases hrest : splitLoop tz start stop fuel (min stop midnight)
                        (Library.Rounding.roundEven (totalSeconds (min stop midnight - start))) with
                    | error failure => simp [hhere, hnext, hmidnight, hrest, bind, Except.bind] at h
                    | ok rest =>
                        simp only [hhere, hnext, hmidnight, hrest, bind, Except.bind, Except.ok.injEq] at h
                        have hlater := ih _ _ hrest
                        intro p hp
                        rw [← h] at hp
                        split at hp
                        next hpositive =>
                          rcases List.mem_cons.mp hp with rfl | hp
                          · exact hpositive
                          · exact hlater p hp
                        next => exact hlater p hp
      next =>
        obtain rfl := Except.ok.inj h
        exact fun p hp => absurd hp List.not_mem_nil

theorem portions_positive {chunks : List (Int × Int)} (h : portions resolve fuel db s = .ok chunks) :
    ∀ p ∈ chunks, 0 < p.2 := by
  unfold portions at h
  split at h
  next => cases h
  next zone _ =>
    split at h
    next => cases h
    next chunks' hsplit =>
      obtain rfl := Except.ok.inj h
      unfold splitIntervalByLocalDays at hsplit
      split at hsplit
      next =>
        obtain rfl := Except.ok.inj hsplit
        exact fun p hp => absurd hp List.not_mem_nil
      next => exact splitLoop_positive fuel s.start 0 hsplit

theorem recordPortion_replayed (h : replayed hashing db s portion.1 = true) :
    recordPortion hashing s timezone tariff db portion = db := if_pos h

theorem recordPortion_posted (h : Posted db (s.terminalId, portion.1)) :
    (recordPortion hashing s timezone tariff db portion).rows = db.rows := by
  rw [recordPortion]
  split
  next => rfl
  next =>
    obtain ⟨row, hrow, hledger⟩ := h
    obtain ⟨ledgerId, hledger⟩ := Option.ne_none_iff_exists'.mp hledger
    simp only [rowFor, hrow, addSeconds, hledger]
    rw [← hrow]
    exact Function.update_eq_self _ _

theorem recordPortion_audit (db : Db) (portion : Int × Int) :
    db.audit ⊆ (recordPortion hashing s timezone tariff db portion).audit := by
  rw [recordPortion]
  split
  next => exact fun _ he => he
  next => exact fun _ he => List.mem_append_left _ he

theorem recordPortion_records (db : Db) (portion : Int × Int) :
    replayed hashing (recordPortion hashing s timezone tariff db portion) s portion.1 = true := by
  rw [recordPortion]
  split
  next h => exact h
  next => simp [replayed]

theorem replayed_mono (h : replayed hashing db s portion.1 = true) (haudit : db.audit ⊆ db'.audit) :
    replayed hashing db' s portion.1 = true := by
  obtain ⟨e, he, hkey⟩ := List.any_eq_true.mp h
  exact List.any_eq_true.mpr ⟨e, haudit he, hkey⟩

def source (db : Db) (key : Nat × Int) : Int := ((db.rows key).map FinUsageDaily.sourceSeconds).getD 0

theorem source_of_seconds (h : seconds db' key = seconds db key) : source db' key = source db key := by
  have hsource := congrArg (Option.map fun q : Int × Int × Int × Int => q.2.2.1) h
  simp only [seconds, Option.map_map] at hsource
  exact congrArg (Option.getD · 0) hsource

theorem source_recordPortion (hnew : replayed hashing db s portion.1 = false)
    (hopen : ¬ Posted db (s.terminalId, portion.1)) :
    source (recordPortion hashing s timezone tariff db portion) (s.terminalId, portion.1) =
      source db (s.terminalId, portion.1) + portion.2 := by
  rw [recordPortion, if_neg (by simp [hnew])]
  simp only [source, Function.update_self, Option.map_some, Option.getD_some]
  cases hrow : db.rows (s.terminalId, portion.1) with
  | none => simp [rowFor, hrow, addSeconds]
  | some row =>
      have hledger : row.ledgerTransactionId = none := by
        by_contra hledger
        exact hopen ⟨row, hrow, hledger⟩
      simp [rowFor, hrow, addSeconds, hledger]

theorem recordPortion_other (hkey : key ≠ (s.terminalId, portion.1)) :
    (recordPortion hashing s timezone tariff db portion).rows key = db.rows key := by
  rw [recordPortion]
  split
  next => rfl
  next => exact Function.update_of_ne hkey _ _

theorem source_mono (hpositive : 0 < portion.2) (key : Nat × Int) :
    source db key ≤ source (recordPortion hashing s timezone tariff db portion) key := by
  by_cases hkey : key = (s.terminalId, portion.1)
  · subst hkey
    by_cases hopen : Posted db (s.terminalId, portion.1)
    · rw [source, source, recordPortion_posted hopen]
    · cases hnew : replayed hashing db s portion.1 with
      | true => rw [recordPortion_replayed hnew]
      | false =>
          rw [source_recordPortion hnew hopen]
          omega
  · rw [source, source, recordPortion_other hkey]

theorem fold_unchanged (hdates : ∀ t e, Function.Injective fun d => hashing.operation t d e) (chunks : List (Int × Int))
    (hpositive : ∀ p ∈ chunks, 0 < p.2) :
    (∀ key, seconds (chunks.foldl (recordPortion hashing s timezone tariff) db) key = seconds db key) ↔
      ∀ p ∈ chunks, replayed hashing db s p.1 = true ∨ Posted db (s.terminalId, p.1) := by
  induction chunks generalizing db with
  | nil => simp
  | cons p chunks ih =>
      have hp := hpositive p List.mem_cons_self
      have hrest := fun q hq => hpositive q (List.mem_cons_of_mem p hq)
      have hgrows : ∀ (l : List (Int × Int)) (db : Db), (∀ q ∈ l, 0 < q.2) → ∀ key,
          source db key ≤ source (l.foldl (recordPortion hashing s timezone tariff) db) key := by
        intro l
        induction l with
        | nil => exact fun _ _ _ => le_refl _
        | cons q l ih =>
            intro db hl key
            exact (source_mono (hl q List.mem_cons_self) key).trans (ih _ (fun q hq => hl q (List.mem_cons_of_mem _ hq)) key)
      rw [List.foldl_cons, List.forall_mem_cons]
      cases hold : replayed hashing db s p.1 with
      | true =>
          rw [recordPortion_replayed hold, ih hrest]
          simp
      | false =>
          by_cases hopen : Posted db (s.terminalId, p.1)
          · have hrows : (recordPortion hashing s timezone tariff db p).rows = db.rows := recordPortion_posted hopen
            have hsame : ∀ key, seconds (recordPortion hashing s timezone tariff db p) key = seconds db key := by
              intro key
              rw [seconds, seconds, hrows]
            have hposted : ∀ key, Posted (recordPortion hashing s timezone tariff db p) key ↔ Posted db key := by
              intro key
              rw [Posted, Posted, hrows]
            simp only [← hsame, ih hrest, hposted, hopen, or_true, true_and]
            refine forall₂_congr fun q _ => ⟨fun h => ?_, fun h => ?_⟩
            · rcases h with h | h
              · by_cases hdate : q.1 = p.1
                · exact .inr (hdate ▸ hopen)
                · refine .inl ?_
                  obtain ⟨e, he, hkey⟩ := List.any_eq_true.mp h
                  rw [recordPortion, if_neg (by simp [hold])] at he
                  rcases List.mem_append.mp he with he | he
                  · exact List.any_eq_true.mpr ⟨e, he, hkey⟩
                  · rw [List.mem_singleton.mp he] at hkey
                    simp only [Bool.and_eq_true, beq_iff_eq] at hkey
                    exact absurd (hdates _ _ hkey.2).symm hdate
              · exact .inr h
            · exact h.imp (fun h => replayed_mono h (recordPortion_audit db p)) id
          · constructor
            · intro hsame
              have hmore := hgrows chunks (recordPortion hashing s timezone tariff db p) hrest (s.terminalId, p.1)
              rw [source_recordPortion hold hopen, source_of_seconds (hsame _)] at hmore
              omega
            · rintro ⟨hhead, -⟩
              simp [hopen] at hhead

end Portions

/-- What the rows and the audit have in common. -/
structure Sums (db : Db) : Prop where
  distinct : db.audit.Pairwise fun a b => ¬ (a.tenantId = b.tenantId ∧ a.operationId = b.operationId)
  absent : ∀ key, db.rows key = none → recordedOn db key = []
  unposted : ∀ key row, db.rows key = some row → row.ledgerTransactionId = none →
    row.videoSeconds = ((recordedOn db key).map Recorded.videoSeconds).sum ∧
    row.consoleSeconds = ((recordedOn db key).map Recorded.consoleSeconds).sum ∧
    row.sourceSeconds = ((recordedOn db key).map fun e => e.videoSeconds + e.consoleSeconds).sum ∧
    row.freeSeconds = row.sourceSeconds

section Runs

variable {hashing : Hashing} {resolve : String → Option Zone} {fuel : Nat} {db db' : Db} {s : Session} {timezone : String}
  {tariff : Nat}

theorem sums_fresh (h : Fresh db) : Sums db := by
  refine ⟨?_, fun key _ => ?_, fun key row hrow hledger => absurd hledger (h.posted key row hrow)⟩
  · rw [h.audit]
    exact List.Pairwise.nil
  · rw [recordedOn, h.audit, List.filter_nil]

theorem portion_type (htype : s.sessionType = "video" ∨ s.sessionType = "console") (n : Int) :
    videoOf s n + consoleOf s n = n := by
  rcases htype with h | h
  · simp [videoOf, consoleOf, h]
  · simp [videoOf, consoleOf, h]

theorem Sums.recordPortion (h : Sums db) (htype : s.sessionType = "video" ∨ s.sessionType = "console")
    (portion : Int × Int) : Sums (recordPortion hashing s timezone tariff db portion) := by
  rw [DailyUsage.recordPortion]
  split
  next => exact h
  next hnew =>
    have hsum := portion_type htype portion.2
    have hsame : ∀ key e, e.terminalId = s.terminalId → e.localDate = portion.1 → key ≠ (s.terminalId, portion.1) →
        ([e].filter fun e : Recorded => e.terminalId == key.1 && e.localDate == key.2) = [] := by
      intro key e hterminal hdate hkey
      rw [List.filter_eq_nil_iff]
      intro x hx
      rw [List.mem_singleton.mp hx, Bool.and_eq_true, beq_iff_eq, beq_iff_eq, hterminal, hdate]
      exact fun hboth => hkey (Prod.ext hboth.1.symm hboth.2.symm)
    refine ⟨?_, fun key hnone => ?_, fun key row hrow hledger => ?_⟩
    · refine List.pairwise_append.mpr ⟨h.distinct, List.pairwise_singleton _ _, ?_⟩
      rintro a ha b hb ⟨htenant, hoperation⟩
      rw [List.mem_singleton.mp hb] at htenant hoperation
      refine hnew (List.any_eq_true.mpr ⟨a, ha, ?_⟩)
      rw [Bool.and_eq_true, beq_iff_eq, beq_iff_eq]
      exact ⟨htenant, hoperation⟩
    · dsimp only at hnone
      by_cases hkey : key = (s.terminalId, portion.1)
      · rw [hkey] at hnone
        simp at hnone
      · rw [Function.update_of_ne hkey] at hnone
        simp only [recordedOn, List.filter_append]
        rw [hsame key _ rfl rfl hkey, List.append_nil]
        exact h.absent key hnone
    · dsimp only at hrow
      by_cases hkey : key = (s.terminalId, portion.1)
      · subst hkey
        simp only [Function.update_self, Option.some.injEq] at hrow
        simp only [recordedOn, List.filter_append, List.filter_cons, beq_self_eq_true, Bool.and_self, ↓reduceIte,
          List.filter_nil, List.map_append, List.sum_append, List.map_cons, List.map_nil, List.sum_cons, List.sum_nil,
          add_zero, hsum]
        cases hold : db.rows (s.terminalId, portion.1) with
        | none =>
            have habsent := h.absent _ hold
            rw [recordedOn] at habsent
            simp only [rowFor, hold, addSeconds] at hrow
            simp [← hrow, habsent]
        | some row₀ =>
            simp only [rowFor, hold] at hrow
            cases hposted : row₀.ledgerTransactionId with
            | some ledgerId =>
                simp only [addSeconds, hposted] at hrow
                rw [← hrow, hposted] at hledger
                cases hledger
            | none =>
                obtain ⟨hvideo, hconsole, hsource, hfree⟩ := h.unposted _ row₀ hold hposted
                simp only [addSeconds, hposted] at hrow
                rw [recordedOn] at hvideo hconsole hsource
                rw [← hrow]
                exact ⟨by rw [hvideo], by rw [hconsole], by rw [hsource], by rw [hfree]⟩
      · rw [Function.update_of_ne hkey] at hrow
        simp only [recordedOn, List.filter_append]
        rw [hsame key _ rfl rfl hkey, List.append_nil]
        exact h.unposted key row hrow hledger

theorem portions_tariffs (db : Db) (tariffs : List Nat) (s : Session) :
    portions resolve fuel { db with tariffs := tariffs } s = portions resolve fuel db s := rfl

theorem recordSessionUsage_ok (h : recordSessionUsage hashing resolve fuel db s = .ok db') :
    (s.sessionType = "video" ∨ s.sessionType = "console") ∧ db.tenantOf s.terminalId = some s.tenantId ∧
      ∃ chunks tariffs, portions resolve fuel db s = .ok chunks ∧
        db' = chunks.foldl (recordPortion hashing s (timezoneOf db s.tenantId) (tariffs.headD 1))
          { db with tariffs := tariffs } := by
  unfold recordSessionUsage at h
  split at h
  next => cases h
  next htype =>
    split at h
    next => cases h
    next hterminal =>
      have htype' : s.sessionType = "video" ∨ s.sessionType = "console" := by
        by_contra hneither
        exact htype (not_or.mp hneither)
      refine ⟨htype', not_not.mp hterminal, ?_⟩
      dsimp only at h
      cases hchunks : portions resolve fuel db s with
      | error failure =>
          split at h <;> simp [portions_tariffs, hchunks, Except.map] at h
      | ok chunks =>
          split at h
          next =>
            simp only [portions_tariffs, hchunks, Except.map, Except.ok.injEq] at h
            exact ⟨chunks, [1], rfl, h.symm⟩
          next =>
            simp only [hchunks, Except.map, Except.ok.injEq] at h
            exact ⟨chunks, db.tariffs, rfl, h.symm⟩

theorem Sums.fold (h : Sums db) (htype : s.sessionType = "video" ∨ s.sessionType = "console") (chunks : List (Int × Int)) :
    Sums (chunks.foldl (DailyUsage.recordPortion hashing s timezone tariff) db) :=
  List.foldlRecOn chunks _ h fun _ h p _ => h.recordPortion htype p

theorem Sums.called (h : Sums db) : Sums (called hashing resolve fuel db s) := by
  unfold DailyUsage.called
  split
  next db' hcall =>
    obtain ⟨htype, -, chunks, tariffs, -, rfl⟩ := recordSessionUsage_ok hcall
    have hadapted : Sums { db with tariffs := tariffs } := ⟨h.distinct, h.absent, h.unposted⟩
    exact hadapted.fold htype chunks
  next => exact h

theorem Sums.step (h : Sums db) (hstep : Step hashing resolve db db') : Sums db' := by
  cases hstep with
  | recorded => exact h.called
  | moved => exact ⟨h.distinct, h.absent, h.unposted⟩
  | posted key =>
      refine ⟨h.distinct, fun k hnone => ?_, fun k r hr hledger => ?_⟩
      · dsimp only at hnone
        by_cases hk : k = key
        · rw [hk] at hnone
          simp at hnone
        · rw [Function.update_of_ne hk] at hnone
          exact h.absent k hnone
      · dsimp only at hr
        by_cases hk : k = key
        · rw [hk, Function.update_self, Option.some.injEq] at hr
          rw [← hr] at hledger
          cases hledger
        · rw [Function.update_of_ne hk] at hr
          exact h.unposted k r hr hledger

theorem sums_reachable (h : Reachable hashing resolve db) : Sums db := by
  obtain ⟨first, hfirst, hrun⟩ := h
  induction hrun with
  | refl => exact sums_fresh hfirst
  | tail _ hstep ih => exact ih.step hstep

structure Kept (db db' : Db) : Prop where
  audit : db.audit ⊆ db'.audit
  tenantOf : db'.tenantOf = db.tenantOf

theorem Kept.trans {db'' : Db} (h : Kept db db') (h' : Kept db' db'') : Kept db db'' :=
  ⟨fun _ he => h'.audit (h.audit he), h'.tenantOf.trans h.tenantOf⟩

theorem kept_fold (chunks : List (Int × Int)) (db : Db) :
    Kept db (chunks.foldl (recordPortion hashing s timezone tariff) db) := by
  refine List.foldlRecOn chunks _ ⟨fun _ he => he, rfl⟩ fun now hkept p _ => hkept.trans ⟨recordPortion_audit now p, ?_⟩
  rw [recordPortion]
  split <;> rfl

theorem kept_step (hstep : Step hashing resolve db db') : Kept db db' := by
  cases hstep with
  | recorded =>
      unfold called
      split
      next db' hcall =>
        obtain ⟨-, -, chunks, tariffs, -, rfl⟩ := recordSessionUsage_ok hcall
        have hadapted : Kept db { db with tariffs := tariffs } := ⟨fun _ he => he, rfl⟩
        exact hadapted.trans (kept_fold chunks _)
      next => exact ⟨fun _ he => he, rfl⟩
  | moved tenantId name | posted key row ledgerId hrow => exact ⟨fun _ he => he, rfl⟩

theorem kept_run (hrun : Relation.ReflTransGen (Step hashing resolve) db db') : Kept db db' := by
  induction hrun with
  | refl => exact ⟨fun _ he => he, rfl⟩
  | tail _ hstep ih => exact ih.trans (kept_step hstep)

theorem fold_records (chunks : List (Int × Int)) {p : Int × Int} (hp : p ∈ chunks) (db : Db) :
    replayed hashing (chunks.foldl (recordPortion hashing s timezone tariff) db) s p.1 = true := by
  induction chunks generalizing db with
  | nil => exact absurd hp List.not_mem_nil
  | cons q chunks ih =>
      rcases List.mem_cons.mp hp with rfl | hp
      · exact replayed_mono (recordPortion_records db p) (kept_fold chunks _).audit
      · exact ih hp _

theorem called_unchanged (hdates : ∀ t e, Function.Injective fun d => hashing.operation t d e)
    (htype : s.sessionType = "video" ∨ s.sessionType = "console") (hterminal : db.tenantOf s.terminalId = some s.tenantId) :
    (∀ key, seconds (called hashing resolve fuel db s) key = seconds db key) ↔
      ∀ chunks, portions resolve fuel db s = .ok chunks →
        ∀ p ∈ chunks, replayed hashing db s p.1 = true ∨ Posted db (s.terminalId, p.1) := by
  unfold called
  cases hcall : recordSessionUsage hashing resolve fuel db s with
  | error failure =>
      refine ⟨fun _ chunks hchunks => ?_, fun _ _ => rfl⟩
      unfold recordSessionUsage at hcall
      rw [if_neg (by tauto), if_neg (not_not.mpr hterminal)] at hcall
      dsimp only at hcall
      split at hcall <;> simp [portions_tariffs, hchunks, Except.map] at hcall
  | ok db' =>
      obtain ⟨-, -, chunks, tariffs, hchunks, rfl⟩ := recordSessionUsage_ok hcall
      refine (fold_unchanged hdates chunks (portions_positive hchunks)).trans
        ⟨fun h chunks' hchunks' => ?_, fun h => h chunks hchunks⟩
      obtain rfl := Except.ok.inj (hchunks.symm.trans hchunks')
      exact h

/-- After any run, the seconds of a row that is not posted are those of the
portions that were recorded, each once. A session that was recorded and is
recorded again later leaves all seconds as they are just when each date it has
by then was recorded for the event or is posted; so it does where the dates are
among those of the first call. -/
theorem recorded_again (hdates : ∀ t e, Function.Injective fun d => hashing.operation t d e) {db₁ db₂ db₃ : Db}
    {fuel₁ : Nat} (hreach : Reachable hashing resolve db₁)
    (hfirst : recordSessionUsage hashing resolve fuel₁ db₁ s = .ok db₂)
    (hrun : Relation.ReflTransGen (Step hashing resolve) db₂ db₃) (fuel : Nat) :
    ((∀ key, seconds (called hashing resolve fuel db₃ s) key = seconds db₃ key) ↔
      ∀ chunks, portions resolve fuel db₃ s = .ok chunks →
        ∀ p ∈ chunks, replayed hashing db₃ s p.1 = true ∨ Posted db₃ (s.terminalId, p.1)) ∧
    (∀ first second, portions resolve fuel₁ db₁ s = .ok first → portions resolve fuel db₃ s = .ok second →
      (∀ p ∈ second, p.1 ∈ first.map Prod.fst) →
      ∀ key, seconds (called hashing resolve fuel db₃ s) key = seconds db₃ key) ∧
    ∀ key row, (called hashing resolve fuel db₃ s).rows key = some row → row.ledgerTransactionId = none →
      row.sourceSeconds = ((recordedOn (called hashing resolve fuel db₃ s) key).map fun e =>
        e.videoSeconds + e.consoleSeconds).sum ∧
      (called hashing resolve fuel db₃ s).audit.Pairwise fun a b =>
        ¬ (a.tenantId = b.tenantId ∧ a.operationId = b.operationId) := by
  obtain ⟨htype, hterminal, first, tariffs, hchunks, rfl⟩ := recordSessionUsage_ok hfirst
  have hkept := (kept_fold first { db₁ with tariffs := tariffs }).trans (kept_run hrun)
  have hagain : db₃.tenantOf s.terminalId = some s.tenantId := by
    rw [hkept.tenantOf]
    exact hterminal
  have hunchanged : (∀ key, seconds (called hashing resolve fuel db₃ s) key = seconds db₃ key) ↔ _ :=
    called_unchanged hdates htype hagain
  have hreach₃ : Reachable hashing resolve db₃ := by
    obtain ⟨fresh, hfresh, hbefore⟩ := hreach
    have hstep : Step hashing resolve db₁ _ := .recorded db₁ fuel₁ s
    rw [called, hfirst] at hstep
    exact ⟨fresh, hfresh, (hbefore.tail hstep).trans hrun⟩
  refine ⟨hunchanged, fun first' second hfirst' hsecond hdate => ?_, fun key row hrow hledger => ?_⟩
  · obtain rfl := Except.ok.inj (hchunks.symm.trans hfirst')
    refine hunchanged.mpr fun chunks hchunks' p hp => .inl ?_
    obtain rfl := Except.ok.inj (hsecond.symm.trans hchunks')
    obtain ⟨q, hq, hsame⟩ := List.mem_map.mp (hdate p hp)
    rw [← hsame]
    exact replayed_mono (fold_records first hq { db₁ with tariffs := tariffs }) (kept_run hrun).audit
  · have hsums : Sums (called hashing resolve fuel db₃ s) := (sums_reachable hreach₃).called
    exact ⟨(hsums.unposted key row hrow hledger).2.2.1, hsums.distinct⟩

end Runs

section Sample

def ahead : Zone where
  utcoffset _ := 7200000000
  toUtc wall := wall - 7200000000
  bounded _ := by decide
  fold0 wall := .inl ⟨sub_add_cancel wall _, fun t ht => by omega⟩

def sampleResolve (name : String) : Option Zone :=
  if name = "UTC" then some utc else if name = "Etc/GMT-2" then some ahead else none

def marks : Int → List Char
  | .ofNat n => List.replicate n '+'
  | .negSucc n => List.replicate (n + 1) '-'

def sampleHashing : Hashing where
  operation t d e := String.ofList (List.replicate t 't' ++ marks d ++ e.toList)
  chained a b := a ++ b

def sampleDb : Db := ⟨fun t => if t = 7 then some 1 else none, fun _ => none, [], fun _ => none, []⟩

def sampleSession : Session := ⟨1, 7, "video", 100 * day - 3600000000, 100 * day - 1800000000, "e"⟩

def afterFirst : Db := called sampleHashing sampleResolve 3 sampleDb sampleSession

def afterMove : Db := { afterFirst with timezone := Function.update afterFirst.timezone 1 (some "Etc/GMT-2") }

theorem sample_dates (t : Nat) (e : String) : Function.Injective fun d => sampleHashing.operation t d e := by
  intro a b h
  have hmarks : marks a = marks b := by simpa [sampleHashing] using congrArg String.toList h
  cases a with
  | ofNat m =>
      cases b with
      | ofNat n => exact congrArg Int.ofNat (by simpa [marks] using congrArg List.length hmarks)
      | negSucc n =>
          cases m with
          | zero => simp [marks] at hmarks
          | succ m => simp [marks, List.replicate_succ] at hmarks
  | negSucc m =>
      cases b with
      | ofNat n =>
          cases n with
          | zero => simp [marks] at hmarks
          | succ n => simp [marks, List.replicate_succ] at hmarks
      | negSucc n => exact congrArg Int.negSucc (by simpa [marks] using congrArg List.length hmarks)

theorem sample_reachable : Reachable sampleHashing sampleResolve sampleDb :=
  ⟨sampleDb, ⟨fun _ _ hrow => absurd hrow.symm (Option.some_ne_none _), rfl⟩, .refl⟩

theorem sample_recorded : recordSessionUsage sampleHashing sampleResolve 3 sampleDb sampleSession = .ok afterFirst := by
  have hok : (match recordSessionUsage sampleHashing sampleResolve 3 sampleDb sampleSession with
    | .ok _ => true
    | .error _ => false) = true := by decide +kernel
  rw [afterFirst, called]
  split at hok
  next db hcall => rw [hcall]
  next => cases hok

theorem sample_portions :
    portions sampleResolve 3 sampleDb sampleSession = .ok [(99, 1800)] ∧
      portions sampleResolve 3 afterFirst sampleSession = .ok [(99, 1800)] := by
  constructor <;> decide +kernel

theorem recorded_again_sample :
    recordSessionUsage sampleHashing sampleResolve 3 sampleDb sampleSession = .ok afterFirst ∧
      ∀ key, seconds (called sampleHashing sampleResolve 3 afterFirst sampleSession) key = seconds afterFirst key :=
  ⟨sample_recorded, (recorded_again sample_dates sample_reachable sample_recorded .refl 3).2.1 _ _ sample_portions.1
    sample_portions.2 (by simp)⟩

/-- The half hour is on another date for a tenant that has moved ahead. -/
theorem moved_recorded_twice :
    Reachable sampleHashing sampleResolve sampleDb ∧
      recordSessionUsage sampleHashing sampleResolve 3 sampleDb sampleSession = .ok afterFirst ∧
      Step sampleHashing sampleResolve afterFirst afterMove ∧ seconds afterMove (7, 100) = none ∧
      seconds (called sampleHashing sampleResolve 3 afterMove sampleSession) (7, 100) = some (1800, 0, 1800, 1800) :=
  ⟨sample_reachable, sample_recorded, .moved afterFirst 1 _, by decide +kernel, by decide +kernel⟩

end Sample

end EtranProcessing.Metering.DailyUsage
