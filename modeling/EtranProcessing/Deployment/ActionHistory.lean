import EtranProcessing.Deployment.ServiceTransaction
import EtranProcessing.Library.Histories

namespace EtranProcessing.Deployment.ActionHistory

open Library.Fallible Library.Histories Journal JournalFrames JournalRecovery RemoteStatus UpdateMarker WorkerHandoff
open ActionRecords ServiceTransaction

variable {op : Operation} {m m' : Memory} {r : Record} {a : Action} {p : PendingAction}

theorem actionEncode_injective {a b : Action} (h : actionEncode a = actionEncode b) : a = b := by
  rw [← actionRead_encode a, h, actionRead_encode]

theorem intentHistory_ok : intentHistory m r a = .ok m' ↔
    ((m.pending.isNone = true ∧ a.intent = 0 ∧ a.action.toNat = m.done a.service.toNat + 1) ∧
      (a.window = 2 → m.done 0 = 3 ∧ m.done 1 = 3) ∧ windowAgrees m a ∧ (1 < a.action →
        a.pid = (m.completed a.service.toNat).pid ∧ a.birth = (m.completed a.service.toNat).birth)) ∧
    m' = { m with
      windows := Function.update m.windows (a.window.toNat - 1) a
      pending := some ⟨100, r.sequence, a⟩ } := by
  have hwindow : ¬ (a.window = 2 ∧ ¬ (m.done 0 = 3 ∧ m.done 1 = 3)) ↔ (a.window = 2 → m.done 0 = 3 ∧ m.done 1 = 3) := by
    tauto
  simp only [intentHistory, bind_eq_ok, require_eq_ok, return_eq_ok, hwindow, exists_const, and_assoc]

theorem doneHistory_ok : doneHistory m a = .ok m' ↔ ∃ p, m.pending = some p ∧
    (a.intent = .ofNat p.sequence ∧ ¬ (a.action = 3 ∧ a.pid = p.action.pid ∧ a.birth = p.action.birth) ∧
      expectedDone p a = a) ∧
    m' = { m with
      done := Function.update m.done a.service.toNat a.action.toNat
      completed := Function.update m.completed a.service.toNat a
      pending := none } := by
  have hencode : ∀ p, actionEncode (expectedDone p a) = actionEncode a ↔ expectedDone p a = a :=
    fun p => ⟨actionEncode_injective, congrArg actionEncode⟩
  simp only [doneHistory, bind_eq_ok, demand_eq_ok, require_eq_ok, return_eq_ok, exists_const, hencode, and_assoc]

theorem restoreHistory_ok : restoreHistory m r a = .ok m' ↔
    ((m.pending.isNone = true ∧ a.intent = 0 ∧ m.restoreDone a.service.toNat < 3 ∧
      (if a.action = 4 then m.restoreDone a.service.toNat = 0
        else a.action.toNat = m.restoreDone a.service.toNat + 1)) ∧
      ¬ ((a.action = 1 ∧ a.phase ≠ 1 ∧ a.phase ≠ 2 ∧ a.phase ≠ 4) ∨ (a.action = 2 ∧ a.phase ≠ 1 ∧ a.phase ≠ 2) ∨
        (a.action = 3 ∧ a.phase ≠ 1) ∨ (a.action = 4 ∧ a.phase ≠ 3)) ∧
      (a.action = 2 ∨ a.action = 3 →
        a.pid = (m.restored a.service.toNat).pid ∧ a.birth = (m.restored a.service.toNat).birth)) ∧
    m' = { m with pending := some ⟨104, r.sequence, a⟩, restoring := true } := by
  simp only [restoreHistory, bind_eq_ok, require_eq_ok, return_eq_ok, exists_const, and_assoc]

theorem restoredHistory_ok : restoredHistory m r a = .ok m' ↔ ∃ p, m.pending = some p ∧
    ((p.kind = 104 ∧ a.intent = .ofNat p.sequence) ∧
      ¬ (a.action = 3 ∧ a.pid = p.action.pid ∧ a.birth = p.action.birth) ∧
      { expectedDone p a with phase := a.phase } = a ∧
      ¬ ((a.action = 1 ∧ a.phase ≠ 1 ∧ a.phase ≠ 2) ∨ (a.action = 2 ∧ a.phase ≠ 1) ∨ (3 ≤ a.action ∧ a.phase ≠ 3))) ∧
    m' = { m with
      restoreDone := Function.update m.restoreDone a.service.toNat a.action.toNat
      restored := Function.update m.restored a.service.toNat a
      restoreSequences := Function.update m.restoreSequences a.service.toNat r.sequence
      pending := none
      restoring := true } := by
  have hencode : ∀ p, actionEncode { expectedDone p a with phase := a.phase } = actionEncode a ↔
      { expectedDone p a with phase := a.phase } = a :=
    fun p => ⟨actionEncode_injective, congrArg actionEncode⟩
  simp only [restoredHistory, bind_eq_ok, demand_eq_ok, require_eq_ok, return_eq_ok, exists_const, hencode, and_assoc]

theorem abandonHistory_ok : abandonHistory m a = .ok m' ↔ ∃ p, m.pending = some p ∧
    ((p.kind = 100 ∧ a.intent = .ofNat p.sequence ∧ a.service = p.action.service ∧ a.action = p.action.action ∧
      a.reference = p.action.reference) ∧
      (if a.window = p.action.window then a.generation = p.action.generation ∧ a.deadline = p.action.deadline
        else p.action.window = 1 ∧ a.window = 2 ∧ p.action.generation ≠ 2 ^ 64 - 1 ∧
          a.generation = p.action.generation + 1)) ∧
    m' = { m with pending := none, restoring := true } := by
  simp only [abandonHistory, bind_eq_ok, demand_eq_ok, require_eq_ok, return_eq_ok, exists_const, and_assoc]

/-- The records that the replay accepts, and the part of it that accepts them. -/
inductive Accepted (op : Operation) (m : Memory) (r : Record) : Memory → Prop
  | intent {a : Action} {m' : Memory} : r.kind = 100 → m.restoring = false → actionDecode r.bytes 100 = some a →
      actionBound op m r a → intentHistory m r a = .ok m' → Accepted op m r m'
  | done {a : Action} {m' : Memory} : r.kind = 101 → m.restoring = false → actionDecode r.bytes 101 = some a →
      actionBound op m r a → doneHistory m a = .ok m' → Accepted op m r m'
  | restore {a : Action} {m' : Memory} : r.kind = 104 → actionDecode r.bytes 104 = some a → actionBound op m r a →
      restoreHistory m r a = .ok m' → Accepted op m r m'
  | restored {a : Action} {m' : Memory} : r.kind = 105 → actionDecode r.bytes 105 = some a → actionBound op m r a →
      restoredHistory m r a = .ok m' → Accepted op m r m'
  | abandon {a : Action} {m' : Memory} : r.kind = 106 → actionDecode r.bytes 106 = some a → actionBound op m r a →
      abandonHistory m a = .ok m' → Accepted op m r m'
  | configAbandon {m' : Memory} : r.kind = 107 → configAbandonHistory op m r.bytes = .ok m' → Accepted op m r m'
  | early : r.sequence ≤ op.sequence.toNat → ¬ (r.kind = 100 ∨ r.kind = 101) ∧ ¬ (104 ≤ r.kind ∧ r.kind ≤ 107) →
      Accepted op m r m
  | config {m' : Memory} : op.sequence.toNat < r.sequence → r.kind = 21 ∨ r.kind = 22 →
      configHistory op m r = .ok m' → Accepted op m r m'
  | state : op.sequence.toNat < r.sequence → 65 ≤ r.kind ∧ r.kind ≤ 70 → m.pending.isNone = true → Accepted op m r m

theorem history_accepted (h : history op m r = .ok m') : Accepted op m r m' := by
  unfold history at h
  rcases ite_eq_ok.mp h with ⟨_, h⟩ | ⟨h102, h⟩
  · cases h
  rcases ite_eq_ok.mp h with ⟨hk, h⟩ | ⟨hforward, h⟩
  · simp only [bind_eq_ok, require_eq_ok, demand_eq_ok, exists_const] at h
    obtain ⟨hrestoring, a, ha, hbound, h⟩ := h
    rcases hk with hk | hk
    · rw [if_pos hk] at h
      rw [hk] at ha
      exact .intent hk hrestoring ha hbound h
    · rw [if_neg (by rw [hk]; decide)] at h
      rw [hk] at ha
      exact .done hk hrestoring ha hbound h
  rcases ite_eq_ok.mp h with ⟨hk, h⟩ | ⟨hextended, h⟩
  · simp only [bind_eq_ok, require_eq_ok, demand_eq_ok, exists_const] at h
    obtain ⟨a, ha, hbound, h⟩ := h
    rcases ite_eq_ok.mp h with ⟨hk, h⟩ | ⟨h106, h⟩
    · rw [hk] at ha
      exact .abandon hk ha hbound h
    rcases ite_eq_ok.mp h with ⟨hk, h⟩ | ⟨h104, h⟩
    · rw [hk] at ha
      exact .restore hk ha hbound h
    · have hk : r.kind = 105 := by
        unfold extended at hk
        grind
      rw [hk] at ha
      exact .restored hk ha hbound h
  rcases ite_eq_ok.mp h with ⟨hk, h⟩ | ⟨h107, h⟩
  · exact .configAbandon hk h
  rcases ite_eq_ok.mp h with ⟨hsequence, h⟩ | ⟨hsequence, h⟩
  · cases h
    refine .early hsequence ⟨hforward, fun hk => ?_⟩
    unfold extended at hextended
    grind
  rcases ite_eq_ok.mp h with ⟨hk, h⟩ | ⟨_, h⟩
  · exact .config (Nat.not_le.mp hsequence) hk h
  rcases ite_eq_ok.mp h with ⟨hk, h⟩ | ⟨_, h⟩
  · simp only [bind_eq_ok, require_eq_ok, return_eq_ok, exists_const] at h
    obtain ⟨hpending, rfl⟩ := h
    exact .state (Nat.not_le.mp hsequence) hk hpending
  · cases h

def Replays (op : Operation) (entries : List Entry) (m : Memory) : Prop :=
  (numbered entries).foldlM (history op) noMemory = .ok m

def nextRecord (entries : List Entry) (e : Entry) : Record := ⟨e.1, entries.length + 1, e.2⟩

variable {entries : List Entry}

theorem replays_concat {e : Entry} :
    Replays op (entries ++ [e]) m' ↔ ∃ m, Replays op entries m ∧ history op m (nextRecord entries e) = .ok m' := by
  rw [Replays, numbered_append, List.foldlM_append, bind_eq_ok]
  simp only [List.foldlM_cons, List.foldlM_nil, bind_eq_ok, return_eq_ok]
  constructor
  · rintro ⟨m, hm, m'', hr, rfl⟩
    exact ⟨m, hm, hr⟩
  · rintro ⟨m, hm, hr⟩
    exact ⟨m, hm, m', hr, rfl⟩

theorem replays_explained (explains : List Entry → Memory → Prop) (hfirst : explains [] noMemory)
    (hstep : ∀ entries e m m', explains entries m → Accepted op m (nextRecord entries e) m' → explains (entries ++ [e]) m')
    (h : Replays op entries m) : explains entries m := by
  induction entries using List.reverseRecOn generalizing m with
  | nil =>
      cases h
      exact hfirst
  | append_singleton entries e ih =>
      obtain ⟨m', hm, hr⟩ := replays_concat.mp h
      exact hstep entries e m' m (ih hm) (history_accepted hr)

theorem replayInto_true {records : List Record} : (replayInto op m records).1 = true ↔
    records.foldlM (history op) m = .ok (replayInto op m records).2 := by
  induction records generalizing m with
  | nil =>
      rw [replayInto]
      exact ⟨fun _ => rfl, fun _ => rfl⟩
  | cons r records ih =>
      rw [replayInto, List.foldlM_cons]
      cases hr : history op m r with
      | error e =>
          constructor
          · intro h
            cases h
          · intro h
            cases h
      | ok m' => exact ih

theorem replayInto_eq {records : List Record} (h : records.foldlM (history op) m = .ok m') :
    replayInto op m records = (true, m') := by
  induction records generalizing m with
  | nil =>
      cases h
      rfl
  | cons r records ih =>
      rw [List.foldlM_cons, bind_eq_ok] at h
      obtain ⟨m'', hr, hrest⟩ := h
      rw [replayInto, hr]
      exact ih hrest

def serviceIn (e : Entry) : Nat := (actionRead e.2).service.toNat
def actionIn (e : Entry) : Nat := (actionRead e.2).action.toNat

def doneActions (entries : List Entry) (service : Nat) : List Nat :=
  (entries.filter fun e => e.1 == 101 && serviceIn e == service).map actionIn

def restoration (e : Entry) : Prop := 104 ≤ e.1 ∧ e.1 ≤ 107

def forwardOrder (before : List Entry) (e : Entry) : Prop :=
  e.1 = 100 → (1 ≤ actionIn e ∧ actionIn e ≤ 3) ∧ (∀ b ∈ before, ¬ restoration b) ∧
    doneActions before (serviceIn e) = List.range' 1 (actionIn e - 1) ∧
    (2 ≤ serviceIn e → doneActions before 0 = [1, 2, 3] ∧ doneActions before 1 = [1, 2, 3]) ∧
    ∀ b ∈ before, b.1 = 100 →
      (serviceIn b = serviceIn e → actionIn b < actionIn e) ∧ (2 ≤ serviceIn b → 2 ≤ serviceIn e)

theorem doneActions_concat (entries : List Entry) (e : Entry) (i : Nat) :
    doneActions (entries ++ [e]) i = doneActions entries i ++
      if e.1 = 101 ∧ serviceIn e = i then [actionIn e] else [] := by
  unfold doneActions
  rw [List.filter_append, List.map_append]
  congr 1
  by_cases h : e.1 = 101 ∧ serviceIn e = i
  · rw [if_pos h]
    simp [h]
  · rw [if_neg h]
    simp only [List.filter_cons, List.filter_nil, Bool.and_eq_true, beq_iff_eq, if_neg h, List.map_nil]

theorem doneActions_other {e : Entry} (h : e.1 ≠ 101) (i : Nat) :
    doneActions (entries ++ [e]) i = doneActions entries i := by
  rw [doneActions_concat, if_neg fun he => h he.1, List.append_nil]

/-- What is known of an announced action. -/
structure PendingTold (op : Operation) (records : Nat) (m : Memory) (p : PendingAction) : Prop where
  placed : op.sequence.toNat < p.sequence ∧ p.sequence ≤ records
  valid : actionValid p.action p.kind
  bound : p.action.plan = op.sequence ∧ p.action.reference = op.references p.action.service.toNat
  config : m.config = none
  side : (p.kind = 100 ∧ m.restoring = false ∧ p.action.action.toNat = m.done p.action.service.toNat + 1) ∨
    (p.kind = 104 ∧ m.restoring = true)

/-- What the records say of the memory that replays them. -/
structure Told (op : Operation) (entries : List Entry) (m : Memory) : Prop where
  pending : ∀ p, m.pending = some p → PendingTold op entries.length m p
  quiet : m.restoring = false → (∀ e ∈ entries, ¬ restoration e) ∧ ∀ i, m.restoreDone i = 0
  done : ∀ i, doneActions entries i = List.range' 1 (m.done i)
  intents : m.restoring = false → ∀ e ∈ entries, e.1 = 100 →
    (actionIn e ≤ m.done (serviceIn e) ∨ ∃ p, m.pending = some p ∧ p.action = actionRead e.2) ∧
      (2 ≤ serviceIn e → m.done 0 = 3 ∧ m.done 1 = 3)
  ordered : Everywhere forwardOrder entries

theorem told_first : Told op [] noMemory where
  pending p hp := by cases hp
  quiet _ := ⟨by simp, fun _ => rfl⟩
  done _ := rfl
  intents _ := by simp
  ordered := everywhere_nil

section Steps

variable {entries : List Entry} {e : Entry}

theorem PendingTold.mono {n n' : Nat} (h : PendingTold op n m p) (hn : n ≤ n') (hdone : m'.done = m.done)
    (hconfig : m'.config = none) (hrestoring : m'.restoring = m.restoring) : PendingTold op n' m' p where
  placed := ⟨h.placed.1, h.placed.2.trans hn⟩
  valid := h.valid
  bound := h.bound
  config := hconfig
  side := by
    rw [hdone, hrestoring]
    exact h.side

theorem Told.other (h : Told op entries m) (hforward : ¬ (e.1 = 100 ∨ e.1 = 101)) (hback : ¬ restoration e)
    (hdone : m'.done = m.done) (hpending : m'.pending = m.pending) (hrestoring : m'.restoring = m.restoring)
    (hrestored : m'.restoreDone = m.restoreDone) (hconfig : m.pending ≠ none → m'.config = none) :
    Told op (entries ++ [e]) m' where
  pending p hp := by
    rw [hpending] at hp
    have hsome : m.pending ≠ none := by
      rw [hp]
      exact Option.some_ne_none p
    exact (h.pending p hp).mono (by simp) hdone (hconfig hsome) hrestoring
  quiet hquiet := by
    rw [hrestoring] at hquiet
    rw [hrestored]
    obtain ⟨hall, hzero⟩ := h.quiet hquiet
    refine ⟨fun b hb => ?_, hzero⟩
    rcases List.mem_append.mp hb with hb | hb
    · exact hall b hb
    · rw [List.mem_singleton.mp hb]
      exact hback
  done i := by
    rw [doneActions_other (fun h => hforward (.inr h)), hdone]
    exact h.done i
  intents hquiet := by
    rw [hrestoring] at hquiet
    rw [hdone, hpending]
    intro b hb hkind
    rcases List.mem_append.mp hb with hb | hb
    · exact h.intents hquiet b hb hkind
    · rw [List.mem_singleton.mp hb] at hkind
      exact absurd (.inl hkind) hforward
  ordered := h.ordered.concat fun hkind => absurd (.inl hkind) hforward

theorem Told.back (h : Told op entries m) (hforward : ¬ (e.1 = 100 ∨ e.1 = 101)) (hdone : m'.done = m.done)
    (hrestoring : m'.restoring = true) (hpending : ∀ p, m'.pending = some p → PendingTold op (entries.length + 1) m' p) :
    Told op (entries ++ [e]) m' where
  pending p hp := by
    rw [List.length_append]
    exact hpending p hp
  quiet hquiet := by
    rw [hrestoring] at hquiet
    cases hquiet
  done i := by
    rw [doneActions_other (fun h => hforward (.inr h)), hdone]
    exact h.done i
  intents hquiet := by
    rw [hrestoring] at hquiet
    cases hquiet
  ordered := h.ordered.concat fun hkind => absurd (.inl hkind) hforward

theorem actionIn_eq {kind : UInt32} (ha : actionDecode e.2 kind = some a) :
    actionIn e = a.action.toNat ∧ serviceIn e = a.service.toNat := by
  rw [actionDecode_read ha]
  exact ⟨rfl, rfl⟩

theorem Action.le_three (h : actionValid a 100) : a.action.toNat ≤ 3 := by
  have h3 : a.action ≤ 3 := h.1.2.1
  exact h3

theorem window_of_service (h : actionValid a 100) (hs : 2 ≤ a.service.toNat) : a.window = 2 := by
  have hwindow : a.window = if a.service < 2 then 1 else 2 := h.2.1
  rw [hwindow, if_neg]
  rw [UInt32.lt_iff_toNat_lt]
  exact Nat.not_lt.mpr hs

theorem others_first (hle : a.action.toNat ≤ 3) (hnext : a.action.toNat = m.done a.service.toNat + 1)
    (h : m.done 0 = 3 ∧ m.done 1 = 3) : 2 ≤ a.service.toNat := by
  by_contra hlow
  have hcases : a.service.toNat = 0 ∨ a.service.toNat = 1 := by omega
  rcases hcases with hs | hs
  · rw [hs, h.1] at hnext
    omega
  · rw [hs, h.2] at hnext
    omega

theorem told_intent (h : Told op entries m) (hk : e.1 = 100) (hrestoring : m.restoring = false)
    (ha : actionDecode e.2 100 = some a) (hbound : actionBound op m (nextRecord entries e) a)
    (hr : intentHistory m (nextRecord entries e) a = .ok m') : Told op (entries ++ [e]) m' := by
  obtain ⟨⟨⟨hnone, _, hnext⟩, hwindow, _⟩, rfl⟩ := intentHistory_ok.mp hr
  obtain ⟨haction, hservice⟩ := actionIn_eq ha
  have hvalid := actionDecode_valid ha
  have hle := Action.le_three hvalid
  have hsecond : 2 ≤ serviceIn e → m.done 0 = 3 ∧ m.done 1 = 3 := by
    intro hs
    rw [hservice] at hs
    exact hwindow (window_of_service hvalid hs)
  have hbefore : ∀ b ∈ entries, b.1 = 100 → actionIn b ≤ m.done (serviceIn b) ∧
      (2 ≤ serviceIn b → m.done 0 = 3 ∧ m.done 1 = 3) := by
    intro b hb hkind
    obtain ⟨hintent, hsecond⟩ := h.intents hrestoring b hb hkind
    refine ⟨?_, hsecond⟩
    rcases hintent with hintent | ⟨p, hp, _⟩
    · exact hintent
    · rw [hp] at hnone
      cases hnone
  refine ⟨fun p hp => ?_, fun _ => ?_, fun i => ?_, fun _ b hb hkind => ?_, ?_⟩
  · cases hp
    refine ⟨⟨hbound.1, by simp [nextRecord]⟩, hvalid, ⟨hbound.2.1, hbound.2.2.1⟩, ?_, .inl ⟨rfl, hrestoring, hnext⟩⟩
    exact Option.isNone_iff_eq_none.mp hbound.2.2.2
  · obtain ⟨hall, hzero⟩ := h.quiet hrestoring
    refine ⟨fun b hb => ?_, hzero⟩
    rcases List.mem_append.mp hb with hb | hb
    · exact hall b hb
    · rw [List.mem_singleton.mp hb, restoration, hk]
      decide
  · rw [doneActions_other (by rw [hk]; decide)]
    exact h.done i
  · rcases List.mem_append.mp hb with hb | hb
    · obtain ⟨hintent, hsecond⟩ := hbefore b hb hkind
      exact ⟨.inl hintent, hsecond⟩
    · rw [List.mem_singleton.mp hb]
      exact ⟨.inr ⟨_, rfl, actionDecode_read ha⟩, hsecond⟩
  · refine h.ordered.concat fun _ => ⟨?_, (h.quiet hrestoring).1, ?_, fun hs => ?_, fun b hb hkind => ?_⟩
    · rw [haction]
      exact ⟨by omega, hle⟩
    · rw [h.done, haction, hservice, hnext]
      rfl
    · obtain ⟨h0, h1⟩ := hsecond hs
      rw [h.done, h.done, h0, h1]
      exact ⟨rfl, rfl⟩
    · obtain ⟨hintent, hlater⟩ := hbefore b hb hkind
      rw [haction, hservice]
      refine ⟨fun hsame => ?_, fun hs => others_first hle hnext (hlater hs)⟩
      rw [hsame] at hintent
      omega

theorem expectedDone_eq (h : expectedDone p a = a) : a.action = p.action.action ∧ a.service = p.action.service := by
  unfold expectedDone at h
  split at h
  next => exact ⟨by rw [← h], by rw [← h]⟩
  next => exact ⟨by rw [← h], by rw [← h]⟩

theorem told_done (h : Told op entries m) (hk : e.1 = 101) (hrestoring : m.restoring = false)
    (ha : actionDecode e.2 101 = some a) (hr : doneHistory m a = .ok m') : Told op (entries ++ [e]) m' := by
  obtain ⟨p, hp, ⟨_, _, hexpected⟩, hm'⟩ := doneHistory_ok.mp hr
  have hdone : m'.done = Function.update m.done a.service.toNat a.action.toNat := by rw [hm']
  obtain ⟨haction, hservice⟩ := actionIn_eq ha
  obtain ⟨hsame, hof⟩ := expectedDone_eq hexpected
  have hpending := h.pending p hp
  have hnext : a.action.toNat = m.done a.service.toNat + 1 := by
    rcases hpending.side with ⟨_, _, hnext⟩ | ⟨_, hback⟩
    · rw [hsame, hof]
      exact hnext
    · rw [hback] at hrestoring
      cases hrestoring
  have hvalid := actionDecode_valid ha
  have hle : a.action.toNat ≤ 3 := hvalid.1.2.1
  refine ⟨fun p hp => ?_, fun _ => ?_, fun i => ?_, fun _ b hb hkind => ?_, ?_⟩
  · rw [hm'] at hp
    cases hp
  · rw [hm']
    obtain ⟨hall, hzero⟩ := h.quiet hrestoring
    refine ⟨fun b hb => ?_, hzero⟩
    rcases List.mem_append.mp hb with hb | hb
    · exact hall b hb
    · rw [List.mem_singleton.mp hb, restoration, hk]
      decide
  · rw [doneActions_concat, h.done, haction, hservice, hdone]
    by_cases hi : i = a.service.toNat
    · subst hi
      rw [if_pos ⟨hk, rfl⟩, Function.update_self, hnext, List.range'_1_concat, Nat.add_comm 1]
    · rw [if_neg fun h => hi h.2.symm, Function.update_of_ne hi, List.append_nil]
  · rcases List.mem_append.mp hb with hb | hb
    · obtain ⟨hintent, hlater⟩ := h.intents hrestoring b hb hkind
      rw [hdone]
      constructor
      · left
        rcases hintent with hintent | ⟨p', hp', heq⟩
        · by_cases hi : serviceIn b = a.service.toNat
          · rw [hi, Function.update_self]
            rw [hi] at hintent
            omega
          · rw [Function.update_of_ne hi]
            exact hintent
        · rw [hp] at hp'
          cases hp'
          have hservice' : serviceIn b = a.service.toNat := by
            rw [serviceIn, ← heq, hof]
          rw [hservice', Function.update_self, actionIn, ← heq, hsame]
      · intro hs
        have hthree := hlater hs
        have hother := others_first hle hnext hthree
        rw [Function.update_of_ne (by omega), Function.update_of_ne (by omega)]
        exact hthree
    · rw [List.mem_singleton.mp hb, hk] at hkind
      cases hkind
  · refine h.ordered.concat fun hkind => ?_
    rw [hk] at hkind
    cases hkind

theorem configHistory_kept (hr : configHistory op m r = .ok m') : m.pending = none ∧ m'.done = m.done ∧
    m'.pending = m.pending ∧ m'.restoring = m.restoring ∧ m'.restoreDone = m.restoreDone ∧ m'.restored = m.restored := by
  simp only [configHistory, bind_eq_ok, require_eq_ok, exists_const] at hr
  obtain ⟨⟨hnone, _⟩, _, _, hr⟩ := hr
  have hpending := Option.isNone_iff_eq_none.mp hnone
  rcases ite_eq_ok.mp hr with ⟨_, hr⟩ | ⟨_, hr⟩
  · simp only [bind_eq_ok, require_eq_ok, return_eq_ok, exists_const] at hr
    obtain ⟨_, rfl⟩ := hr
    exact ⟨hpending, rfl, rfl, rfl, rfl, rfl⟩
  · simp only [bind_eq_ok, require_eq_ok, demand_eq_ok, return_eq_ok, exists_const] at hr
    obtain ⟨_, _, _, rfl⟩ := hr
    exact ⟨hpending, rfl, rfl, rfl, rfl, rfl⟩

theorem told_step (h : Told op entries m) (hr : Accepted op m (nextRecord entries e) m') : Told op (entries ++ [e]) m' := by
  cases hr with
  | intent hk hrestoring ha hbound hr => exact told_intent h hk hrestoring ha hbound hr
  | done hk hrestoring ha _ hr => exact told_done h hk hrestoring ha hr
  | restore hk ha hbound hr =>
      obtain ⟨_, rfl⟩ := restoreHistory_ok.mp hr
      have hkind : e.1 = 104 := hk
      refine h.back (by rw [hkind]; decide) rfl rfl fun p hp => ?_
      cases hp
      exact ⟨⟨hbound.1, Nat.le_refl _⟩, actionDecode_valid ha, ⟨hbound.2.1, hbound.2.2.1⟩,
        Option.isNone_iff_eq_none.mp hbound.2.2.2, .inr ⟨rfl, rfl⟩⟩
  | restored hk _ _ hr =>
      obtain ⟨p, hp, _, rfl⟩ := restoredHistory_ok.mp hr
      have hkind : e.1 = 105 := hk
      refine h.back (by rw [hkind]; decide) rfl rfl fun p hp => ?_
      cases hp
  | abandon hk _ _ hr =>
      obtain ⟨p, hp, _, rfl⟩ := abandonHistory_ok.mp hr
      have hkind : e.1 = 106 := hk
      refine h.back (by rw [hkind]; decide) rfl rfl fun p hp => ?_
      cases hp
  | configAbandon hk hr =>
      simp only [configAbandonHistory, bind_eq_ok, require_eq_ok, demand_eq_ok, return_eq_ok, exists_const] at hr
      obtain ⟨c, _, ⟨_, _, _, hnone, _⟩, rfl⟩ := hr
      have hkind : e.1 = 107 := hk
      refine h.back (by rw [hkind]; decide) rfl rfl fun p hp => ?_
      rw [Option.isNone_iff_eq_none.mp hnone] at hp
      cases hp
  | early _ hk =>
      exact h.other hk.1 hk.2 rfl rfl rfl rfl fun hsome => by
        obtain ⟨p, hp⟩ := Option.ne_none_iff_exists'.mp hsome
        exact (h.pending p hp).config
  | config _ hk hr =>
      obtain ⟨hnone, hdone, hpending, hrestoring, hrestored, _⟩ := configHistory_kept hr
      have hkind : e.1 = 21 ∨ e.1 = 22 := hk
      exact h.other (by grind) (by unfold restoration; grind) hdone hpending hrestoring hrestored
        fun hsome => absurd hnone hsome
  | state _ hk hnone =>
      have hkind : 65 ≤ e.1 ∧ e.1 ≤ 70 := hk
      exact h.other (by grind) (by unfold restoration; grind) rfl rfl rfl rfl
        fun hsome => absurd (Option.isNone_iff_eq_none.mp hnone) hsome

theorem replays_told (h : Replays op entries m) : Told op entries m :=
  replays_explained (Told op) told_first (fun _ _ _ _ => told_step) h

end Steps

section Intents

def intentKinds : List UInt32 := [21, 22, 100, 101, 104, 105, 106, 107]

def intentRecords (op : Operation) (entries : List Entry) : List Record :=
  (numbered entries).filter fun r => decide (op.sequence.toNat < r.sequence ∧ r.kind ∈ intentKinds)

def resolves (a b : Record) : Prop :=
  (((a.kind = 100 ∧ (b.kind = 101 ∨ b.kind = 106)) ∨ (a.kind = 104 ∧ b.kind = 105)) ∧
    (actionRead b.bytes).intent = .ofNat a.sequence) ∨
  (a.kind = 21 ∧ ((b.kind = 22 ∧ UInt64.ofNat (u64 b.bytes 0) = .ofNat (u64 a.bytes 0)) ∨
    (b.kind = 107 ∧ UInt64.ofNat (u64 b.bytes 72) = .ofNat a.sequence)))

/-- The intent that is open is the one in memory. -/
inductive Opened (m : Memory) : Option Record → Prop
  | idle : m.pending = none → m.config = none → Opened m none
  | action {r : Record} {p : PendingAction} : m.pending = some p → m.config = none → r.kind = p.kind →
      r.sequence = p.sequence → Opened m (some r)
  | config {r : Record} {c : PendingConfig} : m.pending = none → m.config = some c → r.kind = 21 →
      UInt64.ofNat r.sequence = c.intent → UInt64.ofNat (u64 r.bytes 0) = c.reference → Opened m (some r)

variable {o : Option Record}

theorem Opened.eq_none (h : Opened m o) (hp : m.pending.isNone = true) (hc : m.config.isNone = true) :
    o = none := by
  cases h with
  | idle => rfl
  | action hp' =>
      rw [hp'] at hp
      cases hp
  | config _ hc' =>
      rw [hc'] at hc
      cases hc

theorem Opened.pending (h : Opened m o) (hp : m.pending = some p) :
    ∃ r, o = some r ∧ r.kind = p.kind ∧ r.sequence = p.sequence ∧ m.config = none := by
  cases h with
  | idle hp' | config hp' =>
      rw [hp] at hp'
      cases hp'
  | @action r p' hp' hc hk hs =>
      rw [hp] at hp'
      cases hp'
      exact ⟨r, rfl, hk, hs, hc⟩

theorem Opened.writing {c : PendingConfig} (h : Opened m o) (hc : m.config = some c) :
    ∃ r, o = some r ∧ r.kind = 21 ∧ UInt64.ofNat r.sequence = c.intent ∧
      UInt64.ofNat (u64 r.bytes 0) = c.reference ∧ m.pending = none := by
  cases h with
  | idle _ hc' | action _ hc' =>
      rw [hc] at hc'
      cases hc'
  | @config r c' hp hc' hk hs hr =>
      rw [hc] at hc'
      cases hc'
      exact ⟨r, rfl, hk, hs, hr, hp⟩

variable {entries : List Entry} {e : Entry}

theorem intentRecords_concat (hplan : op.sequence.toNat < entries.length + 1) (hk : e.1 ∈ intentKinds) :
    intentRecords op (entries ++ [e]) = intentRecords op entries ++ [nextRecord entries e] := by
  rw [intentRecords, numbered_append, List.filter_append]
  congr 1
  simp [nextRecord, hplan, hk]

theorem intentRecords_other (h : entries.length + 1 ≤ op.sequence.toNat ∨ e.1 ∉ intentKinds) :
    intentRecords op (entries ++ [e]) = intentRecords op entries := by
  rw [intentRecords, numbered_append, List.filter_append]
  have hout : ¬ (op.sequence.toNat < entries.length + 1 ∧ e.1 ∈ intentKinds) := by
    rintro ⟨hplan, hk⟩
    rcases h with h | h
    · omega
    · exact h hk
  refine (congrArg _ ?_).trans (List.append_nil _)
  rw [List.filter_eq_nil_iff]
  intro r hr
  obtain rfl := List.mem_singleton.mp hr
  simpa using hout

theorem intentRecords_placed {r : Record} (h : r ∈ intentRecords op entries) :
    op.sequence.toNat < r.sequence ∧ r.sequence ≤ entries.length := by
  obtain ⟨hin, hplan⟩ := List.mem_filter.mp h
  rw [decide_eq_true_eq] at hplan
  refine ⟨hplan.1, ?_⟩
  obtain ⟨i, hi, rfl⟩ := List.mem_mapIdx.mp hin
  exact hi

def OneOpen (op : Operation) (entries : List Entry) (m : Memory) : Prop :=
  ∃ o, Announced resolves o (intentRecords op entries) ∧ Opened m o

theorem oneOpen_first : OneOpen op [] noMemory := ⟨none, announced_nil, .idle rfl rfl⟩

theorem OneOpen.announce (h : OneOpen op entries m) (hp : m.pending.isNone = true) (hc : m.config.isNone = true)
    (hplan : op.sequence.toNat < entries.length + 1) (hk : e.1 ∈ intentKinds)
    (hopened : Opened m' (some (nextRecord entries e))) : OneOpen op (entries ++ [e]) m' := by
  obtain ⟨o, ho, hm⟩ := h
  obtain rfl := hm.eq_none hp hc
  refine ⟨some (nextRecord entries e), ?_, hopened⟩
  rw [intentRecords_concat hplan hk]
  exact ho.announce _

theorem Announced.resolve {a : Record} (ho : Announced resolves o (intentRecords op entries))
    (hoa : o = some a) (hplan : op.sequence.toNat < entries.length + 1) (hk : e.1 ∈ intentKinds)
    (hresolves : resolves a (nextRecord entries e)) (hp : m'.pending = none) (hc : m'.config = none) :
    OneOpen op (entries ++ [e]) m' := by
  subst hoa
  refine ⟨none, ?_, .idle hp hc⟩
  rw [intentRecords_concat hplan hk]
  exact ho.finish hresolves

theorem config_step (h : OneOpen op entries m) (hplan : op.sequence.toNat < entries.length + 1) (hk : e.1 = 21 ∨ e.1 = 22)
    (hr : configHistory op m (nextRecord entries e) = .ok m') : OneOpen op (entries ++ [e]) m' := by
  simp only [configHistory, bind_eq_ok, require_eq_ok, exists_const] at hr
  obtain ⟨⟨hnone, _⟩, _, _, hr⟩ := hr
  rcases ite_eq_ok.mp hr with ⟨h21, hr⟩ | ⟨h21, hr⟩
  · simp only [bind_eq_ok, require_eq_ok, return_eq_ok, exists_const] at hr
    obtain ⟨hconfig, rfl⟩ := hr
    have hkind : e.1 = 21 := h21
    exact h.announce hnone hconfig hplan (by rw [hkind]; decide)
      (.config (Option.isNone_iff_eq_none.mp hnone) rfl hkind rfl rfl)
  · simp only [bind_eq_ok, require_eq_ok, demand_eq_ok, return_eq_ok, exists_const] at hr
    obtain ⟨c, hc, ⟨hreference, _⟩, rfl⟩ := hr
    obtain ⟨o, ho, hm⟩ := h
    obtain ⟨a, hoa, hak, _, har, hp⟩ := hm.writing hc
    have hkind : e.1 = 22 := hk.resolve_left h21
    exact Announced.resolve ho hoa hplan (by rw [hkind]; decide)
      (.inr ⟨hak, .inl ⟨hkind, hreference.symm.trans har.symm⟩⟩) hp rfl

theorem oneOpen_step (ht : Told op entries m) (h : OneOpen op entries m)
    (hr : Accepted op m (nextRecord entries e) m') : OneOpen op (entries ++ [e]) m' := by
  cases hr with
  | intent hk _ _ hbound hr =>
      obtain ⟨⟨⟨hnone, _⟩, _⟩, rfl⟩ := intentHistory_ok.mp hr
      have hkind : e.1 = 100 := hk
      exact h.announce hnone hbound.2.2.2 hbound.1 (by rw [hkind]; decide)
        (.action rfl (Option.isNone_iff_eq_none.mp hbound.2.2.2) hkind rfl)
  | restore hk _ hbound hr =>
      obtain ⟨⟨⟨hnone, _⟩, _⟩, rfl⟩ := restoreHistory_ok.mp hr
      have hkind : e.1 = 104 := hk
      exact h.announce hnone hbound.2.2.2 hbound.1 (by rw [hkind]; decide)
        (.action rfl (Option.isNone_iff_eq_none.mp hbound.2.2.2) hkind rfl)
  | done hk hrestoring ha hbound hr =>
      obtain ⟨p, hp, ⟨hintent, _⟩, rfl⟩ := doneHistory_ok.mp hr
      obtain ⟨o, ho, hm⟩ := h
      obtain ⟨r, hoa, hrk, hrs, hconfig⟩ := hm.pending hp
      have hkind : e.1 = 101 := hk
      have hp100 : p.kind = 100 := by
        rcases (ht.pending p hp).side with ⟨hside, _⟩ | ⟨_, hback⟩
        · exact hside
        · rw [hback] at hrestoring
          cases hrestoring
      rw [actionDecode_read ha] at hintent
      exact Announced.resolve ho hoa hbound.1 (by rw [hkind]; decide)
        (.inl ⟨.inl ⟨hrk.trans hp100, .inl hkind⟩, by rw [hrs]; exact hintent⟩) rfl hconfig
  | restored hk ha hbound hr =>
      obtain ⟨p, hp, ⟨⟨hp104, hintent⟩, _⟩, rfl⟩ := restoredHistory_ok.mp hr
      obtain ⟨o, ho, hm⟩ := h
      obtain ⟨r, hoa, hrk, hrs, hconfig⟩ := hm.pending hp
      have hkind : e.1 = 105 := hk
      rw [actionDecode_read ha] at hintent
      exact Announced.resolve ho hoa hbound.1 (by rw [hkind]; decide)
        (.inl ⟨.inr ⟨hrk.trans hp104, hkind⟩, by rw [hrs]; exact hintent⟩) rfl hconfig
  | abandon hk ha hbound hr =>
      obtain ⟨p, hp, ⟨⟨hp100, hintent, _⟩, _⟩, rfl⟩ := abandonHistory_ok.mp hr
      obtain ⟨o, ho, hm⟩ := h
      obtain ⟨r, hoa, hrk, hrs, hconfig⟩ := hm.pending hp
      have hkind : e.1 = 106 := hk
      rw [actionDecode_read ha] at hintent
      exact Announced.resolve ho hoa hbound.1 (by rw [hkind]; decide)
        (.inl ⟨.inl ⟨hrk.trans hp100, .inr hkind⟩, by rw [hrs]; exact hintent⟩) rfl hconfig
  | configAbandon hk hr =>
      simp only [configAbandonHistory, bind_eq_ok, require_eq_ok, demand_eq_ok, return_eq_ok, exists_const] at hr
      obtain ⟨c, hc, ⟨_, _, ⟨_, _, _, hintent, _⟩, hnone, _⟩, rfl⟩ := hr
      obtain ⟨o, ho, hm⟩ := h
      obtain ⟨r, hoa, hrk, hrs, _, hpending⟩ := hm.writing hc
      have hkind : e.1 = 107 := hk
      have hopen : r ∈ intentRecords op entries := by
        rw [hoa] at ho
        exact ho.mem
      have hplan := intentRecords_placed hopen
      refine Announced.resolve ho hoa (by omega) (by rw [hkind]; decide) (.inr ⟨hrk, .inr ⟨hkind, ?_⟩⟩) hpending rfl
      rw [hrs, hintent, UInt64.ofNat_toNat]
  | early hplan hk =>
      obtain ⟨o, ho, hm⟩ := h
      refine ⟨o, ?_, hm⟩
      rw [intentRecords_other (.inl hplan)]
      exact ho
  | config hplan hk hr => exact config_step h hplan hk hr
  | state _ hk _ =>
      obtain ⟨o, ho, hm⟩ := h
      refine ⟨o, ?_, hm⟩
      have hkind : 65 ≤ e.1 ∧ e.1 ≤ 70 := hk
      rw [intentRecords_other (.inr fun hin => ?_)]
      · exact ho
      · simp only [intentKinds, List.mem_cons, List.not_mem_nil, or_false] at hin
        grind

theorem replays_oneOpen (h : Replays op entries m) : OneOpen op entries m := by
  have hboth : Told op entries m ∧ OneOpen op entries m :=
    replays_explained (fun entries m => Told op entries m ∧ OneOpen op entries m) ⟨told_first, oneOpen_first⟩
      (fun _ _ _ _ hb hr => ⟨told_step hb.1 hr, oneOpen_step hb.1 hb.2 hr⟩) h
  exact hboth.2

end Intents

section Windows

variable {sha256 : Bytes → Digest} {expected : UpdateState} {h h' : ActiveHistory} {l : UpdateState}

def inWindow (p : PendingAction) (l : UpdateState) : Prop :=
  p.action.window = l.window ∧ p.action.generation = l.generation ∧ p.action.deadline = l.deadlineUtc

theorem activeVisit_action (hv : activeVisit sha256 expected h r = .ok h') (hk : r.kind = 100 ∨ r.kind = 104) :
    h' = h ∧ ∃ l, h.last = some l ∧ activeAction expected l r.kind r.bytes := by
  have hprepared : r.kind ∉ preparationKinds ∧ r.kind ≠ 69 ∧ r.kind ≠ 65 ∧ ¬ (r.kind = 21 ∨ r.kind = 22) ∧ r.kind ≠ 107 := by
    rcases hk with hk | hk
    · rw [hk]
      decide
    · rw [hk]
      decide
  obtain ⟨hprepared, h69, h65, h21, h107⟩ := hprepared
  have haction : r.kind = 100 ∨ r.kind = 101 ∨ r.kind = 104 ∨ r.kind = 105 ∨ r.kind = 106 := by
    rcases hk with hk | hk
    · exact .inl hk
    · exact .inr (.inr (.inl hk))
  unfold activeVisit at hv
  rw [if_neg hprepared, if_neg h69, if_neg h65] at hv
  rcases ite_eq_ok.mp hv with ⟨_, hv⟩ | ⟨_, hv⟩
  · cases hv
  simp only [bind_eq_ok, demand_eq_ok, if_neg h21, if_neg h107, if_pos haction, require_eq_ok, return_eq_ok,
    exists_const] at hv
  obtain ⟨l, hl, hv, hend⟩ := hv
  exact ⟨hend, l, hl, hv⟩

theorem inWindow_of_action {kind kind' : UInt32} {b : Bytes} {n : Nat} (ha : actionDecode b kind = some a)
    (h : activeAction expected l kind' b) : inWindow ⟨kind, n, a⟩ l := by
  obtain ⟨_, ⟨hwindow, hgeneration, hdeadline, _⟩, _⟩ := h
  rw [actionDecode_read ha]
  refine ⟨?_, ?_, ?_⟩
  · simp [actionRead, hwindow]
  · simp [actionRead, hgeneration]
  · simp [actionRead, hdeadline]

variable {entries : List Entry}

theorem active_pending (hm : Replays op entries m)
    (ha : (numbered entries).foldlM (activeVisit sha256 expected) freshHistory = .ok h)
    (hp : m.pending = some p) : ∃ l, h.last = some l ∧ inWindow p l := by
  rcases List.eq_nil_or_concat' entries with rfl | ⟨before, e, rfl⟩
  · cases hm
    cases hp
  obtain ⟨m0, hm0, hr⟩ := replays_concat.mp hm
  rw [numbered_append, List.foldlM_append, bind_eq_ok] at ha
  obtain ⟨h0, _, hv⟩ := ha
  simp only [List.foldlM_cons, List.foldlM_nil, bind_eq_ok, return_eq_ok] at hv
  obtain ⟨h1, hv, rfl⟩ := hv
  cases history_accepted hr with
  | intent hk _ ha _ hr =>
      obtain ⟨_, rfl⟩ := intentHistory_ok.mp hr
      cases hp
      obtain ⟨rfl, l, hl, haction⟩ := activeVisit_action hv (.inl hk)
      exact ⟨l, hl, inWindow_of_action ha haction⟩
  | restore hk ha _ hr =>
      obtain ⟨_, rfl⟩ := restoreHistory_ok.mp hr
      cases hp
      obtain ⟨rfl, l, hl, haction⟩ := activeVisit_action hv (.inr hk)
      exact ⟨l, hl, inWindow_of_action ha haction⟩
  | done _ _ _ _ hr =>
      obtain ⟨_, _, _, rfl⟩ := doneHistory_ok.mp hr
      cases hp
  | restored _ _ _ hr =>
      obtain ⟨_, _, _, rfl⟩ := restoredHistory_ok.mp hr
      cases hp
  | abandon _ _ _ hr =>
      obtain ⟨_, _, _, rfl⟩ := abandonHistory_ok.mp hr
      cases hp
  | configAbandon _ hr =>
      simp only [configAbandonHistory, bind_eq_ok, require_eq_ok, demand_eq_ok, return_eq_ok, exists_const] at hr
      obtain ⟨_, _, ⟨_, _, _, hnone, _⟩, rfl⟩ := hr
      rw [Option.isNone_iff_eq_none.mp hnone] at hp
      cases hp
  | early hplan _ =>
      obtain ⟨hafter, hbefore⟩ := ((replays_told hm0).pending p hp).placed
      simp only [nextRecord] at hplan
      omega
  | config _ _ hr =>
      obtain ⟨hnone, _, hsame, _⟩ := configHistory_kept hr
      rw [hsame, hnone] at hp
      cases hp
  | state _ _ hnone =>
      rw [Option.isNone_iff_eq_none.mp hnone] at hp
      cases hp

theorem activeVisit_valid (hv : activeVisit sha256 expected h r = .ok h')
    (hb : ∀ l, h.last = some l → stateValid l ∧ l.window ≠ 0) : ∀ l, h'.last = some l → stateValid l ∧ l.window ≠ 0 := by
  unfold activeVisit at hv
  rcases ite_eq_ok.mp hv with ⟨_, hv⟩ | ⟨_, hv⟩
  · rcases ite_eq_ok.mp hv with ⟨_, hv⟩ | ⟨_, hv⟩
    · cases hv
      exact hb
    rcases ite_eq_ok.mp hv with ⟨_, hv⟩ | ⟨_, hv⟩
    · simp only [bind_eq_ok, require_eq_ok, return_eq_ok, exists_const] at hv
      rw [hv.2]
      exact hb
    · cases hv
  rcases ite_eq_ok.mp hv with ⟨_, hv⟩ | ⟨_, hv⟩
  · simp only [activeState, bind_eq_ok, require_eq_ok, demand_eq_ok, exists_const] at hv
    obtain ⟨state, _, ⟨hencode, hwindow, _⟩, hv⟩ := hv
    have hvalid : stateValid state := by
      unfold stateEncode at hencode
      split at hencode
      next hvalid => exact hvalid
      next => cases hencode
    have hlast : h'.last = some state := by
      split at hv
      next =>
        simp only [bind_eq_ok, require_eq_ok, return_eq_ok, exists_const] at hv
        rw [hv.2]
      next =>
        simp only [bind_eq_ok, require_eq_ok, return_eq_ok, exists_const] at hv
        rw [hv.2]
    intro l hl
    rw [hlast] at hl
    cases hl
    exact ⟨hvalid, hwindow⟩
  · simp only [bind_eq_ok, demand_eq_ok] at hv
    obtain ⟨l, hl, hv⟩ := hv
    have hsame : h' = h := by
      rcases ite_eq_ok.mp hv with ⟨_, hv⟩ | ⟨_, hv⟩
      · simp only [bind_eq_ok, return_eq_ok] at hv
        exact hv.choose_spec.2
      rcases ite_eq_ok.mp hv with ⟨_, hv⟩ | ⟨_, hv⟩
      · simp only [bind_eq_ok, return_eq_ok] at hv
        exact hv.choose_spec.2
      rcases ite_eq_ok.mp hv with ⟨_, hv⟩ | ⟨_, hv⟩
      · simp only [bind_eq_ok, return_eq_ok] at hv
        exact hv.choose_spec.2
      · cases hv
    rw [hsame]
    exact hb

theorem active_valid (ha : activeJournal sha256 expected (numbered entries)) :
    stateValid expected ∧ expected.window ≠ 0 := by
  unfold activeJournal at ha
  split at ha
  next h hfold =>
    have hkept : ∀ l, h.last = some l → stateValid l ∧ l.window ≠ 0 := by
      refine foldlM_kept (fun h : ActiveHistory => ∀ l, h.last = some l → stateValid l ∧ l.window ≠ 0) ?_ _ _ _ hfold ?_
      · intro b r b' hv hb
        exact activeVisit_valid hv hb
      · intro l hl
        cases hl
    exact hkept expected ha.2
  next => exact ha.elim

theorem active_window (hm : Replays op entries m)
    (ha : activeJournal sha256 expected (numbered entries)) (hp : m.pending = some p) : inWindow p expected := by
  unfold activeJournal at ha
  split at ha
  next h hfold =>
    obtain ⟨l, hl, hin⟩ := active_pending hm hfold hp
    rw [ha.2] at hl
    cases hl
    exact hin
  next => exact ha.elim

end Windows

end EtranProcessing.Deployment.ActionHistory
