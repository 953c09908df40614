import EtranProcessing.Billing.Orders

namespace EtranProcessing.Billing.ExactlyOnce

open Library.Fallible Library.Runs Library.Tables Subscriptions Orders

variable {settings : Settings}

section Loop

variable {call : Call} {paidAt : Int} {state state' : Database × List Extension}

theorem extendItem_eq_ok {item : Item} (h : extendItem settings call paidAt state item = .ok state') :
    ∃ terminal new grace, state.1.terminals item.terminalId = some terminal ∧
      addMonths settings.zones (termStart paidAt terminal.paidUntil) item.months call.snapshot.timezone = .ok new ∧
      state'.1 = { state.1.setTerminal item.terminalId (some { terminal with paidUntil := some new }) with
        audit := state.1.audit ++
          [.terms terminal.tenantId item.terminalId call.operationId call.snapshot.timezone new grace] } := by
  simp only [extendItem, bind_eq_ok, demand_eq_ok, require_eq_ok, return_eq_ok] at h
  obtain ⟨terminal, hterminal, _, _, new, hnew, grace, _, rfl⟩ := h
  obtain ⟨hterminal, _⟩ := Option.filter_eq_some_iff.mp hterminal
  exact ⟨terminal, new, grace, hterminal, hnew, rfl⟩

theorem paidUntil_setTerminal (db : Database) (terminalId t : Nat) (terminal : Option Terminal) :
    (db.setTerminal terminalId terminal).paidUntil t =
      if t = terminalId then terminal.bind (·.paidUntil) else db.paidUntil t := by
  by_cases h : t = terminalId
  · subst h
    simp [Database.paidUntil, Database.setTerminal]
  · simp [Database.paidUntil, Database.setTerminal, h]

theorem paidUntil_extendItem {item : Item} (h : extendItem settings call paidAt state item = .ok state') :
    ∃ new, addMonths settings.zones (termStart paidAt (state.1.paidUntil item.terminalId)) item.months
        call.snapshot.timezone = .ok new ∧
      ∀ t, state'.1.paidUntil t = if t = item.terminalId then some new else state.1.paidUntil t := by
  obtain ⟨terminal, new, grace, hterminal, hnew, hstate⟩ := extendItem_eq_ok h
  refine ⟨new, ?_, ?_⟩
  · simpa [Database.paidUntil, hterminal] using hnew
  · intro t
    rw [hstate]
    exact paidUntil_setTerminal state.1 item.terminalId t (some { terminal with paidUntil := some new })

theorem extendAll_frame (items : List Item) (state : Database × List Extension)
    (h : items.foldlM (extendItem settings call paidAt) state = .ok state') :
    state'.1.payments = state.1.payments ∧
      ∃ later, state'.1.audit = state.1.audit ++ later ∧ ∀ payment, later.findSome? (·.orderOf payment) = none := by
  apply foldlM_kept (fun s => s.1.payments = state.1.payments ∧
    ∃ later, s.1.audit = state.1.audit ++ later ∧ ∀ payment, later.findSome? (·.orderOf payment) = none) ?_ _ _ _ h
  · exact ⟨rfl, [], by simp, by simp⟩
  · rintro s item s' hs ⟨hpayments, later, haudit, hlater⟩
    obtain ⟨terminal, new, grace, _, _, hstate⟩ := extendItem_eq_ok hs
    rw [hstate]
    refine ⟨hpayments,
      later ++ [.terms terminal.tenantId item.terminalId call.operationId call.snapshot.timezone new grace], ?_, ?_⟩
    · simp only [haudit, List.append_assoc]
    · intro payment
      rw [List.findSome?_append, hlater payment]
      rfl

theorem extendAll_others (items : List Item) (state : Database × List Extension)
    (h : items.foldlM (extendItem settings call paidAt) state = .ok state') (t : Nat)
    (ht : t ∉ items.map (·.terminalId)) : state'.1.paidUntil t = state.1.paidUntil t := by
  induction items generalizing state with
  | nil =>
      cases h
      rfl
  | cons item items ih =>
      simp only [List.map_cons, List.mem_cons, not_or] at ht
      rw [List.foldlM_cons, bind_eq_ok] at h
      obtain ⟨middle, hitem, hrest⟩ := h
      obtain ⟨new, _, hpaid⟩ := paidUntil_extendItem hitem
      rw [ih middle hrest ht.2, hpaid t, if_neg ht.1]

theorem extendAll_extends (items : List Item) (state : Database × List Extension)
    (hnodup : (items.map (·.terminalId)).Nodup)
    (h : items.foldlM (extendItem settings call paidAt) state = .ok state') (item : Item) (hitem : item ∈ items) :
    ∃ new, addMonths settings.zones (termStart paidAt (state.1.paidUntil item.terminalId)) item.months
        call.snapshot.timezone = .ok new ∧ state'.1.paidUntil item.terminalId = some new := by
  induction items generalizing state with
  | nil => simp at hitem
  | cons first items ih =>
      simp only [List.map_cons, List.nodup_cons] at hnodup
      rw [List.foldlM_cons, bind_eq_ok] at h
      obtain ⟨middle, hfirst, hrest⟩ := h
      obtain ⟨new, hnew, hpaid⟩ := paidUntil_extendItem hfirst
      rcases List.mem_cons.mp hitem with rfl | hmem
      · refine ⟨new, hnew, ?_⟩
        rw [extendAll_others items middle hrest item.terminalId hnodup.1, hpaid, if_pos rfl]
      · have hne : item.terminalId ≠ first.terminalId := by
          intro heq
          exact hnodup.1 (heq ▸ List.mem_map_of_mem hmem)
        obtain ⟨last, hlast, hend⟩ := ih middle hnodup.2 hrest hmem
        rw [hpaid, if_neg hne] at hlast
        exact ⟨last, hlast, hend⟩

theorem addMonths_termStart_lt {old : Option Int} {months : Nat} {timezone : String} {new : Int}
    (h : addMonths settings.zones (termStart paidAt old) months timezone = .ok new) : ∀ t ∈ old, t < new := by
  intro t ht
  have hlt := addMonths_lt h
  have hle : t ≤ termStart paidAt old := by
    rw [Option.mem_def.mp ht]
    exact le_max_right paidAt t
  omega

end Loop

section Transitions

def replacePayment (payments : List Payment) (payment : Payment) : List Payment :=
  payments.map fun p => if p.id = payment.id then payment else p

/-- What a step makes of the database. A call writes only to a payment that is not final. -/
inductive Transition (settings : Settings) (w : World) : Event → Database → Prop where
  | quiet {e : Event} {db : Database} (hpayments : db.payments = w.db.payments) (haudit : db.audit = w.db.audit)
      (hpaid : db.paidUntil = w.db.paidUntil ∨ ∃ t value, e = .correct t value) : Transition settings w e db
  | ordered {e : Event} {db : Database} (payment : Payment) (operationId : String) (details : Snapshot)
      (hfresh : w.db.payment payment.id = none) (hstatus : payment.status = .pending)
      (hnodup : (details.items.map (·.terminalId)).Nodup) (hpayments : db.payments = w.db.payments ++ [payment])
      (haudit : db.audit = w.db.audit ++ [.order payment.tenantId payment.id operationId details])
      (hpaid : db.paidUntil = w.db.paidUntil) : Transition settings w e db
  | answered {k : Nat} {remote : Remote} {now : Int} {db : Database} (call : Call) (old payment : Payment)
      (hcall : w.calls[k]? = some call) (hold : w.db.payment call.paymentId = some old)
      (hopen : old.status.final = false) (hid : payment.id = old.id) (htenant : payment.tenantId = old.tenantId)
      (hstatus : payment.status ≠ .succeeded) (hpayments : db.payments = replacePayment w.db.payments payment)
      (haudit : db.audit = w.db.audit) (hpaid : db.paidUntil = w.db.paidUntil) :
      Transition settings w (.syncAnswer k remote now) db
  | paid {k : Nat} {remote : Remote} {now : Int} {db : Database} (call : Call) (old payment : Payment)
      (paidAt : Int) (loop : Database × List Extension) (later : List AuditEvent) (hcall : w.calls[k]? = some call)
      (hold : w.db.payment call.paymentId = some old) (hopen : old.status.final = false) (hid : payment.id = old.id)
      (htenant : payment.tenantId = old.tenantId) (hstatus : payment.status = .succeeded)
      (hpaidAt : remote.paidAt = .ok paidAt)
      (hloop : call.snapshot.items.foldlM (extendItem settings call paidAt) (w.db, []) = .ok loop)
      (hpayments : db.payments = replacePayment w.db.payments payment) (haudit : db.audit = w.db.audit ++ later)
      (hlater : ∀ payment, later.findSome? (·.orderOf payment) = none) (hpaid : db.paidUntil = loop.1.paidUntil) :
      Transition settings w (.syncAnswer k remote now) db

theorem commitPayment_eq_ok {db db' : Database} {payment payment' : Payment}
    (h : commitPayment db payment = .ok (db', payment')) :
    db' = { db with payments := replacePayment db.payments payment } ∧ payment' = payment := by
  simp only [commitPayment, bind_eq_ok, require_eq_ok, return_eq_ok, Prod.mk.injEq] at h
  obtain ⟨_, _, hdb, hpayment⟩ := h
  exact ⟨hdb, hpayment⟩

theorem quote_nodup {view : TenantView} {tenantId : Nat} {items : List Item} {now : Int} {quoted : Quote}
    (h : quote settings view tenantId items now = .ok quoted) : (quoted.items.map (·.terminalId)).Nodup := by
  simp only [quote, bind_eq_ok, demand_eq_ok, require_eq_ok, return_eq_ok] at h
  obtain ⟨_, _, _, hnodup, _, _, _, _, rfl⟩ := h
  have hperm : (sortItems items).Perm items := List.perm_insertionSort _ items
  exact (hperm.map _).nodup_iff.mpr hnodup

theorem createOrder_transition (w : World) (tenantId : Nat) (request : OrderRequest) (email : String)
    (view : TenantView) (paymentId : Nat) (now : Int) :
    Transition settings w (.createOrder tenantId request email view paymentId now)
      (step settings w (.createOrder tenantId request email view paymentId now)).db := by
  simp only [step]
  cases h : createOrder settings w.db tenantId request email view paymentId now with
  | error failure => exact .quiet rfl rfl (.inl rfl)
  | ok db =>
      simp only [createOrder, bind_eq_ok] at h
      obtain ⟨_, _, _, _, h⟩ := h
      split at h
      next =>
        simp only [bind_eq_ok, return_eq_ok] at h
        obtain ⟨_, _, _, _, rfl⟩ := h
        exact .quiet rfl rfl (.inl rfl)
      next =>
        simp only [bind_eq_ok, require_eq_ok, return_eq_ok] at h
        obtain ⟨quoted, hquoted, _, _, _, ⟨_, _, hfresh⟩, rfl⟩ := h
        exact .ordered _ _ _ hfresh rfl (quote_nodup hquoted) rfl rfl rfl

theorem applyStatus_transition {w : World} {k : Nat} {remote : Remote} {now : Int} {call : Call}
    {old payment payment' : Payment} {db : Database} (hcall : w.calls[k]? = some call)
    (hold : w.db.payment call.paymentId = some old) (hopen : old.status.final = false) (hid : payment.id = old.id)
    (htenant : payment.tenantId = old.tenantId)
    (h : applyStatus settings w.db call payment remote now = .ok (db, payment')) :
    Transition settings w (.syncAnswer k remote now) db := by
  unfold applyStatus at h
  split at h
  next =>
    simp only [bind_eq_ok] at h
    obtain ⟨paidAt, hpaidAt, ⟨loop, extensions⟩, hloop, hcommit⟩ := h
    obtain ⟨rfl, rfl⟩ := commitPayment_eq_ok hcommit
    obtain ⟨hpayments, later, haudit, hlater⟩ := extendAll_frame _ _ hloop
    refine .paid call old { payment with status := .succeeded, verifiedAt := now, succeededAt := paidAt } paidAt _
      (later ++ [.applied call.ownerId call.paymentId call.operationId call.snapshot.timezone extensions])
      hcall hold hopen hid htenant rfl hpaidAt hloop ?_ ?_ ?_ rfl
    · show replacePayment loop.payments _ = _
      rw [hpayments]
    · show loop.audit ++ _ = _
      rw [haudit, List.append_assoc]
    · intro payment
      rw [List.findSome?_append, hlater payment]
      rfl
  next status hne hstatus =>
    obtain ⟨rfl, rfl⟩ := commitPayment_eq_ok h
    exact .answered call old { payment with status := status } hcall hold hopen hid htenant (fun h => hne h) rfl rfl rfl
  next => cases h

theorem syncAnswer_transition (w : World) (k : Nat) (remote : Remote) (now : Int) :
    Transition settings w (.syncAnswer k remote now) (step settings w (.syncAnswer k remote now)).db := by
  cases hcall : w.calls[k]? with
  | none =>
      simp only [step, hcall]
      exact .quiet rfl rfl (.inl rfl)
  | some call =>
      simp only [step, hcall]
      cases h : syncAnswer settings w.db call remote now with
      | error failure => exact .quiet rfl rfl (.inl rfl)
      | ok answer =>
          obtain ⟨db, view⟩ := answer
          simp only [syncAnswer, bind_eq_ok, demand_eq_ok] at h
          obtain ⟨_, _, old, hold, h⟩ := h
          split at h
          next hfinal =>
            simp only [return_eq_ok, Prod.mk.injEq] at h
            obtain ⟨rfl, _⟩ := h
            exact .quiet rfl rfl (.inl rfl)
          next hopen =>
            simp only [bind_eq_ok] at h
            obtain ⟨_, _, ⟨db', payment⟩, hstatus, hreturn⟩ := h
            simp only [return_eq_ok, Prod.mk.injEq] at hreturn
            obtain ⟨rfl, _⟩ := hreturn
            apply applyStatus_transition hcall hold ?_ ?_ ?_ hstatus
            · simpa using hopen
            · rfl
            · rfl

theorem step_transition (settings : Settings) (w : World) (e : Event) :
    Transition settings w e (step settings w e).db := by
  cases e with
  | createOrder => exact createOrder_transition ..
  | syncRead =>
      simp only [step]
      split
      · exact .quiet rfl rfl (.inl rfl)
      · exact .quiet rfl rfl (.inl rfl)
  | syncAnswer => exact syncAnswer_transition ..
  | providerFails k | editRuntime id runtime | editOrg tenantId present => exact .quiet rfl rfl (.inl rfl)
  | correct => exact .quiet rfl rfl (.inr ⟨_, _, rfl⟩)
  | editTerminal terminalId =>
      refine .quiet rfl rfl (.inl ?_)
      funext t
      refine (paidUntil_setTerminal w.db terminalId t _).trans ?_
      split
      next h => simp [h]
      next => rfl

end Transitions

section Rows

variable {w : World} {e : Event} {db : Database}

variable {payment : Payment} {db' : Database}

theorem payment_id {db : Database} {p : Nat} (h : db.payment p = some payment) :
    payment.id = p := by
  simpa using List.find?_some h

theorem payment_of_payments (h : db'.payments = db.payments) (p : Nat) :
    db'.payment p = db.payment p := by
  unfold Database.payment
  rw [h]

theorem payment_replacePayment {k : Nat} {old payment : Payment} (hold : db.payment k = some old)
    (hid : payment.id = old.id) (h : db'.payments = replacePayment db.payments payment) (p : Nat) :
    db'.payment p = if p = k then some payment else db.payment p := by
  have hk : payment.id = k := hid.trans (payment_id hold)
  have hfind := find?_replace Payment.id (a := payment) (hk ▸ hold) p
  unfold Database.payment
  rw [h, ← hk]
  exact hfind

theorem payment_append (h : db'.payments = db.payments ++ [payment]) (p : Nat) :
    db'.payment p = (db.payment p).or (if payment.id = p then some payment else none) := by
  unfold Database.payment
  rw [h, List.find?_append]
  congr 1
  by_cases hp : payment.id = p
  · simp [hp]
  · simp [hp]

theorem orderSnapshot_append {later : List AuditEvent} (h : db'.audit = db.audit ++ later)
    (payment : Payment) :
    orderSnapshot db' payment = (orderSnapshot db payment).or (later.findSome? (·.orderOf payment)) := by
  unfold orderSnapshot
  rw [h, List.findSome?_append]

theorem orderSnapshot_congr (db : Database) {payment payment' : Payment} (hid : payment'.id = payment.id)
    (htenant : payment'.tenantId = payment.tenantId) : orderSnapshot db payment' = orderSnapshot db payment := by
  unfold orderSnapshot
  congr 1
  funext event
  cases event with
  | order => simp [AuditEvent.orderOf, hid, htenant]
  | terms => rfl
  | applied => rfl

theorem Transition.payment_kept (h : Transition settings w e db) {p : Nat}
    (hp : w.db.payment p = some payment) : ∃ payment', db.payment p = some payment' ∧ payment'.id = payment.id ∧
      payment'.tenantId = payment.tenantId ∧ (payment.status.final = true → payment' = payment) := by
  cases h with
  | quiet hpayments =>
      exact ⟨payment, (payment_of_payments hpayments p).trans hp, rfl, rfl, fun _ => rfl⟩
  | ordered new operationId details hfresh hstatus hnodup hpayments =>
      refine ⟨payment, ?_, rfl, rfl, fun _ => rfl⟩
      rw [payment_append hpayments, hp]
      rfl
  | answered call old new hcall hold hopen hid htenant hstatus hpayments =>
      rw [payment_replacePayment hold hid hpayments]
      split
      next hk =>
        rw [hk, hold] at hp
        cases hp
        exact ⟨new, rfl, hid, htenant, fun hfinal => by simp [hopen] at hfinal⟩
      next => exact ⟨payment, hp, rfl, rfl, fun _ => rfl⟩
  | paid call old new paidAt loop later hcall hold hopen hid htenant hstatus hpaidAt hloop hpayments haudit hlater
      hpaid =>
      rw [payment_replacePayment hold hid hpayments]
      split
      next hk =>
        rw [hk, hold] at hp
        cases hp
        exact ⟨new, rfl, hid, htenant, fun hfinal => by simp [hopen] at hfinal⟩
      next => exact ⟨payment, hp, rfl, rfl, fun _ => rfl⟩

theorem Transition.orderSnapshot_kept (h : Transition settings w e db) {details : Snapshot}
    (hd : orderSnapshot w.db payment = some details) : orderSnapshot db payment = some details := by
  have hlater : ∃ later, db.audit = w.db.audit ++ later := by
    cases h with
    | quiet hpayments haudit hpaid => exact ⟨[], by rw [haudit, List.append_nil]⟩
    | ordered new operationId details hfresh hstatus hnodup hpayments haudit hpaid => exact ⟨_, haudit⟩
    | answered call old new hcall hold hopen hid htenant hstatus hpayments haudit hpaid =>
        exact ⟨[], by rw [haudit, List.append_nil]⟩
    | paid call old new paidAt loop later hcall hold hopen hid htenant hstatus hpaidAt hloop hpayments haudit hlater
        hpaid => exact ⟨later, haudit⟩
  obtain ⟨later, haudit⟩ := hlater
  rw [orderSnapshot_append haudit, hd]
  rfl

end Rows

section Consistency

variable {w : World} {e : Event}

structure Consistent (w : World) : Prop where
  orders : ∀ payment details, orderSnapshot w.db payment = some details → (details.items.map (·.terminalId)).Nodup
  calls : ∀ call ∈ w.calls, ∃ payment, w.db.payment call.paymentId = some payment ∧
    orderSnapshot w.db payment = some call.snapshot

structure Fresh (w : World) : Prop where
  audit : w.db.audit = []
  calls : w.calls = []

theorem Fresh.consistent (h : Fresh w) : Consistent w := by
  constructor
  · intro payment details hd
    simp [orderSnapshot, h.audit] at hd
  · intro call hcall
    simp [h.calls] at hcall

theorem mem_calls_step {call : Call} (h : call ∈ (step settings w e).calls) : call ∈ w.calls ∨
    ∃ payment, w.db.payment call.paymentId = some payment ∧ orderSnapshot w.db payment = some call.snapshot := by
  cases e with
  | syncRead =>
      simp only [step] at h
      split at h
      next asked hread =>
        simp only [syncRead, bind_eq_ok, demand_eq_ok] at hread
        obtain ⟨payment, hpayment, _, _, details, hdetails, hread⟩ := hread
        split at hread
        next => simp at hread
        next =>
          simp only [return_eq_ok, SyncRead.ask.injEq] at hread
          rcases List.mem_append.mp h with hmem | hmem
          · exact .inl hmem
          · rw [List.mem_singleton.mp hmem, hread]
            exact .inr ⟨payment, hpayment, hdetails⟩
      next => exact .inl h
  | syncAnswer =>
      simp only [step] at h
      split at h
      · exact .inl (List.mem_of_mem_eraseIdx h)
      · exact .inl h
  | providerFails k => exact .inl (List.mem_of_mem_eraseIdx h)
  | createOrder tenantId request email view paymentId now | correct terminalId paidUntil
  | editTerminal terminalId tenantId runtimeTerminalId deleted | editRuntime id runtime
  | editOrg => exact .inl h

theorem Transition.orders_kept {db : Database} (h : Transition settings w e db) (hw : Consistent w)
    (payment : Payment) (details : Snapshot) (hd : orderSnapshot db payment = some details) :
    (details.items.map (·.terminalId)).Nodup := by
  cases h with
  | quiet hpayments haudit hpaid =>
      rw [orderSnapshot, haudit] at hd
      exact hw.orders payment details hd
  | ordered new operationId newDetails hfresh hstatus hnodup hpayments haudit hpaid =>
      rw [orderSnapshot_append haudit] at hd
      rcases Option.or_eq_some_iff.mp hd with hd | ⟨_, hd⟩
      · exact hw.orders payment details hd
      · simp only [List.findSome?_cons, AuditEvent.orderOf, List.findSome?_nil] at hd
        split at hd
        next found heq =>
          split at heq
          · cases heq
            cases hd
            exact hnodup
          · cases heq
        next => cases hd
  | answered call old new hcall hold hopen hid htenant hstatus hpayments haudit hpaid =>
      rw [orderSnapshot, haudit] at hd
      exact hw.orders payment details hd
  | paid call old new paidAt loop later hcall hold hopen hid htenant hstatus hpaidAt hloop hpayments haudit hlater
      hpaid =>
      rw [orderSnapshot_append haudit, hlater payment, Option.or_none] at hd
      exact hw.orders payment details hd

theorem Consistent.after (h : Consistent w) (settings : Settings) (e : Event) : Consistent (step settings w e) := by
  have htransition := step_transition settings w e
  constructor
  · exact htransition.orders_kept h
  · intro call hcall
    obtain ⟨payment, hpayment, hdetails⟩ : ∃ payment, w.db.payment call.paymentId = some payment ∧
        orderSnapshot w.db payment = some call.snapshot := by
      rcases mem_calls_step hcall with hcall | hread
      · exact h.calls call hcall
      · exact hread
    obtain ⟨payment', hpayment', hid, htenant, _⟩ := htransition.payment_kept hpayment
    refine ⟨payment', hpayment', ?_⟩
    rw [orderSnapshot_congr _ hid htenant]
    exact htransition.orderSnapshot_kept hdetails

end Consistency

section Extensions

def statusOf (db : Database) (p : Nat) : Option Status := (db.payment p).map (·.status)

def orderTerminals (db : Database) (p : Nat) : List Nat :=
  match (db.payment p).bind (orderSnapshot db) with
  | some details => details.items.map (·.terminalId)
  | none => []

def answers (w : World) (e : Event) (p : Nat) : Bool :=
  match e with
  | .syncAnswer k _ _ => (w.calls[k]?).any (·.paymentId == p)
  | _ => false

def Extends (settings : Settings) (w : World) (e : Event) (p t : Nat) : Prop :=
  answers w e p = true ∧ (step settings w e).db.paidUntil t ≠ w.db.paidUntil t

instance (w : World) (e : Event) (p t : Nat) : Decidable (Extends settings w e p t) :=
  inferInstanceAs (Decidable (_ ∧ _))

def extensions (settings : Settings) (p t : Nat) : World → List Event → Nat
  | _, [] => 0
  | w, e :: events => (if Extends settings w e p t then 1 else 0) + extensions settings p t (step settings w e) events

def Raises (settings : Settings) (w : World) : Event → Prop
  | .createOrder tenantId request email view paymentId now =>
      ∃ failure, createOrder settings w.db tenantId request email view paymentId now = .error failure
  | .syncRead paymentId tenantId => ∃ failure, syncRead w.db paymentId tenantId = .error failure
  | .syncAnswer k remote now =>
      ∃ call failure, w.calls[k]? = some call ∧ syncAnswer settings w.db call remote now = .error failure
  | .providerFails _ => True
  | _ => False

def Owed (db : Database) (p t : Nat) : Prop := statusOf db p = some .succeeded ∧ t ∈ orderTerminals db p

instance (db : Database) (p t : Nat) : Decidable (Owed db p t) := inferInstanceAs (Decidable (_ ∧ _))

variable {w : World} {e : Event}

theorem owed_congr {db db' : Database} {p : Nat} (hpayment : db'.payment p = db.payment p)
    (horder : ∀ payment, db.payment p = some payment → orderSnapshot db' payment = orderSnapshot db payment)
    (t : Nat) : Owed db' p t ↔ Owed db p t := by
  simp only [Owed, statusOf, orderTerminals, hpayment]
  cases h : db.payment p with
  | none => rfl
  | some payment => simp [horder payment h]

theorem not_owed_of_open {db : Database} {p : Nat} {payment : Payment} (h : db.payment p = some payment)
    (hopen : payment.status ≠ .succeeded) (t : Nat) : ¬Owed db p t := by
  intro howed
  have hstatus := howed.1
  simp only [statusOf, h, Option.map_some, Option.some.injEq] at hstatus
  exact hopen hstatus

theorem owed_of_succeeded {db : Database} {p : Nat} {payment : Payment} {details : Snapshot}
    (h : db.payment p = some payment) (hstatus : payment.status = .succeeded)
    (horder : orderSnapshot db payment = some details) (t : Nat) :
    Owed db p t ↔ t ∈ details.items.map (·.terminalId) := by
  simp [Owed, statusOf, orderTerminals, h, hstatus, horder]

theorem ne_succeeded {status : Status} (h : status.final = false) : status ≠ .succeeded := by
  rintro rfl
  cases h

theorem answers_of_call {k : Nat} {remote : Remote} {now : Int} {call : Call} (hcall : w.calls[k]? = some call)
    (p : Nat) : answers w (.syncAnswer k remote now) p = true ↔ call.paymentId = p := by
  simp [answers, hcall]

theorem not_extends_of_paidUntil {p t : Nat}
    (h : (step settings w e).db.paidUntil = w.db.paidUntil ∨ ∃ t value, e = .correct t value) :
    ¬Extends settings w e p t := by
  rintro ⟨hanswers, hne⟩
  rcases h with h | ⟨_, _, rfl⟩
  · exact hne (congrFun h t)
  · cases hanswers

/-- A call on the payment sets the paid time of a terminal of the order to the end of the
months that were bought, counted from the later of the payment and the time that it was
paid until, which is later than that time. -/
def ExtendsByMonths (settings : Settings) (w : World) (e : Event) (p t : Nat) : Prop :=
  ∃ k remote now call item paidAt new, e = .syncAnswer k remote now ∧ w.calls[k]? = some call ∧ call.paymentId = p ∧
    item ∈ call.snapshot.items ∧ item.terminalId = t ∧ remote.paidAt = .ok paidAt ∧
    addMonths settings.zones (termStart paidAt (w.db.paidUntil t)) item.months call.snapshot.timezone = .ok new ∧
    (step settings w e).db.paidUntil t = some new ∧ ∀ old ∈ w.db.paidUntil t, old < new

theorem ExtendsByMonths.extends {p t : Nat} (h : ExtendsByMonths settings w e p t) : Extends settings w e p t := by
  obtain ⟨k, remote, now, call, item, paidAt, new, rfl, hcall, rfl, _, _, _, _, hnew, hlt⟩ := h
  refine ⟨(answers_of_call hcall _).mpr rfl, ?_⟩
  rw [hnew]
  intro heq
  exact absurd (hlt new heq.symm) (by omega)

theorem extends_or_owed (settings : Settings) (hw : Consistent w) (e : Event) (p t : Nat) :
    (ExtendsByMonths settings w e p t ∧ ¬Owed w.db p t ∧ Owed (step settings w e).db p t) ∨
      (¬Extends settings w e p t ∧ (Owed (step settings w e).db p t ↔ Owed w.db p t)) := by
  have htransition := step_transition settings w e
  cases htransition with
  | quiet hpayments haudit hpaid =>
      refine .inr ⟨not_extends_of_paidUntil hpaid, owed_congr (payment_of_payments hpayments p) ?_ t⟩
      intro payment _
      simp only [orderSnapshot, haudit]
  | ordered new operationId details hfresh hstatus hnodup hpayments haudit hpaid =>
      refine .inr ⟨not_extends_of_paidUntil (.inl hpaid), ?_⟩
      have hrow := payment_append hpayments p
      by_cases hp : new.id = p
      · have hnone : ¬Owed w.db p t := by
          intro howed
          simp [Owed, statusOf, ← hp, hfresh] at howed
        have hpending : (step settings w e).db.payment p = some new := by
          rw [hrow, ← hp, hfresh, if_pos rfl]
          rfl
        have hnot := not_owed_of_open hpending (by simp [hstatus]) t
        simp [hnone, hnot]
      · apply owed_congr
        · simp [hrow, hp]
        · intro payment hpayment
          have hid := payment_id hpayment
          have hother : ¬new.id = payment.id := fun heq => hp (heq.trans hid)
          rw [orderSnapshot_append haudit]
          simp [AuditEvent.orderOf, hother]
  | answered call old new hcall hold hopen hid htenant hstatus hpayments haudit hpaid =>
      refine .inr ⟨not_extends_of_paidUntil (.inl hpaid), ?_⟩
      have hrow := payment_replacePayment hold hid hpayments p
      by_cases hp : p = call.paymentId
      · have hbefore := not_owed_of_open (hp ▸ hold) (ne_succeeded hopen) t
        have hafter := not_owed_of_open (hrow.trans (if_pos hp)) hstatus t
        simp [hbefore, hafter]
      · apply owed_congr (hrow.trans (if_neg hp))
        intro payment _
        simp only [orderSnapshot, haudit]
  | paid call old new paidAt loop later hcall hold hopen hid htenant hstatus hpaidAt hloop hpayments haudit hlater
      hpaid =>
      rename_i k remote now
      have hrow := payment_replacePayment hold hid hpayments p
      have hsnapshot : ∀ payment, orderSnapshot (step settings w (.syncAnswer k remote now)).db payment =
          orderSnapshot w.db payment := by
        intro payment
        rw [orderSnapshot_append haudit, hlater payment, Option.or_none]
      by_cases hp : p = call.paymentId
      · obtain ⟨payment, hpayment, horder⟩ := hw.calls call (List.mem_of_getElem? hcall)
        cases Option.some.inj (hpayment.symm.trans hold)
        have hbefore := not_owed_of_open (hp ▸ hold) (ne_succeeded hopen) t
        have horder' := (hsnapshot new).trans ((orderSnapshot_congr w.db hid htenant).trans horder)
        have hafter := owed_of_succeeded (hrow.trans (if_pos hp)) hstatus horder' t
        by_cases ht : t ∈ call.snapshot.items.map (·.terminalId)
        · refine .inl ⟨?_, hbefore, hafter.mpr ht⟩
          obtain ⟨item, hitem, rfl⟩ := List.mem_map.mp ht
          obtain ⟨value, hvalue, hend⟩ := extendAll_extends _ _ (hw.orders old _ horder) hloop item hitem
          exact ⟨k, remote, now, call, item, paidAt, value, rfl, hcall, hp.symm, hitem, rfl, hpaidAt, hvalue,
            (congrFun hpaid _).trans hend, addMonths_termStart_lt hvalue⟩
        · refine .inr ⟨?_, ?_⟩
          · rintro ⟨_, hne⟩
            exact hne ((congrFun hpaid t).trans (extendAll_others _ _ hloop t ht))
          · simp [hbefore, hafter, ht]
      · refine .inr ⟨?_, owed_congr (hrow.trans (if_neg hp)) (fun payment _ => hsnapshot payment) t⟩
        rintro ⟨hanswers, _⟩
        exact hp ((answers_of_call hcall p).mp hanswers).symm

end Extensions

section Runs

variable {w : World} {e : Event}

/-- The status of a payment begins as pending, and only a call on the payment moves it, and
only as long as it is not final. -/
def StatusMoves (settings : Settings) (w : World) (e : Event) (p : Nat) : Prop :=
  statusOf (step settings w e).db p = statusOf w.db p ∨
    (statusOf w.db p = none ∧ statusOf (step settings w e).db p = some .pending) ∨
    ∃ old new, statusOf w.db p = some old ∧ old.final = false ∧ statusOf (step settings w e).db p = some new ∧
      answers w e p = true

structure Sound (settings : Settings) (w : World) (e : Event) : Prop where
  status : ∀ p, StatusMoves settings w e p
  extension : ∀ p t, Extends settings w e p t → ExtendsByMonths settings w e p t
  raising : Raises settings w e → ∀ t, (step settings w e).db.paidUntil t = w.db.paidUntil t

theorem statusMoves (settings : Settings) (w : World) (e : Event) (p : Nat) : StatusMoves settings w e p := by
  have htransition := step_transition settings w e
  unfold StatusMoves
  simp only [statusOf]
  cases htransition with
  | quiet hpayments => exact .inl (by rw [payment_of_payments hpayments])
  | ordered new operationId details hfresh hstatus hnodup hpayments =>
      rw [payment_append hpayments]
      by_cases hp : new.id = p
      · subst hp
        simp [hfresh, hstatus]
      · simp [hp]
  | answered call old new hcall hold hopen hid htenant hstatus hpayments =>
      rw [payment_replacePayment hold hid hpayments]
      by_cases hp : p = call.paymentId
      · refine .inr (.inr ⟨old.status, new.status, ?_, hopen, ?_, (answers_of_call hcall p).mpr hp.symm⟩)
        · rw [hp, hold, Option.map_some]
        · rw [if_pos hp, Option.map_some]
      · exact .inl (by rw [if_neg hp])
  | paid call old new paidAt loop later hcall hold hopen hid htenant hstatus hpaidAt hloop hpayments haudit hlater
      hpaid =>
      rw [payment_replacePayment hold hid hpayments]
      by_cases hp : p = call.paymentId
      · refine .inr (.inr ⟨old.status, new.status, ?_, hopen, ?_, (answers_of_call hcall p).mpr hp.symm⟩)
        · rw [hp, hold, Option.map_some]
        · rw [if_pos hp, Option.map_some]
      · exact .inl (by rw [if_neg hp])

theorem db_of_raises (h : Raises settings w e) : (step settings w e).db = w.db := by
  cases e with
  | createOrder =>
      obtain ⟨failure, h⟩ := h
      simp only [step, h]
      rfl
  | syncRead =>
      obtain ⟨failure, h⟩ := h
      simp only [step, h]
  | syncAnswer =>
      obtain ⟨call, failure, hcall, h⟩ := h
      simp only [step, hcall, h]
      rfl
  | providerFails k => rfl
  | correct terminalId paidUntil | editTerminal terminalId tenantId runtimeTerminalId deleted
  | editRuntime id runtime | editOrg tenantId present => exact h.elim

theorem Consistent.sound (h : Consistent w) (settings : Settings) (e : Event) : Sound settings w e := by
  refine ⟨statusMoves settings w e, ?_, ?_⟩
  · intro p t hextends
    rcases extends_or_owed settings h e p t with ⟨hmonths, _⟩ | ⟨hnot, _⟩
    · exact hmonths
    · exact absurd hextends hnot
  · intro hraises t
    rw [db_of_raises hraises]

theorem Consistent.sound_along (h : Consistent w) (settings : Settings) (events : List Event) :
    Along (step settings) (Sound settings) w events := by
  induction events generalizing w with
  | nil => trivial
  | cons e events ih => exact ⟨h.sound settings e, ih (h.after settings e)⟩

theorem Consistent.extensions_eq (h : Consistent w) (settings : Settings) (events : List Event) (p t : Nat) :
    extensions settings p t w events + (if Owed w.db p t then 1 else 0) =
      if Owed (run (step settings) w events).db p t then 1 else 0 := by
  induction events generalizing w with
  | nil =>
      rw [extensions, Nat.zero_add]
      rfl
  | cons e events ih =>
      have hrest := ih (h.after settings e)
      have hrun : run (step settings) w (e :: events) = run (step settings) (step settings w e) events := rfl
      rw [hrun, ← hrest, extensions]
      rcases extends_or_owed settings h e p t with ⟨hmonths, hbefore, hafter⟩ | ⟨hnot, howed⟩
      · simp only [hmonths.extends, hbefore, hafter, if_true, if_false]
        omega
      · simp only [hnot, howed, if_false]
        omega

theorem statusOf_run_final (settings : Settings) (events : List Event) (w : World) (p : Nat) (status : Status)
    (h : statusOf w.db p = some status) (hfinal : status.final = true) :
    statusOf (run (step settings) w events).db p = some status := by
  induction events generalizing w with
  | nil => exact h
  | cons e events ih =>
      apply ih (step settings w e)
      rcases statusMoves settings w e p with hsame | ⟨hnone, _⟩ | ⟨old, _, hold, hopen, _⟩
      · exact hsame.trans h
      · simp [h] at hnone
      · cases hold.symm.trans h
        simp [hopen] at hfinal

/-- However the calls on the payments interleave, and whatever the provider answers, a
status that is final stays, and each terminal of an order is extended once if the payment
succeeded, and else never. -/
theorem order_extends_once (settings : Settings) (start : World) (hstart : Fresh start) (events : List Event) :
    Along (step settings) (Sound settings) start events ∧
      (∀ before after p status, events = before ++ after →
        statusOf (run (step settings) start before).db p = some status → status.final = true →
        statusOf (run (step settings) start events).db p = some status) ∧
      ∀ p t, extensions settings p t start events =
        if statusOf (run (step settings) start events).db p = some .succeeded ∧
          t ∈ orderTerminals (run (step settings) start events).db p then 1 else 0 := by
  refine ⟨hstart.consistent.sound_along settings events, ?_, ?_⟩
  · intro before after p status hevents h hfinal
    rw [hevents, run_append]
    exact statusOf_run_final settings after _ p status h hfinal
  · intro p t
    have hcount := hstart.consistent.extensions_eq settings events p t
    have hnone : ¬Owed start.db p t := by
      intro howed
      have hmem := howed.2
      cases hp : start.db.payment p with
      | none => simp [orderTerminals, hp] at hmem
      | some payment => simp [orderTerminals, hp, orderSnapshot, hstart.audit] at hmem
    rw [if_neg hnone] at hcount
    exact hcount

def deskSettings : Settings where
  yookassaEnabled := true
  productScopeSplitEnabled := false
  subscriptionMonthPriceKopecks := 10000
  zones := ⟨fun _ => none, fun _ => none⟩
  snapshotHash _ := "0b374fe1374d3f8b2c9a089be2bb2d9a34ce95d06c1b5296a0b51f563fccfbc5"

def deskWorld : World where
  db := {
    orgs := fun tenantId => tenantId == 1
    payments := []
    terminals := fun terminalId => if terminalId = 7 then some ⟨1, none, false, none⟩ else none
    runtimes := fun _ => none
    audit := [] }
  calls := []

def deskAnswer : Remote where
  id := some "2d8a"
  purpose := some "subscription"
  orderId := some "5"
  tenantId := some "1"
  quoteHash := some (deskSettings.snapshotHash ⟨1, "UTC", 10000, [⟨7, 1⟩], 10000⟩)
  currency := some "RUB"
  amountKopecks := some 10000
  status := some .succeeded
  paid := true
  capturedAt := .time 63906408000000000
  confirmationUrl := none
  receipt := none

def deskEvents : List Event :=
  [.createOrder 1 ⟨[⟨7, 1⟩], "0123456789abcdef", deskSettings.snapshotHash ⟨1, "UTC", 10000, [⟨7, 1⟩], 10000⟩⟩
      "desk@example.org" ⟨some "UTC", fun _ => some ⟨false, false, none⟩⟩ 5 63906400000000000,
    .syncRead 5 (some 1), .syncRead 5 none, .syncAnswer 0 deskAnswer 63906409000000000,
    .syncAnswer 0 deskAnswer 63906410000000000]

theorem order_extends_once_desk : Fresh deskWorld ∧ extensions deskSettings 5 7 deskWorld deskEvents = 1 := by
  have hfresh : Fresh deskWorld := ⟨rfl, rfl⟩
  refine ⟨hfresh, ?_⟩
  rw [(order_extends_once deskSettings deskWorld hfresh deskEvents).2.2 5 7]
  decide +kernel

end Runs

end EtranProcessing.Billing.ExactlyOnce
