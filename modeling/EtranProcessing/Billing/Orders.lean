import EtranProcessing.Billing.Subscriptions
import EtranProcessing.Library.Runs
import EtranProcessing.Library.Tables

namespace EtranProcessing.Billing.Orders

open Library.Fallible Library.Runs Library.Tables Subscriptions

inductive Status where
  | pending
  | waitingForCapture
  | succeeded
  | canceled
  deriving DecidableEq, Repr

def Status.final : Status → Bool
  | .succeeded | .canceled => true
  | .pending | .waitingForCapture => false

structure Item where
  terminalId : Nat
  months : Nat
  deriving DecidableEq, Repr

/-- The part of a snapshot that its hash is taken of. -/
structure Quote where
  tenantId : Nat
  timezone : String
  priceKopecks : Nat
  items : List Item
  amountKopecks : Nat
  deriving DecidableEq, Repr

structure Snapshot extends Quote where
  quoteHash : String
  email : String
  deriving DecidableEq, Repr

structure Payment where
  id : Nat
  tenantId : Nat
  operationId : String
  provider : String
  status : Status
  amountKopecks : Nat
  providerPaymentId : Option String
  confirmationUrl : Option String
  receiptSnapshot : Option String
  verifiedAt : Option Int
  succeededAt : Option Int
  deriving DecidableEq, Repr

structure Terminal where
  tenantId : Nat
  runtimeTerminalId : Option Nat
  deleted : Bool
  paidUntil : Option Int
  deriving DecidableEq, Repr

structure Runtime where
  orgId : Nat
  l4deskSubscriptionEnabled : Bool
  deriving DecidableEq, Repr

structure Extension where
  terminalId : Nat
  oldPaidUntil : Option Int
  paidUntil : Int
  deriving DecidableEq, Repr

inductive AuditEvent where
  | order (tenantId paymentId : Nat) (operationId : String) (details : Snapshot)
  | terms (tenantId terminalId : Nat) (operationId timezone : String) (paidUntil graceUntil : Int)
  | applied (tenantId paymentId : Nat) (operationId timezone : String) (items : List Extension)
  deriving DecidableEq, Repr

structure Database where
  orgs : Nat → Bool
  payments : List Payment
  terminals : Nat → Option Terminal
  runtimes : Nat → Option Runtime
  audit : List AuditEvent

structure Settings where
  yookassaEnabled : Bool
  productScopeSplitEnabled : Bool
  subscriptionMonthPriceKopecks : Nat
  zones : ZoneDatabase
  snapshotHash : Quote → String

def Database.payment (db : Database) (paymentId : Nat) : Option Payment :=
  db.payments.find? fun p => p.id == paymentId

def Database.paidUntil (db : Database) (terminalId : Nat) : Option Int :=
  (db.terminals terminalId).bind (·.paidUntil)

def Database.setTerminal (db : Database) (terminalId : Nat) (terminal : Option Terminal) : Database :=
  { db with terminals := Function.update db.terminals terminalId terminal }

def lockTenant (db : Database) (tenantId : Nat) : Except Failure Unit :=
  require (db.orgs tenantId = true) (.http 404 "Организация не найдена")

/-- The subscriptions of a tenant as a quote finds them. -/
structure SubscriptionView where
  isFree : Bool
  adminDisabled : Bool
  paidUntil : Option Int
  deriving DecidableEq, Repr

structure TenantView where
  timezone : Option String
  states : Nat → Option SubscriptionView

def sortItems (items : List Item) : List Item := items.insertionSort fun i j => i.terminalId ≤ j.terminalId

def SubscriptionView.payable (state : SubscriptionView) : Bool := !state.isFree && !state.adminDisabled

def quote (settings : Settings) (view : TenantView) (tenantId : Nat) (items : List Item) (now : Int) :
    Except Failure Quote := do
  let timezone ← demand view.timezone (.http 403 "Организация не подключена к L4Desk")
  require (items.map (·.terminalId)).Nodup (.http 422 "Терминал указан несколько раз")
  require (∀ item ∈ items, (view.states item.terminalId).any (·.payable) = true)
    (.http 409 "Выберите дополнительные терминалы, не отключённые администратором")
  items.forM fun item => do
    let paid := (view.states item.terminalId).bind (·.paidUntil)
    let _ ← addMonths settings.zones (max now (paid.getD now)) item.months timezone
  return {
    tenantId := tenantId
    timezone := timezone
    priceKopecks := settings.subscriptionMonthPriceKopecks
    items := sortItems items
    amountKopecks := (items.map (·.months)).sum * settings.subscriptionMonthPriceKopecks }

def AuditEvent.orderOf (payment : Payment) : AuditEvent → Option Snapshot
  | .order tenantId paymentId _ details =>
      if tenantId = payment.tenantId ∧ paymentId = payment.id then some details else none
  | _ => none

def orderSnapshot (db : Database) (payment : Payment) : Option Snapshot :=
  db.audit.findSome? (AuditEvent.orderOf payment)

def priorModel : Failure := .http 410 "Этот платёж относится к прежней финансовой модели"

def notFound : Failure := .http 404 "Платёж не найден"

structure PaymentRead where
  id : Nat
  status : Status
  amountKopecks : Nat
  confirmationUrl : Option String
  items : List Item
  deriving DecidableEq, Repr

def paymentRead (payment : Payment) (snapshot : Snapshot) : PaymentRead where
  id := payment.id
  status := payment.status
  amountKopecks := payment.amountKopecks
  confirmationUrl := payment.confirmationUrl
  items := snapshot.items

structure OrderRequest where
  items : List Item
  operationId : String
  quoteHash : String
  deriving DecidableEq, Repr

/-- The first transaction of an order, up to its commit. The id is the one the
database gives to the new row. -/
def createOrder (settings : Settings) (db : Database) (tenantId : Nat) (request : OrderRequest) (email : String)
    (view : TenantView) (paymentId : Nat) (now : Int) : Except Failure Database := do
  require (settings.yookassaEnabled = true) (.http 409 "Оплата пока недоступна")
  lockTenant db tenantId
  match db.payments.find? fun p => p.tenantId == tenantId && p.operationId == request.operationId with
  | some existing =>
      let snapshot ← demand (orderSnapshot db existing) priorModel
      require (sortItems request.items = snapshot.items ∧ request.quoteHash = snapshot.quoteHash)
        (.http 409 "Ключ заказа уже использован для другой корзины")
      return db
  | none =>
      let quoted ← quote settings view tenantId request.items now
      require (settings.snapshotHash quoted = request.quoteHash)
        (.http 409 "Стоимость изменилась. Обновите корзину перед оплатой.")
      require (0 < quoted.amountKopecks ∧ quoted.amountKopecks % 100 = 0 ∧ db.payment paymentId = none)
        .integrityError
      return { db with
        payments := db.payments ++ [{
          id := paymentId
          tenantId := tenantId
          operationId := request.operationId
          provider := "yookassa"
          status := .pending
          amountKopecks := quoted.amountKopecks
          providerPaymentId := none
          confirmationUrl := none
          receiptSnapshot := none
          verifiedAt := none
          succeededAt := none }]
        audit := db.audit ++ [.order tenantId paymentId request.operationId
          { quoted with quoteHash := settings.snapshotHash quoted, email := email }] }

/-- A call of sync_order that has read its payment and waits for the provider. -/
structure Call where
  paymentId : Nat
  ownerId : Nat
  operationId : String
  providerId : Option String
  snapshot : Snapshot
  deriving DecidableEq, Repr

inductive SyncRead where
  | done (view : PaymentRead)
  | ask (call : Call)
  deriving DecidableEq, Repr

/-- The first phase of sync_order, up to its commit. -/
def syncRead (db : Database) (paymentId : Nat) (tenantId : Option Nat) : Except Failure SyncRead := do
  let payment ← demand (db.payment paymentId) notFound
  require (∀ tenant ∈ tenantId, payment.tenantId = tenant) notFound
  let snapshot ← demand (orderSnapshot db payment) priorModel
  if payment.status.final then return .done (paymentRead payment snapshot)
  return .ask {
    paymentId := paymentId
    ownerId := payment.tenantId
    operationId := payment.operationId
    providerId := payment.providerPaymentId
    snapshot := snapshot }

/-- What the text of captured_at can be. -/
inductive CapturedAt where
  | absent
  | invalid
  | withoutZone
  | time (t : Int)
  deriving DecidableEq, Repr

/-- An answer of the provider. The amount is the one in kopecks, if it is a number; the
status is the one that is known. -/
structure Remote where
  id : Option String
  purpose : Option String
  orderId : Option String
  tenantId : Option String
  quoteHash : Option String
  currency : Option String
  amountKopecks : Option Rat
  status : Option Status
  paid : Bool
  capturedAt : CapturedAt
  confirmationUrl : Option String
  receipt : Option String
  deriving DecidableEq, Repr

def given (text : Option String) : Option String := text.filter (· ≠ "")

def Remote.Matches (remote : Remote) (call : Call) (payment : Payment) : Prop :=
  remote.id = (given call.providerId).or remote.id ∧ (given remote.id).isSome = true ∧
    remote.purpose = some "subscription" ∧ remote.orderId = some (toString call.paymentId) ∧
    remote.tenantId = some (toString call.ownerId) ∧ remote.quoteHash = some call.snapshot.quoteHash ∧
    remote.currency = some "RUB" ∧ remote.amountKopecks = some (payment.amountKopecks : Rat)

instance (remote : Remote) (call : Call) (payment : Payment) : Decidable (remote.Matches call payment) :=
  inferInstanceAs (Decidable (_ ∧ _))

def Remote.paidAt (remote : Remote) : Except Failure Int := do
  require (remote.paid = true ∧ remote.capturedAt ≠ .absent) (.http 409 "Платёж ещё не подтверждён")
  match remote.capturedAt with
  | .time t => return t
  | _ => throw (.http 409 "Некорректное время оплаты")

def termStart (paidAt : Int) (old : Option Int) : Int := max paidAt (old.getD paidAt)

def Enrolled (db : Database) (ownerId : Nat) (terminal : Terminal) : Prop :=
  ∃ runtime ∈ terminal.runtimeTerminalId.bind db.runtimes,
    runtime.orgId = ownerId ∧ runtime.l4deskSubscriptionEnabled = true

instance (db : Database) (ownerId : Nat) (terminal : Terminal) : Decidable (Enrolled db ownerId terminal) :=
  match h : terminal.runtimeTerminalId.bind db.runtimes with
  | none => .isFalse fun ⟨_, hmem, _⟩ => by simp [h] at hmem
  | some runtime => decidable_of_iff (runtime.orgId = ownerId ∧ runtime.l4deskSubscriptionEnabled = true) (by
      simp [Enrolled, h])

/-- One round of the loop over the items of a paid order. -/
def extendItem (settings : Settings) (call : Call) (paidAt : Int) (state : Database × List Extension) (item : Item) :
    Except Failure (Database × List Extension) := do
  let (db, extensions) := state
  let terminal ← demand ((db.terminals item.terminalId).filter fun t => t.tenantId == call.ownerId && !t.deleted)
    (.http 409 "Оплаченный терминал удалён; требуется проверка заказа")
  require (settings.productScopeSplitEnabled = true → Enrolled db call.ownerId terminal)
    (.http 409 "Терминал больше не участвует в подписке; требуется сверка платежа")
  let newPaidUntil ← addMonths settings.zones (termStart paidAt terminal.paidUntil) item.months call.snapshot.timezone
  let grace ← graceUntil settings.zones newPaidUntil call.snapshot.timezone
  return ({ db.setTerminal item.terminalId (some { terminal with paidUntil := newPaidUntil }) with
      audit := db.audit ++
        [.terms terminal.tenantId item.terminalId call.operationId call.snapshot.timezone newPaidUntil grace] },
    extensions ++ [{ terminalId := item.terminalId, oldPaidUntil := terminal.paidUntil, paidUntil := newPaidUntil }])

def commitPayment (db : Database) (payment : Payment) : Except Failure (Database × Payment) := do
  require (∀ p ∈ db.payments, p.id ≠ payment.id →
    ¬(p.provider = payment.provider ∧ p.providerPaymentId = payment.providerPaymentId)) .integrityError
  return ({ db with payments := db.payments.map fun p => if p.id = payment.id then payment else p }, payment)

/-- The part of sync_order that the status of the answer decides. -/
def applyStatus (settings : Settings) (db : Database) (call : Call) (payment : Payment) (remote : Remote) (now : Int) :
    Except Failure (Database × Payment) :=
  match remote.status with
  | some .succeeded => do
      let paidAt ← remote.paidAt
      let (db, extensions) ← call.snapshot.items.foldlM (extendItem settings call paidAt) (db, [])
      let db := { db with audit := db.audit ++
        [.applied call.ownerId call.paymentId call.operationId call.snapshot.timezone extensions] }
      commitPayment db { payment with status := .succeeded, verifiedAt := now, succeededAt := paidAt }
  | some status => commitPayment db { payment with status := status }
  | none => .error (.http 409 "Неизвестное состояние платежа")

/-- The second phase of sync_order, under the locks of the tenant and of the payment.
It commits at its end only. -/
def syncAnswer (settings : Settings) (db : Database) (call : Call) (remote : Remote) (now : Int) :
    Except Failure (Database × PaymentRead) := do
  lockTenant db call.ownerId
  let payment ← demand (db.payment call.paymentId) notFound
  if payment.status.final then return (db, paymentRead payment call.snapshot)
  require (remote.Matches call payment) (.http 409 "Подтверждение платежа не соответствует заказу")
  let payment := { payment with
    providerPaymentId := remote.id
    confirmationUrl := remote.confirmationUrl
    receiptSnapshot := remote.receipt }
  let (db, payment) ← applyStatus settings db call payment remote now
  return (db, paymentRead payment call.snapshot)

structure World where
  db : Database
  calls : List Call

/-- What happens next: an order, a phase of some call (of a user, of the webhook or of
the worker), a provider that does not answer, or another hand on the rows that the
calls read. -/
inductive Event where
  | createOrder (tenantId : Nat) (request : OrderRequest) (email : String) (view : TenantView) (paymentId : Nat)
      (now : Int)
  | syncRead (paymentId : Nat) (tenantId : Option Nat)
  | syncAnswer (k : Nat) (remote : Remote) (now : Int)
  | providerFails (k : Nat)
  | correct (terminalId : Nat) (paidUntil : Option Int)
  | editTerminal (terminalId tenantId : Nat) (runtimeTerminalId : Option Nat) (deleted : Bool)
  | editRuntime (id : Nat) (runtime : Option Runtime)
  | editOrg (tenantId : Nat) (present : Bool)

def committed {α : Type} (db : Database) (result : Except Failure (Database × α)) : Database :=
  match result with
  | .ok (db', _) => db'
  | .error _ => db

def step (settings : Settings) (w : World) : Event → World
  | .createOrder tenantId request email view paymentId now =>
      let result := createOrder settings w.db tenantId request email view paymentId now
      { w with db := committed w.db (result.map (·, ())) }
  | .syncRead paymentId tenantId =>
      match syncRead w.db paymentId tenantId with
      | .ok (.ask call) => { w with calls := w.calls ++ [call] }
      | _ => w
  | .syncAnswer k remote now =>
      match w.calls[k]? with
      | some call => ⟨committed w.db (syncAnswer settings w.db call remote now), w.calls.eraseIdx k⟩
      | none => w
  | .providerFails k => { w with calls := w.calls.eraseIdx k }
  | .correct terminalId paidUntil =>
      let terminal := (w.db.terminals terminalId).map fun t => { t with paidUntil := paidUntil }
      { w with db := w.db.setTerminal terminalId terminal }
  | .editTerminal terminalId tenantId runtimeTerminalId deleted =>
      let terminal := ⟨tenantId, runtimeTerminalId, deleted, w.db.paidUntil terminalId⟩
      { w with db := w.db.setTerminal terminalId (some terminal) }
  | .editRuntime id runtime => { w with db.runtimes := Function.update w.db.runtimes id runtime }
  | .editOrg tenantId present => { w with db.orgs := Function.update w.db.orgs tenantId present }

end EtranProcessing.Billing.Orders
