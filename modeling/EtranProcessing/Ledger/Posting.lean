import Mathlib
import EtranProcessing.Library.Fallible

namespace EtranProcessing.Ledger.Posting

open Library.Fallible

inductive AccountKind where
  | tenantSettlement
  | paymentClearing
  | usageRevenue
  deriving DecidableEq

inductive TransactionKind where
  | payment
  | usage
  | terminalMonth
  | adjustment
  | reversal
  deriving DecidableEq

inductive TransactionStatus where
  | draft
  | posted
  deriving DecidableEq

inductive FinError where
  | validation
  | imbalance
  | duplicatePosting
  | accountNotFound
  | tenantIsolation
  | concurrency
  | reversal
  deriving DecidableEq

structure Account where
  id : Nat
  tenantId : Option Nat
  kind : AccountKind
  deriving DecidableEq

structure Entry where
  accountId : Nat
  debitKopecks : Int
  creditKopecks : Int
  deriving DecidableEq

structure PostingRequest where
  operationId : String
  kind : TransactionKind
  sourceProject : String
  sourceType : String
  sourceId : String
  entries : List Entry
  correctsTransactionId : Option Nat
  expectedProjectionVersion : Option Nat
  deriving DecidableEq

structure ReversalRequest where
  transactionId : Nat
  operationId : String
  sourceProject : String
  sourceType : String
  sourceId : Option String
  expectedProjectionVersion : Option Nat
  deriving DecidableEq

/-- A ledger transaction with its entry rows in the order of their line numbers. -/
structure Transaction where
  id : Nat
  operationId : String
  kind : TransactionKind
  status : TransactionStatus
  correctsTransactionId : Option Nat
  debitKopecks : Int
  creditKopecks : Int
  sourceProject : String
  sourceType : String
  sourceId : String
  entries : List Entry
  deriving DecidableEq

structure Projection where
  accountId : Nat
  balanceKopecks : Int
  version : Nat
  lastTransactionId : Option Nat
  deriving DecidableEq

structure Database where
  accounts : List Account
  transactions : List Transaction
  projection : Option Projection

structure Pending where
  account : Option Account := none
  transaction : Option Transaction := none
  projection : Option Projection := none

def Database.withPending (d : Database) (p : Pending) : Database where
  accounts := d.accounts ++ p.account.toList
  transactions := d.transactions ++ p.transaction.toList
  projection := p.projection <|> d.projection

def Database.settlement (tenant : Nat) (d : Database) : Option Account :=
  d.accounts.find? fun a => a.tenantId == some tenant && a.kind == .tenantSettlement

def movement (account : Nat) (entries : List Entry) : Int :=
  (entries.map fun e => if e.accountId = account then e.creditKopecks - e.debitKopecks else 0).sum

def postedTotal (account : Nat) (transactions : List Transaction) : Int :=
  (transactions.map fun t => if t.status = .posted then movement account t.entries else 0).sum

def SameSource (t : Transaction) (r : PostingRequest) : Prop :=
  t.sourceProject = r.sourceProject ∧ t.sourceType = r.sourceType ∧ t.sourceId = r.sourceId

instance (t : Transaction) (r : PostingRequest) : Decidable (SameSource t r) := by
  unfold SameSource
  infer_instance

def SharesKey (t : Transaction) (r : PostingRequest) : Prop := t.operationId = r.operationId ∨ SameSource t r

instance (t : Transaction) (r : PostingRequest) : Decidable (SharesKey t r) := by
  unfold SharesKey
  infer_instance

def checkEntry (e : Entry) : Except FinError Unit := do
  require (0 ≤ e.debitKopecks) .validation
  require (e.debitKopecks % 100 = 0) .validation
  require (0 ≤ e.creditKopecks) .validation
  require (e.creditKopecks % 100 = 0) .validation
  require (¬ ((0 < e.debitKopecks ∧ 0 < e.creditKopecks) ∨ (e.debitKopecks = 0 ∧ e.creditKopecks = 0))) .validation

def validateTypesAndAmounts (r : PostingRequest) : Except FinError (Int × Int) := do
  r.entries.forM checkEntry
  let totalDebit := (r.entries.map Entry.debitKopecks).sum
  let totalCredit := (r.entries.map Entry.creditKopecks).sum
  require (totalDebit = totalCredit ∧ 0 < totalDebit) .imbalance
  pure (totalDebit, totalCredit)

structure Posting where
  request : PostingRequest
  totalDebit : Int
  totalCredit : Int

inductive Outcome where
  | raised (e : FinError)
  | replayed (t : Transaction)
  | posted (t : Transaction)
  | rebuilt (previousBalance trueBalance : Int)
  | databaseError
  | aborted

inductive Job where
  | post (p : Posting)
  | rebuild

inductive Write where
  | post (p : Posting)
  | rebuild (trueBalance : Int) (maxTxId : Option Nat)

/-- The next statement of a run, with what the run has read so far; loaded and held
are the attributes of the projection object in the session before and after the
locking SELECT. -/
inductive Stage where
  | originalSelect (r : ReversalRequest)
  | reversalSelect (r : ReversalRequest) (original : Transaction)
  | entriesSelect (r : ReversalRequest) (original : Transaction)
  | operationSelect (p : Posting)
  | sourceSelect (p : Posting) (existingOp : Option Transaction)
  | correctionSelect (p : Posting)
  | accountsSelect (p : Posting)
  | settlementSelect (j : Job)
  | settlementInsert (j : Job)
  | projectionSelect (j : Job) (account : Account)
  | projectionInsert (j : Job) (account : Account)
  | totalsSelect (account : Account) (loaded : Projection)
  | latestSelect (account : Account) (loaded : Projection) (trueBalance : Int)
  | projectionLock (x : Write) (account : Account) (loaded : Projection)
  | transactionInsert (p : Posting) (account : Account) (held : Projection)
  | entriesInsert (p : Posting) (account : Account) (held : Projection) (tx : Transaction)
  | postUpdate (held : Projection) (tenantDelta : Int) (tx : Transaction)
  | rebuildUpdate (held : Projection) (trueBalance : Int) (maxTxId : Option Nat)
  | commit (o : Outcome)
  | finished (o : Outcome)

def afterProjection (account : Account) (loaded : Projection) : Job → Stage
  | .post p => .projectionLock (.post p) account loaded
  | .rebuild => .totalsSelect account loaded

def raise {α : Type} (e : FinError) : Except Outcome α := .error (.raised e)

/-- The posting that inverts the entries of the original. -/
def reversalPosting (r : ReversalRequest) (original : Transaction) : PostingRequest where
  operationId := r.operationId
  kind := .reversal
  sourceProject := if r.sourceProject = "" then "MenuBuilder" else r.sourceProject
  sourceType := if r.sourceType = "" then "reversal" else r.sourceType
  sourceId :=
    match r.sourceId with
    | some id => if id = "" then "rev_" ++ toString original.id else id
    | none => "rev_" ++ toString original.id
  entries := original.entries.map fun e => ⟨e.accountId, e.creditKopecks, e.debitKopecks⟩
  correctsTransactionId := some original.id
  expectedProjectionVersion := r.expectedProjectionVersion

def postTransaction (r : PostingRequest) : Except Outcome Stage :=
  match validateTypesAndAmounts r with
  | .error e => raise e
  | .ok (debit, credit) => .ok (.operationSelect ⟨r, debit, credit⟩)

def isMatch (existing : Transaction) (p : Posting) : Prop :=
  existing.operationId = p.request.operationId ∧ SameSource existing p.request ∧
    existing.debitKopecks = p.totalDebit ∧ existing.creditKopecks = p.totalCredit ∧
    existing.kind = p.request.kind ∧ existing.correctsTransactionId = p.request.correctsTransactionId

instance (existing : Transaction) (p : Posting) : Decidable (isMatch existing p) := by
  unfold isMatch
  infer_instance

def Reverses (t : Transaction) (id : Nat) : Prop := t.correctsTransactionId = some id ∧ t.kind = .reversal

instance (t : Transaction) (id : Nat) : Decidable (Reverses t id) := by
  unfold Reverses
  infer_instance

def checkCorrection (d : Database) (r : PostingRequest) : Except FinError Unit :=
  if r.kind = .adjustment ∨ r.kind = .reversal then do
    let target ← demand (r.correctsTransactionId.filter (· != 0)) .validation
    let tx ← demand (d.transactions.find? fun t => t.id == target) .validation
    require (tx.status = .posted) .validation
  else
    require (r.correctsTransactionId = none) .validation

def checkAccount (tenant : Nat) (d : Database) (e : Entry) : Except FinError Unit := do
  let acc ← demand (d.accounts.find? fun a => a.id == e.accountId) .accountNotFound
  require (acc.tenantId = none ∨ acc.tenantId = some tenant) .tenantIsolation

def orRaise {α : Type} (x : Except FinError α) : Except Outcome α :=
  match x with
  | .error e => raise e
  | .ok a => .ok a

/-- The statements that only read: the stage that follows, or how the run ends. -/
def select (tenant : Nat) (d : Database) : Stage → Except Outcome Stage
  | .originalSelect r =>
    match d.transactions.find? fun t => t.id == r.transactionId with
    | none => raise .reversal
    | some original =>
      if original.status ≠ .posted ∨ original.kind = .reversal then raise .reversal
      else .ok (.reversalSelect r original)
  | .reversalSelect r original =>
    if ∃ t ∈ d.transactions, Reverses t original.id then raise .reversal else .ok (.entriesSelect r original)
  | .entriesSelect r original =>
    if original.entries = [] then raise .reversal else postTransaction (reversalPosting r original)
  | .operationSelect p =>
    .ok (.sourceSelect p (d.transactions.find? fun t => t.operationId == p.request.operationId))
  | .sourceSelect p existingOp =>
    match existingOp <|> d.transactions.find? fun t => decide (SameSource t p.request) with
    | some existing => if isMatch existing p then .error (.replayed existing) else raise .duplicatePosting
    | none => .ok (.correctionSelect p)
  | .correctionSelect p => do
    orRaise (checkCorrection d p.request)
    .ok (.accountsSelect p)
  | .accountsSelect p => do
    orRaise (p.request.entries.forM (checkAccount tenant d))
    .ok (.settlementSelect (.post p))
  | .settlementSelect j =>
    match d.settlement tenant with
    | none => .ok (.settlementInsert j)
    | some account => .ok (.projectionSelect j account)
  | .projectionSelect j account =>
    match d.projection with
    | none => .ok (.projectionInsert j account)
    | some loaded => .ok (afterProjection account loaded j)
  | .totalsSelect account loaded => .ok (.latestSelect account loaded (postedTotal account.id d.transactions))
  | .latestSelect account loaded trueBalance =>
    .ok (.projectionLock
      (.rebuild trueBalance ((d.transactions.filter fun t => t.status == .posted).map Transaction.id).max?)
      account loaded)
  | s => .ok s

structure Session where
  stage : Stage
  pending : Pending := {}

/-- The committed rows, the session that holds the tenant's projection row (or has
inserted it), the id sequences and the sessions. -/
structure World where
  db : Database
  lock : Option Nat
  nextAccount : Nat
  nextTransaction : Nat
  sessions : List Session

def World.put (w : World) (i : Nat) (s : Session) : World := { w with sessions := w.sessions.set i s }

def World.leave (w : World) (i : Nat) (o : Outcome) : World :=
  { w with
    lock := if w.lock = some i then none else w.lock
    sessions := w.sessions.set i { stage := .finished o } }

def World.read (tenant : Nat) (w : World) (i : Nat) (s : Session) : World :=
  match select tenant (w.db.withPending s.pending) s.stage with
  | .error o => w.leave i o
  | .ok stage => w.put i { s with stage := stage }

def newAccount (tenant id : Nat) : Account := ⟨id, some tenant, .tenantSettlement⟩

def newProjection (account : Account) : Projection := ⟨account.id, 0, 0, none⟩

def newTransaction (p : Posting) (id : Nat) : Transaction where
  id := id
  operationId := p.request.operationId
  kind := p.request.kind
  status := .posted
  correctsTransactionId := p.request.correctsTransactionId
  debitKopecks := p.totalDebit
  creditKopecks := p.totalCredit
  sourceProject := p.request.sourceProject
  sourceType := p.request.sourceType
  sourceId := p.request.sourceId
  entries := []

def flush (held row : Projection) (balance : Int) (last : Option Nat) : Projection :=
  { row with
    balanceKopecks := if balance = held.balanceKopecks then row.balanceKopecks else balance
    version := held.version + 1
    lastTransactionId := if last = held.lastTransactionId then row.lastTransactionId else last }

/-- The locking SELECT returns the committed row. Whether an object that the session
has loaded before takes the values of that row over is the mapper's choice. -/
def lockProjection (refreshes : Bool) (w : World) (i : Nat) (s : Session) (x : Write) (account : Account)
    (loaded row : Projection) : World :=
  let held := if refreshes then row else loaded
  let w := { w with lock := some i }
  match x with
  | .post p =>
    if p.request.expectedProjectionVersion.any (· != held.version) then w.leave i (.raised .concurrency)
    else w.put i { s with stage := .transactionInsert p account held }
  | .rebuild trueBalance maxTxId => w.put i { s with stage := .rebuildUpdate held trueBalance maxTxId }

def advance (refreshes : Bool) (tenant : Nat) (w : World) (i : Nat) : World :=
  match w.sessions[i]? with
  | none => w
  | some s =>
    let view := w.db.withPending s.pending
    let free := w.lock = none ∨ w.lock = some i
    match s.stage with
    | .settlementInsert j =>
      if free then
        match view.settlement tenant with
        | some _ => w.leave i .databaseError
        | none =>
          let account := newAccount tenant w.nextAccount
          { w with lock := some i, nextAccount := w.nextAccount + 1 }.put i
            { stage := .projectionSelect j account, pending := { s.pending with account := some account } }
      else w
    | .projectionInsert j account =>
      if free then
        match view.projection with
        | some _ => w.leave i .databaseError
        | none =>
          let projection := newProjection account
          { w with lock := some i }.put i
            { stage := afterProjection account projection j,
              pending := { s.pending with projection := some projection } }
      else w
    | .projectionLock x account loaded =>
      if free then
        match view.projection with
        | none => w.leave i .databaseError
        | some row => lockProjection refreshes w i s x account loaded row
      else w
    | .transactionInsert p account held =>
      if ∃ t ∈ view.transactions, SharesKey t p.request then
        { w with nextTransaction := w.nextTransaction + 1 }.leave i .databaseError
      else
        let tx := newTransaction p w.nextTransaction
        { w with nextTransaction := w.nextTransaction + 1 }.put i
          { stage := .entriesInsert p account held tx, pending := { s.pending with transaction := some tx } }
    | .entriesInsert p account held tx =>
      let tx := { tx with entries := p.request.entries }
      w.put i
        { stage := .postUpdate held (movement account.id p.request.entries) tx,
          pending := { s.pending with transaction := some tx } }
    | .postUpdate held tenantDelta tx =>
      match view.projection with
      | none => w.leave i .databaseError
      | some row =>
        let row := flush held row (held.balanceKopecks + tenantDelta) (some tx.id)
        w.put i { stage := .commit (.posted tx), pending := { s.pending with projection := some row } }
    | .rebuildUpdate held trueBalance maxTxId =>
      match view.projection with
      | none => w.leave i .databaseError
      | some row =>
        let row := flush held row trueBalance maxTxId
        w.put i
          { stage := .commit (.rebuilt held.balanceKopecks trueBalance),
            pending := { s.pending with projection := some row } }
    | .commit o => { w with db := view }.leave i o
    | .finished _ => w
    | _ => w.read tenant i s

inductive Task where
  | post (r : PostingRequest)
  | reverse (r : ReversalRequest)
  | rebuild

def Task.begin : Task → Stage
  | .post r =>
    match postTransaction r with
    | .error o => .finished o
    | .ok stage => stage
  | .reverse r => .originalSelect r
  | .rebuild => .settlementSelect .rebuild

inductive Event where
  | start (t : Task)
  | advance (i : Nat)
  | abort (i : Nat)

def Stage.isFinished : Stage → Bool
  | .finished _ => true
  | _ => false

def step (refreshes : Bool) (tenant : Nat) (w : World) : Event → World
  | .start t => { w with sessions := w.sessions ++ [{ stage := t.begin }] }
  | .advance i => advance refreshes tenant w i
  | .abort i => if w.sessions[i]?.all fun s => s.stage.isFinished then w else w.leave i .aborted

end EtranProcessing.Ledger.Posting
