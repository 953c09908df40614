import EtranProcessing.Library.Runs
import EtranProcessing.Ledger.Posting

namespace EtranProcessing.Ledger.BalanceProjection

open Library.Runs Library.Fallible Posting

def balance (d : Database) : Int := (d.projection.map Projection.balanceKopecks).getD 0

def ledgerBalance (tenant : Nat) (d : Database) : Int :=
  match d.settlement tenant with
  | none => 0
  | some account => postedTotal account.id d.transactions

def Balanced (tenant : Nat) (d : Database) : Prop := balance d = ledgerBalance tenant d

instance (tenant : Nat) (d : Database) : Decidable (Balanced tenant d) := by
  unfold Balanced
  infer_instance

def reversals (d : Database) (id : Nat) : List Transaction :=
  d.transactions.filter fun t => t.status = .posted ∧ Reverses t id

def ReversedOnce (d : Database) : Prop := ∀ id, (reversals d id).length ≤ 1

/-- No run is under way; entries refer to accounts, and new accounts get new ids. -/
structure Initial (tenant : Nat) (w : World) : Prop where
  sessions : w.sessions = []
  lock : w.lock = none
  accounts : ∀ a ∈ w.db.accounts, a.id < w.nextAccount
  entries : ∀ t ∈ w.db.transactions, ∀ e ∈ t.entries, ∃ a ∈ w.db.accounts, a.id = e.accountId
  balanced : Balanced tenant w.db
  reversedOnce : ReversedOnce w.db

def Finished (w : World) : Prop := ∀ s ∈ w.sessions, s.stage.isFinished = true

instance (w : World) : Decidable (Finished w) := by
  unfold Finished
  infer_instance

def KeepsReversal (t : Transaction) (p : PostingRequest) : Prop :=
  p.kind = .reversal ∧ p.correctsTransactionId ≠ none ∧ t.status = .posted ∧ t.kind = .reversal ∧
    t.correctsTransactionId = p.correctsTransactionId → SharesKey t p

instance (t : Transaction) (p : PostingRequest) : Decidable (KeepsReversal t p) := by
  unfold KeepsReversal
  infer_instance

/-- The posting a run is preparing, from its check of earlier reversals to its lock. -/
def underway : Stage → Option PostingRequest
  | .entriesSelect r original => some (reversalPosting r original)
  | .operationSelect p => some p.request
  | .sourceSelect p _ => some p.request
  | .correctionSelect p => some p.request
  | .accountsSelect p => some p.request
  | .settlementSelect (.post p) => some p.request
  | .settlementInsert (.post p) => some p.request
  | .projectionSelect (.post p) _ => some p.request
  | .projectionInsert (.post p) _ => some p.request
  | .projectionLock (.post p) _ _ => some p.request
  | .transactionInsert p _ _ => some p.request
  | _ => none

/-- The account whose total a run has read and will rely on once it holds the row: that
of a rebuild, unless what it writes is what its object held; that of a post that moves
the account, where the mapper keeps the attributes of an object it has loaded. -/
def exposed (refreshes : Bool) : Stage → Option Nat
  | .latestSelect account loaded trueBalance =>
    if refreshes = true ∨ trueBalance ≠ loaded.balanceKopecks then some account.id else none
  | .projectionLock (.rebuild trueBalance _) account loaded =>
    if refreshes = true ∨ trueBalance ≠ loaded.balanceKopecks then some account.id else none
  | .projectionLock (.post p) account _ =>
    if refreshes = false ∧ movement account.id p.request.entries ≠ 0 then some account.id else none
  | _ => none

def KeepsReads (refreshes : Bool) (t : Transaction) (st : Stage) : Prop :=
  (∀ account ∈ exposed refreshes st, movement account t.entries = 0) ∧ ∀ p ∈ underway st, KeepsReversal t p

instance (refreshes : Bool) (t : Transaction) (st : Stage) : Decidable (KeepsReads refreshes t st) := by
  unfold KeepsReads
  infer_instance

def committing : Session → Option Transaction
  | ⟨.commit _, pending⟩ => pending.transaction
  | _ => none

def Undisturbed (refreshes : Bool) (w : World) : Event → Prop
  | .start (.post r) => ∀ t ∈ w.db.transactions, KeepsReversal t r
  | .advance i =>
    ∀ t ∈ w.sessions[i]?.bind committing, ∀ k < w.sessions.length, k ≠ i →
      ∀ s ∈ w.sessions[k]?, KeepsReads refreshes t s.stage
  | _ => True

instance (refreshes : Bool) (w : World) : (e : Event) → Decidable (Undisturbed refreshes w e)
  | .start (.post r) => inferInstanceAs (Decidable (∀ t ∈ w.db.transactions, KeepsReversal t r))
  | .start (.reverse _) => inferInstanceAs (Decidable True)
  | .start .rebuild => inferInstanceAs (Decidable True)
  | .advance i =>
    inferInstanceAs (Decidable (∀ t ∈ w.sessions[i]?.bind committing, ∀ k < w.sessions.length, k ≠ i →
      ∀ s ∈ w.sessions[k]?, KeepsReads refreshes t s.stage))
  | .abort _ => inferInstanceAs (Decidable True)

@[simp] theorem withPending_empty (d : Database) : d.withPending {} = d := by
  simp [Database.withPending]

@[simp] theorem movement_nil (account : Nat) : movement account [] = 0 := rfl

theorem postedTotal_append (account : Nat) (l l' : List Transaction) :
    postedTotal account (l ++ l') = postedTotal account l + postedTotal account l' := by
  simp [postedTotal]

theorem postedTotal_single (account : Nat) {t : Transaction} (h : t.status = .posted) :
    postedTotal account [t] = movement account t.entries := by
  simp [postedTotal, h]

theorem movement_absent {account : Nat} {entries : List Entry} (h : ∀ e ∈ entries, e.accountId ≠ account) :
    movement account entries = 0 := by
  induction entries with
  | nil => rfl
  | cons e entries ih =>
      have hrest := ih fun e' he' => h e' (List.mem_cons_of_mem e he')
      have hhead := h e List.mem_cons_self
      simp only [movement, List.map_cons, List.sum_cons, if_neg hhead] at hrest ⊢
      omega

theorem postedTotal_absent {account : Nat} {l : List Transaction}
    (h : ∀ t ∈ l, ∀ e ∈ t.entries, e.accountId ≠ account) : postedTotal account l = 0 := by
  induction l with
  | nil => rfl
  | cons t l ih =>
      have hrest := ih fun t' ht' => h t' (List.mem_cons_of_mem t ht')
      have hhead := movement_absent (h t List.mem_cons_self)
      simp only [postedTotal, List.map_cons, List.sum_cons, hhead, ite_self] at hrest ⊢
      omega

variable {next next' : Nat} {d : Database} {lock : Option Nat} {w : World} {db : Database}

theorem ledgerBalance_eq {tenant : Nat} {account : Account} (h : d.settlement tenant = some account) :
    ledgerBalance tenant d = postedTotal account.id d.transactions := by
  simp [ledgerBalance, h]

theorem settlement_append {tenant : Nat} {account : Account} (h : d.settlement tenant = some account)
    (p : Pending) : (d.withPending p).settlement tenant = some account := by
  simp only [Database.settlement, Database.withPending, List.find?_append] at h ⊢
  simp [h]

structure Sound (next : Nat) (d : Database) : Prop where
  accounts : ∀ a ∈ d.accounts, a.id < next
  entries : ∀ t ∈ d.transactions, ∀ e ∈ t.entries, e.accountId < next
  reversedOnce : ReversedOnce d

def Known (next : Nat) (r : PostingRequest) : Prop := ∀ e ∈ r.entries, e.accountId < next

def JobKnown (next : Nat) : Job → Prop
  | .post p => Known next p.request
  | .rebuild => True

def TotalCurrent (refreshes : Bool) (tenant : Nat) (d : Database) (loaded : Projection) (trueBalance : Int) : Prop :=
  (refreshes = false ∧ trueBalance = loaded.balanceKopecks) ∨ trueBalance = ledgerBalance tenant d

section Invariant

variable (refreshes : Bool) (tenant : Nat)

/-- What the reads of a run are worth at each of its statements. -/
def StageOk (view : Database) (pending : Pending) (next : Nat) (locked : Prop) : Stage → Prop
  | .settlementSelect j => JobKnown next j
  | .settlementInsert j => JobKnown next j
  | .projectionSelect j account => view.settlement tenant = some account ∧ JobKnown next j
  | .projectionInsert j account => view.settlement tenant = some account ∧ JobKnown next j
  | .totalsSelect account _ => view.settlement tenant = some account
  | .latestSelect account loaded trueBalance =>
    view.settlement tenant = some account ∧ TotalCurrent refreshes tenant view loaded trueBalance
  | .projectionLock (.rebuild trueBalance _) account loaded =>
    view.settlement tenant = some account ∧ TotalCurrent refreshes tenant view loaded trueBalance
  | .projectionLock (.post p) account loaded =>
    view.settlement tenant = some account ∧ Known next p.request ∧
      (refreshes = false → movement account.id p.request.entries ≠ 0 → loaded.balanceKopecks = balance view)
  | .transactionInsert p account held =>
    locked ∧ view.settlement tenant = some account ∧ Known next p.request ∧
      (movement account.id p.request.entries ≠ 0 → held.balanceKopecks = balance view)
  | .entriesInsert p account held tx =>
    locked ∧ view.settlement tenant = some account ∧ Known next p.request ∧
      (movement account.id p.request.entries ≠ 0 → held.balanceKopecks = balance view) ∧
      pending.transaction = some tx ∧ tx.entries = [] ∧ tx.status = .posted
  | .postUpdate held tenantDelta _ =>
    locked ∧ (tenantDelta ≠ 0 → held.balanceKopecks = balance view) ∧
      balance view + tenantDelta = ledgerBalance tenant view
  | .rebuildUpdate held trueBalance _ =>
    locked ∧ (trueBalance = held.balanceKopecks ∨ trueBalance = ledgerBalance tenant view)
  | .commit _ => locked
  | _ => True

def inserted : Stage → Bool
  | .entriesInsert _ _ _ _ => true
  | .postUpdate _ _ _ => true
  | .commit _ => true
  | _ => false

/-- The run has not looked for the settlement account, or has not found it. -/
def beforeAccount : Stage → Bool
  | .projectionSelect _ _ => false
  | .projectionInsert _ _ => false
  | .totalsSelect _ _ => false
  | .latestSelect _ _ _ => false
  | .projectionLock _ _ _ => false
  | .transactionInsert _ _ _ => false
  | .entriesInsert _ _ _ _ => false
  | .postUpdate _ _ _ => false
  | .rebuildUpdate _ _ _ => false
  | .commit _ => false
  | _ => true

structure SessionOk (db : Database) (next : Nat) (lock : Option Nat) (i : Nat) (s : Session) : Prop where
  idle : lock ≠ some i → s.pending = {}
  unopened : beforeAccount s.stage = true → s.pending.account = none
  unposted : inserted s.stage = false → s.pending.transaction = none
  sound : Sound next (db.withPending s.pending)
  balanced : (∀ held delta tx, s.stage ≠ .postUpdate held delta tx) → Balanced tenant (db.withPending s.pending)
  underway : ∀ p, underway s.stage = some p → ∀ t ∈ (db.withPending s.pending).transactions, KeepsReversal t p
  stage : StageOk refreshes tenant (db.withPending s.pending) s.pending next (lock = some i) s.stage

structure Inv (w : World) : Prop where
  sound : Sound w.nextAccount w.db
  balanced : Balanced tenant w.db
  sessions : ∀ i s, w.sessions[i]? = some s → SessionOk refreshes tenant w.db w.nextAccount w.lock i s

end Invariant

theorem Sound.mono (h : Sound next d) (hle : next ≤ next') : Sound next' d where
  accounts a ha := Nat.lt_of_lt_of_le (h.accounts a ha) hle
  entries t ht e he := Nat.lt_of_lt_of_le (h.entries t ht e he) hle
  reversedOnce := h.reversedOnce

theorem Known.mono {r : PostingRequest} (h : Known next r) (hle : next ≤ next') : Known next' r :=
  fun e he => Nat.lt_of_lt_of_le (h e he) hle

theorem JobKnown.mono {j : Job} (h : JobKnown next j) (hle : next ≤ next') : JobKnown next' j := by
  cases j with
  | post p => exact Known.mono h hle
  | rebuild => trivial

variable {refreshes : Bool} {tenant : Nat}

theorem StageOk.mono {view : Database} {pending : Pending} {locked locked' : Prop} {st : Stage}
    (h : StageOk refreshes tenant view pending next locked st) (hle : next ≤ next') (hlocked : locked → locked') :
    StageOk refreshes tenant view pending next' locked' st := by
  cases st with
  | settlementSelect j => exact JobKnown.mono h hle
  | settlementInsert j => exact JobKnown.mono h hle
  | projectionSelect => exact ⟨h.1, h.2.mono hle⟩
  | projectionInsert => exact ⟨h.1, h.2.mono hle⟩
  | projectionLock x =>
      cases x with
      | post p => exact ⟨h.1, h.2.1.mono hle, h.2.2⟩
      | rebuild => exact h
  | transactionInsert p account held | entriesInsert p account held tx =>
      exact ⟨hlocked h.1, h.2.1, h.2.2.1.mono hle, h.2.2.2⟩
  | postUpdate => exact ⟨hlocked h.1, h.2⟩
  | rebuildUpdate => exact ⟨hlocked h.1, h.2⟩
  | commit o => exact hlocked h
  | totalsSelect => exact h
  | latestSelect => exact h
  | _ => trivial

theorem SessionOk.mono {lock lock' : Option Nat} {i : Nat} {s : Session}
    (h : SessionOk refreshes tenant db next lock i s) (hle : next ≤ next')
    (hlock : lock = some i ↔ lock' = some i) : SessionOk refreshes tenant db next' lock' i s where
  idle hne := h.idle fun he => hne (hlock.mp he)
  unopened := h.unopened
  unposted := h.unposted
  sound := h.sound.mono hle
  balanced := h.balanced
  underway := h.underway
  stage := h.stage.mono hle hlock.mp

theorem Inv.put (h : Inv refreshes tenant w) (i : Nat) {s : Session} {next tx : Nat}
    (hle : w.nextAccount ≤ next) (hlock : lock = w.lock ∨ ((w.lock = none ∨ w.lock = some i) ∧ lock = some i))
    (hs : SessionOk refreshes tenant w.db next lock i s) :
    Inv refreshes tenant
      { db := w.db, lock := lock, nextAccount := next, nextTransaction := tx, sessions := w.sessions.set i s } where
  sound := h.sound.mono hle
  balanced := h.balanced
  sessions := by
    intro k s' hk
    rw [List.getElem?_set] at hk
    split at hk
    next hik =>
      split at hk
      next hlt =>
        cases hk
        exact hik ▸ hs
      next hlt => cases hk
    next hik =>
      apply (h.sessions k s' hk).mono hle
      rcases hlock with rfl | ⟨hfree, rfl⟩
      · exact Iff.rfl
      · constructor
        · intro hw
          rcases hfree with hfree | hfree
          · rw [hfree] at hw; cases hw
          · exact hfree ▸ hw
        · intro he
          exact absurd (Option.some.inj he) hik

theorem finished_ok {next : Nat} {i : Nat} {o : Outcome} (hsound : Sound next db)
    (hbalanced : Balanced tenant db) : SessionOk refreshes tenant db next lock i { stage := .finished o } where
  idle _ := rfl
  unopened _ := rfl
  unposted _ := rfl
  sound := by simpa using hsound
  balanced _ := by simpa using hbalanced
  underway p hp := by cases hp
  stage := trivial

theorem Inv.leave (h : Inv refreshes tenant w) (i : Nat) (o : Outcome) :
    Inv refreshes tenant (w.leave i o) where
  sound := h.sound
  balanced := h.balanced
  sessions := by
    intro k s' hk
    simp only [World.leave, List.getElem?_set] at hk
    split at hk
    next hik =>
      split at hk
      next hlt =>
        cases hk
        exact finished_ok h.sound h.balanced
      next hlt => cases hk
    next hik =>
      apply (h.sessions k s' hk).mono (Nat.le_refl _)
      simp only [World.leave]
      split
      next hw =>
        rw [hw]
        exact ⟨fun he => absurd (Option.some.inj he) hik, fun he => by cases he⟩
      next hw => exact Iff.rfl

theorem postTransaction_ok {r : PostingRequest} {st : Stage} (h : postTransaction r = .ok st) :
    ∃ p : Posting, p.request = r ∧ st = .operationSelect p := by
  unfold postTransaction at h
  cases hv : validateTypesAndAmounts r with
  | error e =>
      rw [hv] at h
      cases h
  | ok totals =>
      rw [hv] at h
      cases h
      exact ⟨_, rfl, rfl⟩

theorem orRaise_ok {α : Type} {x : Except FinError α} {a : α} (h : orRaise x = .ok a) : x = .ok a := by
  cases x with
  | error e => cases h
  | ok b =>
      cases h
      rfl

theorem checkAccount_known {next : Nat} (hd : ∀ a ∈ d.accounts, a.id < next) {e : Entry} {u : Unit}
    (h : checkAccount tenant d e = .ok u) : e.accountId < next := by
  simp only [checkAccount, bind_eq_ok, demand_eq_ok] at h
  obtain ⟨a, ha, _⟩ := h
  have hid : a.id = e.accountId := by simpa using List.find?_some ha
  exact hid ▸ hd a (List.mem_of_find?_eq_some ha)

theorem keepsReversal_of_unreversed {original : Transaction} (r : ReversalRequest)
    (h : ¬ ∃ t ∈ d.transactions, Reverses t original.id) :
    ∀ t ∈ d.transactions, KeepsReversal t (reversalPosting r original) := by
  rintro t ht ⟨_, _, _, hkind, hcorrects⟩
  exact absurd ⟨t, ht, hcorrects, hkind⟩ h

theorem select_ok {view : Database} {pending : Pending} {next : Nat} {locked : Prop} {st st' : Stage}
    (hstage : StageOk refreshes tenant view pending next locked st) (hsound : Sound next view)
    (hunder : ∀ p, underway st = some p → ∀ t ∈ view.transactions, KeepsReversal t p)
    (h : select tenant view st = .ok st') :
    StageOk refreshes tenant view pending next locked st' ∧
      (∀ p, underway st' = some p → ∀ t ∈ view.transactions, KeepsReversal t p) ∧
      inserted st' = inserted st ∧ (beforeAccount st' = true → beforeAccount st = true) := by
  cases st with
  | originalSelect r =>
      simp only [select] at h
      split at h
      next => cases h
      next original _ =>
        split at h
        next => cases h
        next =>
          cases h
          exact ⟨trivial, by simp [underway], rfl, fun _ => rfl⟩
  | reversalSelect r original =>
      simp only [select] at h
      split at h
      next => cases h
      next hnone =>
        cases h
        refine ⟨trivial, ?_, rfl, fun _ => rfl⟩
        intro p hp
        cases hp
        exact keepsReversal_of_unreversed r hnone
  | entriesSelect r original =>
      simp only [select] at h
      split at h
      next => cases h
      next =>
        obtain ⟨p, hp, rfl⟩ := postTransaction_ok h
        refine ⟨trivial, ?_, rfl, fun _ => rfl⟩
        intro p' hp'
        cases hp'
        exact hunder _ (by rw [hp]; rfl)
  | operationSelect p =>
      cases h
      exact ⟨trivial, hunder, rfl, fun _ => rfl⟩
  | sourceSelect p existingOp =>
      simp only [select] at h
      split at h
      next =>
        split at h
        next => cases h
        next => cases h
      next =>
        cases h
        exact ⟨trivial, hunder, rfl, fun _ => rfl⟩
  | correctionSelect p =>
      simp only [select, bind_eq_ok] at h
      obtain ⟨_, _, h⟩ := h
      cases h
      exact ⟨trivial, hunder, rfl, fun _ => rfl⟩
  | accountsSelect p =>
      simp only [select, bind_eq_ok] at h
      obtain ⟨_, hchecked, h⟩ := h
      cases h
      refine ⟨?_, hunder, rfl, fun _ => rfl⟩
      intro e he
      exact checkAccount_known hsound.accounts (forM_ok (orRaise_ok hchecked) e he)
  | settlementSelect j =>
      simp only [select] at h
      split at h
      next =>
        cases h
        refine ⟨hstage, ?_, rfl, fun h => h⟩
        cases j with
        | post p => exact hunder
        | rebuild => simp [underway]
      next account haccount =>
        cases h
        refine ⟨⟨haccount, hstage⟩, ?_, rfl, fun h => by cases h⟩
        cases j with
        | post p => exact hunder
        | rebuild => simp [underway]
  | projectionSelect j account =>
      simp only [select] at h
      split at h
      next =>
        cases h
        refine ⟨hstage, ?_, rfl, fun h => h⟩
        cases j with
        | post p => exact hunder
        | rebuild => simp [underway]
      next loaded hloaded =>
        cases h
        cases j with
        | post p =>
            have hread : loaded.balanceKopecks = balance view := by simp [balance, hloaded]
            exact ⟨⟨hstage.1, hstage.2, fun _ _ => hread⟩, hunder, rfl, fun h => h⟩
        | rebuild => exact ⟨hstage.1, by simp [underway, afterProjection], rfl, fun h => h⟩
  | totalsSelect =>
      cases h
      exact ⟨⟨hstage, .inr (ledgerBalance_eq hstage).symm⟩, by simp [underway], rfl, fun h => h⟩
  | latestSelect =>
      cases h
      exact ⟨hstage, by simp [underway], rfl, fun h => h⟩
  | _ =>
      cases h
      exact ⟨hstage, hunder, rfl, fun h => h⟩

section Writes

variable {w : World} {i : Nat} {s : Session}

variable {d : Database} {account : Account} {held : Projection} {p : Pending} {t : Transaction}

theorem withPending_account (h : p.account = none) (a : Account) :
    d.withPending { p with account := some a } =
      { d.withPending p with accounts := (d.withPending p).accounts ++ [a] } := by
  simp [Database.withPending, h]

theorem withPending_transaction (h : p.transaction = none) (t : Transaction) :
    d.withPending { p with transaction := some t } =
      { d.withPending p with transactions := (d.withPending p).transactions ++ [t] } := by
  simp [Database.withPending, h]

theorem reversals_append (d : Database) (t : Transaction) (id : Nat) :
    (reversals { d with transactions := d.transactions ++ [t] } id).length =
      (reversals d id).length + if t.status = .posted ∧ Reverses t id then 1 else 0 := by
  simp only [reversals, List.filter_append, List.length_append]
  congr 1
  by_cases h : t.status = .posted ∧ Reverses t id
  · simp [h]
  · simp [h]

def beforeInsert (d : Database) (p : Pending) : Database := d.withPending { p with transaction := none }

theorem withPending_inserted (h : p.transaction = some t) :
    d.withPending p = { beforeInsert d p with transactions := (beforeInsert d p).transactions ++ [t] } := by
  simp [beforeInsert, Database.withPending, h]

theorem ledgerBalance_post
    (haccount : d.settlement tenant = some account) (hposted : t.status = .posted) :
    ledgerBalance tenant { d with transactions := d.transactions ++ [t] } =
      ledgerBalance tenant d + movement account.id t.entries := by
  have hnew : Database.settlement tenant { d with transactions := d.transactions ++ [t] } = some account := haccount
  rw [ledgerBalance_eq hnew, ledgerBalance_eq haccount, postedTotal_append, postedTotal_single _ hposted]

theorem ledgerBalance_newAccount {next : Nat} (hd : Sound next d) (hnone : d.settlement tenant = none) :
    ledgerBalance tenant { d with accounts := d.accounts ++ [newAccount tenant next] } =
      ledgerBalance tenant d := by
  have hnew : Database.settlement tenant { d with accounts := d.accounts ++ [newAccount tenant next] } =
      some (newAccount tenant next) := by
    simp only [Database.settlement, List.find?_append] at hnone ⊢
    simp [hnone, newAccount]
  rw [ledgerBalance_eq hnew]
  simp only [ledgerBalance, hnone]
  apply postedTotal_absent
  intro t ht e he
  exact Nat.ne_of_lt (hd.entries t ht e he)

theorem settlementInsert_inv (h : Inv refreshes tenant w) (hs : w.sessions[i]? = some s) {j : Job}
    (hstage : s.stage = .settlementInsert j) : Inv refreshes tenant (advance refreshes tenant w i) := by
  have hok := h.sessions i s hs
  have hjob : JobKnown w.nextAccount j := by simpa [hstage, StageOk] using hok.stage
  have hnoaccount := hok.unopened (by rw [hstage]; rfl)
  simp only [advance, hs, hstage]
  split
  next hfree =>
    split
    next => exact h.leave i _
    next hnone =>
      apply h.put i (Nat.le_succ _) (.inr ⟨hfree, rfl⟩)
      have hview := withPending_account (d := w.db) hnoaccount (newAccount tenant w.nextAccount)
      have hbalanced := hok.balanced (by simp [hstage])
      constructor
      case idle => exact fun hne => absurd rfl hne
      case unopened => exact fun hb => by cases hb
      case unposted => exact fun _ => hok.unposted (by rw [hstage]; rfl)
      case sound =>
        rw [hview]
        refine ⟨?_, (hok.sound.mono (Nat.le_succ _)).entries, hok.sound.reversedOnce⟩
        intro a ha
        rcases List.mem_append.mp ha with ha | ha
        · exact Nat.lt_succ_of_lt (hok.sound.accounts a ha)
        · rw [List.mem_singleton.mp ha]
          exact Nat.lt_succ_self _
      case balanced =>
        intro _
        rw [hview]
        exact hbalanced.trans (ledgerBalance_newAccount hok.sound hnone).symm
      case underway =>
        intro p hp
        rw [hview]
        apply hok.underway p
        rw [hstage]
        cases j with
        | post p => exact hp
        | rebuild => cases hp
      case stage =>
        refine ⟨?_, hjob.mono (Nat.le_succ _)⟩
        rw [hview]
        simp only [Database.settlement, List.find?_append] at hnone ⊢
        simp [hnone, newAccount]
  next => exact h

theorem projectionInsert_inv (h : Inv refreshes tenant w) (hs : w.sessions[i]? = some s) {j : Job}
    (hstage : s.stage = .projectionInsert j account) :
    Inv refreshes tenant (advance refreshes tenant w i) := by
  have hok := h.sessions i s hs
  have hj : (w.db.withPending s.pending).settlement tenant = some account ∧ JobKnown w.nextAccount j := by
    simpa [hstage, StageOk] using hok.stage
  simp only [advance, hs, hstage]
  split
  next hfree =>
    split
    next => exact h.leave i _
    next hnone =>
      apply h.put i (Nat.le_refl _) (.inr ⟨hfree, rfl⟩)
      have hbalanced := hok.balanced (by simp [hstage])
      have hzero : balance (w.db.withPending s.pending) = 0 := by simp [balance, hnone]
      constructor
      case idle => exact fun hne => absurd rfl hne
      case unopened => exact fun hb => by cases j <;> cases hb
      case unposted => exact fun _ => hok.unposted (by rw [hstage]; rfl)
      case sound => exact ⟨hok.sound.accounts, hok.sound.entries, hok.sound.reversedOnce⟩
      case balanced => exact fun _ => hzero.symm.trans hbalanced
      case underway =>
        intro p hp
        apply hok.underway p
        rw [hstage]
        cases j with
        | post p => exact hp
        | rebuild => cases hp
      case stage =>
        cases j with
        | post p => exact ⟨hj.1, hj.2, fun _ _ => rfl⟩
        | rebuild => exact hj.1
  next => exact h

theorem leave_locked (hfree : w.lock = none ∨ w.lock = some i) (o : Outcome) :
    World.leave { w with lock := some i } i o = w.leave i o := by
  simp only [World.leave, ite_true]
  rcases hfree with hfree | hfree
  · simp [hfree]
  · simp [hfree]

theorem projectionLock_inv (h : Inv refreshes tenant w) (hs : w.sessions[i]? = some s) {x : Write}
    {loaded : Projection} (hstage : s.stage = .projectionLock x account loaded) :
    Inv refreshes tenant (advance refreshes tenant w i) := by
  have hok := h.sessions i s hs
  have hst := hok.stage
  rw [hstage] at hst
  have hbalanced := hok.balanced (by simp [hstage])
  have hunposted := hok.unposted (by rw [hstage]; rfl)
  simp only [advance, hs, hstage]
  split
  next hfree =>
    split
    next => exact h.leave i _
    next row hrow =>
      have hbalance : row.balanceKopecks = balance (w.db.withPending s.pending) := by simp [balance, hrow]
      cases x with
      | post p =>
          obtain ⟨haccount, hknown, hloaded⟩ := hst
          have hheld : movement account.id p.request.entries ≠ 0 →
              (if refreshes = true then row else loaded).balanceKopecks = balance (w.db.withPending s.pending) := by
            intro hmoves
            cases refreshes with
            | true => exact hbalance
            | false => exact hloaded rfl hmoves
          simp only [lockProjection]
          generalize (if refreshes = true then row else loaded) = held at hheld
          split
          next =>
            rw [leave_locked hfree]
            exact h.leave i _
          next =>
            apply h.put i (Nat.le_refl _) (.inr ⟨hfree, rfl⟩)
            constructor
            case idle => exact fun hne => absurd rfl hne
            case unopened => exact fun hb => by cases hb
            case unposted => exact fun _ => hunposted
            case sound => exact hok.sound
            case balanced => exact fun _ => hbalanced
            case underway =>
              intro p' hp'
              apply hok.underway p'
              rw [hstage]
              exact hp'
            case stage => exact ⟨rfl, haccount, hknown, hheld⟩
      | rebuild =>
          obtain ⟨haccount, htotal⟩ := hst
          apply h.put i (Nat.le_refl _) (.inr ⟨hfree, rfl⟩)
          constructor
          case idle => exact fun hne => absurd rfl hne
          case unopened => exact fun hb => by cases hb
          case unposted => exact fun _ => hunposted
          case sound => exact hok.sound
          case balanced => exact fun _ => hbalanced
          case underway => exact fun p' hp' => by cases hp'
          case stage =>
            refine ⟨rfl, ?_⟩
            rcases htotal with ⟨hkept, hread⟩ | hcurrent
            · exact .inl (by rw [hkept]; exact hread)
            · exact .inr hcurrent
  next => exact h

theorem Inv.sequence (h : Inv refreshes tenant w) (n : Nat) : Inv refreshes tenant { w with nextTransaction := n } :=
  ⟨h.sound, h.balanced, h.sessions⟩

theorem reversals_new {p : Posting} (hkeeps : ∀ t ∈ d.transactions, KeepsReversal t p.request)
    (hkey : ¬ ∃ t ∈ d.transactions, SharesKey t p.request) (id : Nat)
    (hrev : p.request.correctsTransactionId = some id ∧ p.request.kind = .reversal) : reversals d id = [] := by
  apply List.filter_eq_nil_iff.mpr
  intro t ht hmatch
  obtain ⟨hposted, hreverses⟩ : t.status = .posted ∧ Reverses t id := by simpa using hmatch
  have hsome : p.request.correctsTransactionId ≠ none := by simp [hrev.1]
  exact hkey ⟨t, ht, hkeeps t ht ⟨hrev.2, hsome, hposted, hreverses.2, hreverses.1.trans hrev.1.symm⟩⟩

theorem reversedOnce_new {p : Posting} (h : ReversedOnce d)
    (hkeeps : ∀ t ∈ d.transactions, KeepsReversal t p.request)
    (hkey : ¬ ∃ t ∈ d.transactions, SharesKey t p.request)
    (hcorrects : t.correctsTransactionId = p.request.correctsTransactionId) (hkind : t.kind = p.request.kind) :
    ReversedOnce { d with transactions := d.transactions ++ [t] } := by
  intro id
  rw [reversals_append]
  by_cases hrev : Reverses t id
  · rw [reversals_new hkeeps hkey id ⟨hcorrects ▸ hrev.1, hkind ▸ hrev.2⟩]
    split
    next => exact Nat.le_refl _
    next => exact Nat.zero_le _
  · simpa [hrev] using h id

theorem transactionInsert_inv (h : Inv refreshes tenant w) (hs : w.sessions[i]? = some s) {p : Posting}
    (hstage : s.stage = .transactionInsert p account held) :
    Inv refreshes tenant (advance refreshes tenant w i) := by
  have hok := h.sessions i s hs
  have hst := hok.stage
  rw [hstage] at hst
  obtain ⟨hlock, haccount, hknown, hheld⟩ := hst
  have hbalanced := hok.balanced (by simp [hstage])
  have hunposted := hok.unposted (by rw [hstage]; rfl)
  have hkeeps := hok.underway p.request (by rw [hstage]; rfl)
  simp only [advance, hs, hstage]
  split
  next => exact (h.sequence _).leave i _
  next hkey =>
    apply h.put i (Nat.le_refl _) (.inl rfl)
    have hview := withPending_transaction (d := w.db) hunposted (newTransaction p w.nextTransaction)
    have hposted : (newTransaction p w.nextTransaction).status = .posted := rfl
    constructor
    case idle => exact fun hne => absurd hlock hne
    case unopened => exact fun hb => by cases hb
    case unposted => exact fun hb => by cases hb
    case sound =>
      rw [hview]
      refine ⟨hok.sound.accounts, ?_, reversedOnce_new hok.sound.reversedOnce hkeeps hkey rfl rfl⟩
      intro t ht e he
      rcases List.mem_append.mp ht with ht | ht
      · exact hok.sound.entries t ht e he
      · rw [List.mem_singleton.mp ht] at he
        cases he
    case balanced =>
      intro _
      rw [hview]
      have hempty : movement account.id (newTransaction p w.nextTransaction).entries = 0 := rfl
      have htotal := ledgerBalance_post haccount hposted
      rw [hempty, Int.add_zero] at htotal
      exact hbalanced.trans htotal.symm
    case underway => exact fun p' hp' => by cases hp'
    case stage =>
      rw [hview]
      exact ⟨hlock, haccount, hknown, hheld, rfl, rfl, rfl⟩

theorem entriesInsert_inv (h : Inv refreshes tenant w) (hs : w.sessions[i]? = some s) {p : Posting}
    {tx : Transaction} (hstage : s.stage = .entriesInsert p account held tx) :
    Inv refreshes tenant (advance refreshes tenant w i) := by
  have hok := h.sessions i s hs
  have hst := hok.stage
  rw [hstage] at hst
  obtain ⟨hlock, haccount, hknown, hheld, hpending, hempty, hposted⟩ := hst
  have hbalanced := hok.balanced (by simp [hstage])
  have hsound := hok.sound
  have hview := withPending_inserted (d := w.db) hpending
  rw [hview] at hsound hbalanced hheld haccount
  generalize hd : beforeInsert w.db s.pending = d at hsound hbalanced hheld haccount
  have haccount' : d.settlement tenant = some account := haccount
  have hview' : w.db.withPending { s.pending with transaction := some { tx with entries := p.request.entries } } =
      { d with transactions := d.transactions ++ [{ tx with entries := p.request.entries }] } := by
    rw [← hd]
    exact withPending_inserted rfl
  simp only [advance, hs, hstage]
  apply h.put i (Nat.le_refl _) (.inl rfl)
  constructor
  case idle => exact fun hne => absurd hlock hne
  case unopened => exact fun hb => by cases hb
  case unposted => exact fun hb => by cases hb
  case sound =>
    rw [hview']
    refine ⟨hsound.accounts, ?_, ?_⟩
    · intro t ht e he
      rcases List.mem_append.mp ht with ht | ht
      · exact hsound.entries t (List.mem_append_left _ ht) e he
      · rw [List.mem_singleton.mp ht] at he
        exact hknown e he
    · intro id
      have hbefore := hsound.reversedOnce id
      rw [reversals_append] at hbefore ⊢
      exact hbefore
  case balanced => exact fun hne => absurd rfl (hne _ _ _)
  case underway => exact fun p' hp' => by cases hp'
  case stage =>
    have hbefore := hbalanced.trans (ledgerBalance_post haccount' hposted)
    rw [hempty, movement_nil, Int.add_zero] at hbefore
    have hafter := ledgerBalance_post (t := { tx with entries := p.request.entries }) haccount' hposted
    rw [hview']
    exact ⟨hlock, hheld, by rw [hafter, ← hbefore]; rfl⟩

theorem postUpdate_inv (h : Inv refreshes tenant w) (hs : w.sessions[i]? = some s)
    {delta : Int} {tx : Transaction} (hstage : s.stage = .postUpdate held delta tx) :
    Inv refreshes tenant (advance refreshes tenant w i) := by
  have hok := h.sessions i s hs
  have hst := hok.stage
  rw [hstage] at hst
  obtain ⟨hlock, hheld, htotal⟩ := hst
  simp only [advance, hs, hstage]
  split
  next => exact h.leave i _
  next row hrow =>
    have hbalance : row.balanceKopecks = balance (w.db.withPending s.pending) := by simp [balance, hrow]
    apply h.put i (Nat.le_refl _) (.inl rfl)
    constructor
    case idle => exact fun hne => absurd hlock hne
    case unopened => exact fun hb => by cases hb
    case unposted => exact fun hb => by cases hb
    case sound => exact ⟨hok.sound.accounts, hok.sound.entries, hok.sound.reversedOnce⟩
    case balanced =>
      intro _
      have hwritten : (flush held row (held.balanceKopecks + delta) (some tx.id)).balanceKopecks =
          balance (w.db.withPending s.pending) + delta := by
        by_cases hzero : delta = 0
        · simp [flush, hzero, hbalance]
        · have hread := hheld hzero
          have hne : held.balanceKopecks + delta ≠ held.balanceKopecks := by omega
          simp only [flush, if_neg hne]
          omega
      exact hwritten.trans htotal
    case underway => exact fun p' hp' => by cases hp'
    case stage => exact hlock

theorem rebuildUpdate_inv (h : Inv refreshes tenant w) (hs : w.sessions[i]? = some s)
    {trueBalance : Int} {maxTxId : Option Nat} (hstage : s.stage = .rebuildUpdate held trueBalance maxTxId) :
    Inv refreshes tenant (advance refreshes tenant w i) := by
  have hok := h.sessions i s hs
  have hst := hok.stage
  rw [hstage] at hst
  obtain ⟨hlock, htotal⟩ := hst
  have hbalanced := hok.balanced (by simp [hstage])
  simp only [advance, hs, hstage]
  split
  next => exact h.leave i _
  next row hrow =>
    have hbalance : row.balanceKopecks = balance (w.db.withPending s.pending) := by simp [balance, hrow]
    apply h.put i (Nat.le_refl _) (.inl rfl)
    constructor
    case idle => exact fun hne => absurd hlock hne
    case unopened => exact fun hb => by cases hb
    case unposted => exact fun hb => by cases hb
    case sound => exact ⟨hok.sound.accounts, hok.sound.entries, hok.sound.reversedOnce⟩
    case balanced =>
      intro _
      have hwritten : (flush held row trueBalance maxTxId).balanceKopecks =
          ledgerBalance tenant (w.db.withPending s.pending) := by
        by_cases hsame : trueBalance = held.balanceKopecks
        · simp only [flush, if_pos hsame]
          exact hbalance.trans hbalanced
        · simp only [flush, if_neg hsame]
          exact htotal.resolve_left hsame
      exact hwritten
    case underway => exact fun p' hp' => by cases hp'
    case stage => exact hlock

theorem ledgerBalance_kept
    (haccount : d.settlement tenant = some account)
    (hkept : ∀ t, p.transaction = some t → movement account.id t.entries = 0) :
    ledgerBalance tenant (d.withPending p) = ledgerBalance tenant d := by
  rw [ledgerBalance_eq (settlement_append haccount p), ledgerBalance_eq haccount]
  cases hp : p.transaction with
  | none => simp [Database.withPending, hp]
  | some t =>
      have hzero := hkept t hp
      simp [Database.withPending, hp, postedTotal, hzero]

theorem StageOk.committed {next : Nat} {st : Stage}
    (h : StageOk refreshes tenant d {} next False st) (hbefore : Balanced tenant d)
    (hafter : Balanced tenant (d.withPending p))
    (hkeeps : ∀ t, p.transaction = some t → ∀ a ∈ exposed refreshes st, movement a t.entries = 0) :
    StageOk refreshes tenant (d.withPending p) {} next False st := by
  have htotal : ∀ {account loaded trueBalance}, d.settlement tenant = some account →
      TotalCurrent refreshes tenant d loaded trueBalance →
      (∀ t, p.transaction = some t → refreshes = true ∨ trueBalance ≠ loaded.balanceKopecks →
        movement account.id t.entries = 0) →
      TotalCurrent refreshes tenant (d.withPending p) loaded trueBalance := by
    intro account loaded trueBalance haccount hcurrent hkept
    by_cases hmasked : refreshes = false ∧ trueBalance = loaded.balanceKopecks
    · exact .inl hmasked
    · have hexposed : refreshes = true ∨ trueBalance ≠ loaded.balanceKopecks := by
        cases refreshes with
        | true => exact .inl rfl
        | false => exact .inr fun he => hmasked ⟨rfl, he⟩
      refine .inr ((hcurrent.resolve_left hmasked).trans ?_)
      exact (ledgerBalance_kept haccount fun t ht => hkept t ht hexposed).symm
  cases st with
  | settlementSelect j => exact h
  | settlementInsert j => exact h
  | projectionSelect j account | projectionInsert j account => exact ⟨settlement_append h.1 p, h.2⟩
  | totalsSelect => exact settlement_append h p
  | latestSelect account =>
      refine ⟨settlement_append h.1 p, htotal h.1 h.2 ?_⟩
      intro t ht hexposed
      exact hkeeps t ht account.id (by simp [exposed, hexposed])
  | projectionLock x account loaded =>
      cases x with
      | rebuild =>
          refine ⟨settlement_append h.1 p, htotal h.1 h.2 ?_⟩
          intro t ht hexposed
          exact hkeeps t ht account.id (by simp [exposed, hexposed])
      | post q =>
          refine ⟨settlement_append h.1 p, h.2.1, ?_⟩
          intro hrefreshes hmoves
          have hsame := ledgerBalance_kept (p := p) h.1 fun t ht =>
            hkeeps t ht account.id (by simp [exposed, hrefreshes, hmoves])
          exact (h.2.2 hrefreshes hmoves).trans (hbefore.trans (hsame.symm.trans hafter.symm))
  | transactionInsert q account held | entriesInsert q account held tx | postUpdate held delta tx
  | rebuildUpdate => exact absurd h.1 not_false
  | commit o => exact absurd h not_false
  | _ => trivial

theorem commit_inv (h : Inv refreshes tenant w) (hs : w.sessions[i]? = some s) {o : Outcome}
    (hstage : s.stage = .commit o) (hok : Undisturbed refreshes w (.advance i)) :
    Inv refreshes tenant (advance refreshes tenant w i) := by
  have hself := h.sessions i s hs
  have hlock : w.lock = some i := by simpa [hstage, StageOk] using hself.stage
  have hbalanced := hself.balanced (by simp [hstage])
  simp only [advance, hs, hstage]
  refine ⟨hself.sound, hbalanced, ?_⟩
  intro k s' hk
  simp only [World.leave, List.getElem?_set] at hk
  split at hk
  next hik =>
    split at hk
    next =>
      cases hk
      exact finished_ok hself.sound hbalanced
    next => cases hk
  next hik =>
    have hother := h.sessions k s' hk
    have hnot : w.lock ≠ some k := fun he => hik (Option.some.inj (hlock.symm.trans he))
    have hempty := hother.idle hnot
    have hkeeps : ∀ t, s.pending.transaction = some t → KeepsReads refreshes t s'.stage := by
      intro t ht
      have hcommitting : committing s = some t := by
        obtain ⟨stage, pending⟩ := s
        cases hstage
        exact ht
      exact hok t (by simp [hs, hcommitting]) k (List.getElem?_eq_some_iff.mp hk).1 (fun he => hik he.symm) s' hk
    have hst := hother.stage
    have hun := hother.underway
    rw [hempty, withPending_empty] at hst hun
    have hstaged : StageOk refreshes tenant w.db {} w.nextAccount False s'.stage := hst.mono (Nat.le_refl _) hnot
    constructor
    case idle => exact fun _ => hempty
    case unopened => exact hother.unopened
    case unposted => exact hother.unposted
    case sound =>
      rw [hempty, withPending_empty]
      exact hself.sound
    case balanced =>
      rw [hempty, withPending_empty]
      exact fun _ => hbalanced
    case underway =>
      rw [hempty, withPending_empty]
      intro p hp t ht
      rcases List.mem_append.mp ht with ht | ht
      · exact hun p hp t ht
      · exact (hkeeps t (Option.mem_toList.mp ht)).2 p hp
    case stage =>
      rw [hempty, withPending_empty]
      exact (hstaged.committed h.balanced hbalanced fun t ht => (hkeeps t ht).1).mono (Nat.le_refl _) False.elim

theorem read_inv (h : Inv refreshes tenant w) (hs : w.sessions[i]? = some s)
    (hst : ∀ held delta tx, s.stage ≠ .postUpdate held delta tx) :
    Inv refreshes tenant (w.read tenant i s) := by
  have hok := h.sessions i s hs
  unfold World.read
  cases hsel : select tenant (w.db.withPending s.pending) s.stage with
  | error o => exact h.leave i o
  | ok st' =>
      obtain ⟨hstage, hunder, hinserted, hbefore⟩ := select_ok hok.stage hok.sound hok.underway hsel
      apply h.put i (Nat.le_refl _) (.inl rfl)
      constructor
      case idle => exact hok.idle
      case unopened => exact fun hb => hok.unopened (hbefore hb)
      case unposted => exact fun hi => hok.unposted (hinserted ▸ hi)
      case sound => exact hok.sound
      case balanced => exact fun _ => hok.balanced hst
      case underway => exact hunder
      case stage => exact hstage

theorem advance_inv (h : Inv refreshes tenant w) (hok : Undisturbed refreshes w (.advance i)) :
    Inv refreshes tenant (advance refreshes tenant w i) := by
  cases hs : w.sessions[i]? with
  | none => simpa [advance, hs] using h
  | some s =>
      cases hstage : s.stage with
      | settlementInsert j => exact settlementInsert_inv h hs hstage
      | projectionInsert => exact projectionInsert_inv h hs hstage
      | projectionLock => exact projectionLock_inv h hs hstage
      | transactionInsert => exact transactionInsert_inv h hs hstage
      | entriesInsert => exact entriesInsert_inv h hs hstage
      | postUpdate => exact postUpdate_inv h hs hstage
      | rebuildUpdate => exact rebuildUpdate_inv h hs hstage
      | commit o => exact commit_inv h hs hstage hok
      | finished o => simpa [advance, hs, hstage] using h
      | _ =>
          have hread := read_inv h hs (by simp [hstage])
          simpa only [advance, hs, hstage] using hread

end Writes

theorem begin_ok {next : Nat} {i : Nat} (hsound : Sound next db)
    (hbalanced : Balanced tenant db) (t : Task)
    (hok : ∀ r, t = .post r → ∀ tx ∈ db.transactions, KeepsReversal tx r) :
    SessionOk refreshes tenant db next lock i { stage := t.begin } := by
  constructor
  case idle => exact fun _ => rfl
  case unopened => exact fun _ => rfl
  case unposted => exact fun _ => rfl
  case sound => simpa using hsound
  case balanced => exact fun _ => by simpa using hbalanced
  case underway =>
    rw [withPending_empty]
    intro p hp
    cases t with
    | post r =>
        simp only [Task.begin] at hp
        split at hp
        next => cases hp
        next hposting =>
          obtain ⟨q, rfl, rfl⟩ := postTransaction_ok hposting
          cases hp
          exact hok _ rfl
    | reverse r => cases hp
    | rebuild => cases hp
  case stage =>
    cases t with
    | post r =>
        simp only [Task.begin]
        split
        next => trivial
        next hposting =>
          obtain ⟨q, _, rfl⟩ := postTransaction_ok hposting
          trivial
    | reverse r => trivial
    | rebuild => trivial

theorem step_inv (h : Inv refreshes tenant w) (e : Event) (hok : Undisturbed refreshes w e) :
    Inv refreshes tenant (step refreshes tenant w e) := by
  cases e with
  | start t =>
      refine ⟨h.sound, h.balanced, ?_⟩
      intro k s hk
      simp only [step, List.getElem?_append] at hk
      split at hk
      next => exact h.sessions k s hk
      next =>
        obtain rfl : s = { stage := t.begin } := by simpa using List.mem_of_getElem? hk
        apply begin_ok h.sound h.balanced
        rintro r rfl
        exact hok
  | advance i => exact advance_inv h hok
  | abort i =>
      simp only [step]
      split
      next => exact h
      next => exact h.leave i _

theorem run_inv (events : List Event) (w : World) (h : Inv refreshes tenant w)
    (hok : Along (step refreshes tenant) (Undisturbed refreshes) w events) :
    Inv refreshes tenant (run (step refreshes tenant) w events) := by
  induction events generalizing w with
  | nil => exact h
  | cons e events ih => exact ih (step refreshes tenant w e) (step_inv h e hok.1) hok.2

theorem Initial.inv (h : Initial tenant w) : Inv refreshes tenant w where
  sound := by
    refine ⟨h.accounts, ?_, h.reversedOnce⟩
    intro t ht e he
    obtain ⟨a, ha, hid⟩ := h.entries t ht e he
    exact hid ▸ h.accounts a ha
  balanced := h.balanced
  sessions := by
    intro i s hs
    rw [h.sessions] at hs
    cases hs

/-- Whatever runs overlap, the projection is the ledger's balance and no transaction
is reversed twice, as long as no commit makes the reads of a waiting run stale. -/
theorem undisturbed_balanced (refreshes : Bool) (tenant : Nat) (w : World) (events : List Event)
    (h : Initial tenant w) (hok : Along (step refreshes tenant) (Undisturbed refreshes) w events) :
    Balanced tenant (run (step refreshes tenant) w events).db ∧
      ReversedOnce (run (step refreshes tenant) w events).db := by
  have hinv := run_inv events w h.inv hok
  exact ⟨hinv.balanced, hinv.sound.reversedOnce⟩

/-- A payment of one rouble to the settlement account 1 from the clearing account 2. -/
def payment (operation : String) : PostingRequest where
  operationId := operation
  kind := .payment
  sourceProject := "MenuBuilder"
  sourceType := "payment"
  sourceId := operation
  entries := [⟨2, 100, 0⟩, ⟨1, 0, 100⟩]
  correctsTransactionId := none
  expectedProjectionVersion := none

def refund (operation : String) : ReversalRequest where
  transactionId := 1
  operationId := operation
  sourceProject := "MenuBuilder"
  sourceType := "manual_payment_reversal"
  sourceId := some operation
  expectedProjectionVersion := none

def emptyLedger : World where
  db := ⟨[⟨1, some 7, .tenantSettlement⟩, ⟨2, none, .paymentClearing⟩], [], some ⟨1, 0, 0, none⟩⟩
  lock := none
  nextAccount := 3
  nextTransaction := 1
  sessions := []

theorem emptyLedger_initial : Initial 7 emptyLedger where
  sessions := rfl
  lock := rfl
  accounts := by decide
  entries := by simp [emptyLedger]
  balanced := by decide
  reversedOnce := fun id => by simp [reversals, emptyLedger]

def advances (n i : Nat) : List Event := List.replicate n (.advance i)

/-- The second payment is posted between the first one's read of the projection and
its lock. -/
def overlappingPosts : List Event :=
  [.start (.post (payment "pay-1")), .start (.post (payment "pay-2"))] ++ advances 6 0 ++ advances 11 1 ++ advances 5 0

theorem undisturbed_balanced_posts :
    (Initial 7 emptyLedger ∧ Along (step true 7) (Undisturbed true) emptyLedger overlappingPosts) ∧
      (Balanced 7 (run (step true 7) emptyLedger overlappingPosts).db ∧
        ReversedOnce (run (step true 7) emptyLedger overlappingPosts).db) := by
  have hok : Along (step true 7) (Undisturbed true) emptyLedger overlappingPosts := by decide
  exact ⟨⟨emptyLedger_initial, hok⟩, undisturbed_balanced true 7 emptyLedger overlappingPosts emptyLedger_initial hok⟩

def overtakenRebuild : List Event :=
  [.start .rebuild, .start (.post (payment "pay-1"))] ++ advances 3 0 ++ advances 11 1 ++ advances 4 0

def refundedTwice : List Event :=
  [.start (.post (payment "pay-1"))] ++ advances 11 0 ++
    [.start (.reverse (refund "ref-1")), .start (.reverse (refund "ref-2"))] ++
    advances 2 1 ++ advances 14 2 ++ advances 12 1

/-- The rebuild loses a payment, the payment is refunded twice, and of two payments one
is lost where the mapper keeps the attributes it has loaded. -/
theorem overlap_breaks_ledger :
    Initial 7 emptyLedger ∧
      (Finished (run (step true 7) emptyLedger overtakenRebuild) ∧
        ¬ Balanced 7 (run (step true 7) emptyLedger overtakenRebuild).db) ∧
      (Finished (run (step true 7) emptyLedger refundedTwice) ∧
        ¬ ReversedOnce (run (step true 7) emptyLedger refundedTwice).db) ∧
      (Finished (run (step false 7) emptyLedger overlappingPosts) ∧
        ¬ Balanced 7 (run (step false 7) emptyLedger overlappingPosts).db) := by
  refine ⟨emptyLedger_initial, ⟨by decide, by decide⟩, ⟨by decide, ?_⟩, ⟨by decide, by decide⟩⟩
  intro h
  exact absurd (h 1) (by decide)

end EtranProcessing.Ledger.BalanceProjection
