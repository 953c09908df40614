import EtranProcessing.Ledger.BalanceProjection

namespace EtranProcessing.Ledger.TrialBalance

open Library.Runs Library.Fallible Posting BalanceProjection

def debits (entries : List Entry) : Int := (entries.map Entry.debitKopecks).sum
def credits (entries : List Entry) : Int := (entries.map Entry.creditKopecks).sum

/-- What is taken from the accounts is what is given to them, each line in one direction. -/
structure DoubleEntry (entries : List Entry) : Prop where
  lines : ∀ e ∈ entries, checkEntry e = .ok ()
  balanced : debits entries = credits entries
  positive : 0 < debits entries

def trialBalance (transactions : List Transaction) : Int :=
  (transactions.map fun t => credits t.entries - debits t.entries).sum

def JobOk : Job → Prop
  | .post p => DoubleEntry p.request.entries
  | .rebuild => True

def StageOk : Stage → Prop
  | .operationSelect p | .sourceSelect p _ | .correctionSelect p | .accountsSelect p => DoubleEntry p.request.entries
  | .settlementSelect j | .settlementInsert j | .projectionSelect j _ | .projectionInsert j _ => JobOk j
  | .projectionLock (.post p) _ _ | .transactionInsert p _ _ | .entriesInsert p _ _ _ => DoubleEntry p.request.entries
  | _ => True

/-- Between its two INSERT statements a run holds a transaction that has no lines yet. -/
def Written : Stage → Prop
  | .entriesInsert _ _ _ _ => False
  | _ => True

structure SessionOk (s : Session) : Prop where
  stage : StageOk s.stage
  written : Written s.stage → ∀ t ∈ s.pending.transaction, DoubleEntry t.entries

structure Inv (posted : List Transaction) (w : World) : Prop where
  kept : posted <+: w.db.transactions
  entries : ∀ t ∈ w.db.transactions, DoubleEntry t.entries
  sessions : ∀ s ∈ w.sessions, SessionOk s

variable {refreshes : Bool} {tenant : Nat} {posted : List Transaction} {w : World} {i : Nat} {s : Session}

theorem Inv.put (h : Inv posted w) (hs : SessionOk s) : Inv posted (w.put i s) where
  kept := h.kept
  entries := h.entries
  sessions s' hs' := by
    rcases List.mem_or_eq_of_mem_set hs' with hs' | rfl
    · exact h.sessions s' hs'
    · exact hs

theorem Inv.leave (h : Inv posted w) (o : Outcome) : Inv posted (w.leave i o) := by
  have hfinished : SessionOk { stage := .finished o } := ⟨trivial, fun _ t ht => by cases ht⟩
  have hput := h.put (i := i) hfinished
  exact ⟨hput.kept, hput.entries, hput.sessions⟩

theorem postTransaction_ok {r : PostingRequest} {stage : Stage} (h : postTransaction r = .ok stage) : StageOk stage := by
  unfold postTransaction at h
  split at h
  next => cases h
  next debit credit hvalid =>
    cases h
    simp only [validateTypesAndAmounts, bind_eq_ok, require_eq_ok] at hvalid
    obtain ⟨_, hlines, _, ⟨hbalanced, hpositive⟩, _⟩ := hvalid
    exact ⟨forM_ok hlines, hbalanced, hpositive⟩

theorem afterProjection_ok {j : Job} {account : Account} {loaded : Projection} (h : JobOk j) :
    StageOk (afterProjection account loaded j) := by
  cases j with
  | post p | rebuild => exact h

theorem select_ok {d : Database} {stage next : Stage} (h : select tenant d stage = .ok next) (hs : StageOk stage) :
    StageOk next := by
  cases stage with
  | entriesSelect =>
      simp only [select] at h
      split at h
      next => cases h
      next => exact postTransaction_ok h
  | projectionSelect =>
      simp only [select] at h
      split at h
      next => cases h; exact hs
      next => cases h; exact afterProjection_ok hs
  | correctionSelect p | accountsSelect p =>
      simp only [select, bind_eq_ok] at h
      obtain ⟨_, -, h⟩ := h
      cases h
      exact hs
  | _ =>
      simp only [select] at h
      repeat' split at h
      all_goals cases h
      all_goals exact hs

theorem read_inv (h : Inv posted w) (hs : SessionOk s) (hwritten : Written s.stage) :
    Inv posted (w.read tenant i s) := by
  unfold World.read
  split
  next => exact h.leave _
  next stage hselect => exact h.put ⟨select_ok hselect hs.stage, fun _ => hs.written hwritten⟩

theorem lock_inv {x : Write} {account : Account} {loaded row : Projection} (h : Inv posted w)
    (hs : SessionOk ⟨.projectionLock x account loaded, s.pending⟩) :
    Inv posted (lockProjection refreshes w i s x account loaded row) := by
  unfold lockProjection
  generalize (if refreshes = true then row else loaded) = held
  cases x with
  | post p =>
      dsimp only
      split
      next => exact Inv.leave (w := { w with lock := some i }) ⟨h.kept, h.entries, h.sessions⟩ _
      next => exact Inv.put ⟨h.kept, h.entries, h.sessions⟩ ⟨hs.stage, fun _ => hs.written trivial⟩
  | rebuild => exact Inv.put ⟨h.kept, h.entries, h.sessions⟩ ⟨trivial, fun _ => hs.written trivial⟩

theorem advance_inv (h : Inv posted w) : Inv posted (advance refreshes tenant w i) := by
  cases hs : w.sessions[i]? with
  | none => simpa only [advance, hs] using h
  | some s =>
      obtain ⟨stage, pending⟩ := s
      have hok := h.sessions _ (List.mem_of_getElem? hs)
      simp only [advance, hs]
      cases stage with
      | settlementInsert j | projectionInsert j account | projectionLock x account loaded =>
          dsimp only
          split
          next =>
            split
            next => exact h.leave _
            next =>
              first
                | exact lock_inv h hok
                | exact Inv.put ⟨h.kept, h.entries, h.sessions⟩ ⟨hok.stage, fun _ => hok.written trivial⟩
                | exact Inv.put ⟨h.kept, h.entries, h.sessions⟩ ⟨afterProjection_ok hok.stage, fun _ => hok.written trivial⟩
          next => exact h
      | transactionInsert =>
          dsimp only
          split
          next => exact Inv.leave (w := { w with nextTransaction := w.nextTransaction + 1 }) ⟨h.kept, h.entries, h.sessions⟩ _
          next => exact Inv.put ⟨h.kept, h.entries, h.sessions⟩ ⟨hok.stage, fun hnone => hnone.elim⟩
      | entriesInsert p account held tx =>
          refine h.put ⟨trivial, fun _ t ht => ?_⟩
          cases ht
          exact hok.stage
      | postUpdate held delta tx | rebuildUpdate held trueBalance maxTxId =>
          dsimp only
          split
          next => exact h.leave _
          next => exact h.put ⟨trivial, fun _ => hok.written trivial⟩
      | commit o =>
          apply Inv.leave
          refine ⟨h.kept.trans (List.prefix_append _ _), fun t ht => ?_, h.sessions⟩
          rcases List.mem_append.mp ht with ht | ht
          · exact h.entries t ht
          · exact hok.written trivial t (Option.mem_toList.mp ht)
      | finished o => exact h
      | _ => exact read_inv h hok trivial

theorem begin_ok (t : Task) : StageOk t.begin := by
  cases t with
  | post r =>
      simp only [Task.begin]
      split
      next => trivial
      next hstage => exact postTransaction_ok hstage
  | reverse r | rebuild => trivial

theorem step_inv (h : Inv posted w) (e : Event) : Inv posted (step refreshes tenant w e) := by
  cases e with
  | start t =>
      refine ⟨h.kept, h.entries, fun s hs => ?_⟩
      rcases List.mem_append.mp hs with hs | hs
      · exact h.sessions s hs
      · rw [List.mem_singleton.mp hs]
        exact ⟨begin_ok t, fun _ t ht => by cases ht⟩
  | advance i => exact advance_inv h
  | abort i =>
      simp only [step]
      split
      next => exact h
      next => exact h.leave _

theorem trialBalance_eq_zero {transactions : List Transaction} (h : ∀ t ∈ transactions, DoubleEntry t.entries) :
    trialBalance transactions = 0 := by
  induction transactions with
  | nil => rfl
  | cons t rest ih =>
      have ht := (h t List.mem_cons_self).balanced
      have hrest := ih fun t' ht' => h t' (List.mem_cons_of_mem t ht')
      simp only [trialBalance, List.map_cons, List.sum_cons] at hrest ⊢
      omega

end EtranProcessing.Ledger.TrialBalance
