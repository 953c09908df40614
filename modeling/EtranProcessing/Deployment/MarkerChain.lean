import EtranProcessing.Deployment.UpdateMarker

namespace EtranProcessing.Deployment.MarkerChain

open Library.Runs Journal JournalFrames Records UpdateMarker
open JournalRecovery (Entry)

section Codec

variable (sha256 : Bytes → Digest)

theorem length_stateMagic : stateMagic.length = 8 := rfl

theorem length_stateBody (s : UpdateState) : (stateBody s).length = 80 := by
  simp [stateBody, length_stateMagic, s.ownerSize]

theorem length_stateBytes (s : UpdateState) : (stateBytes sha256 s).length = 112 := by
  simp [stateBytes, length_stateBody, Digest.size]

theorem stateBytes_fields (s : UpdateState) :
    (stateBytes sha256 s).take 8 = stateMagic ∧ ((stateBytes sha256 s).drop 8).take 40 = s.owner ∧
      get32 ((stateBytes sha256 s).drop 48) = s.window.toNat ∧ get32 ((stateBytes sha256 s).drop 52) = 0 ∧
      get64 ((stateBytes sha256 s).drop 56) = s.generation.toNat ∧
      get64 ((stateBytes sha256 s).drop 64) = s.planSequence.toNat ∧
      get64 ((stateBytes sha256 s).drop 72) = s.deadlineUtc.toNat := by
  have hsmall : ∀ v : UInt64, v.toNat % 2 ^ 64 = v.toNat := fun v => Nat.mod_eq_of_lt v.toNat_lt
  have hdrop : ∀ (front back : Bytes) (n : Nat), front.length = n → (front ++ back).drop n = back :=
    fun front back n h => List.drop_left' h
  simp only [stateBytes, stateBody]
  refine ⟨?_, ?_, ?_, ?_, ?_, ?_, ?_⟩
  · simp only [List.append_assoc]
    exact List.take_left' length_stateMagic
  · simp only [List.append_assoc]
    rw [hdrop _ _ _ length_stateMagic]
    exact List.take_left' s.ownerSize
  · simp only [List.append_assoc]
    rw [← List.append_assoc stateMagic, hdrop _ _ 48 (by simp [length_stateMagic, s.ownerSize])]
    exact get32_storeU32 s.window.toNat_lt _
  · rw [List.append_assoc, List.append_assoc, List.append_assoc, List.append_assoc,
      hdrop _ _ 52 (by simp [length_stateMagic, s.ownerSize])]
    exact get32_storeU32 (by decide) _
  · rw [List.append_assoc, List.append_assoc, List.append_assoc,
      hdrop _ _ 56 (by simp [length_stateMagic, s.ownerSize]), get64_storeU64, hsmall]
  · rw [List.append_assoc, List.append_assoc, hdrop _ _ 64 (by simp [length_stateMagic, s.ownerSize]),
      get64_storeU64, hsmall]
  · rw [List.append_assoc, hdrop _ _ 72 (by simp [length_stateMagic, s.ownerSize]), get64_storeU64, hsmall]

theorem stateDecode_stateBytes {s : UpdateState} (h : stateValid s) :
    stateDecode sha256 (stateBytes sha256 s) = some s := by
  obtain ⟨hmagic, howner, hwindow, hzero, hgeneration, hplan, hdeadline⟩ := stateBytes_fields sha256 s
  have hlength := length_stateBytes sha256 s
  have hfront : (stateBytes sha256 s).take 80 = stateBody s := List.take_left' (length_stateBody s)
  have hback : (stateBytes sha256 s).drop 80 = (storeHash sha256 (stateBody s) []).bytes :=
    List.drop_left' (length_stateBody s)
  unfold stateDecode
  rw [dif_pos hlength, if_pos ⟨hmagic, hzero, by rw [hfront, hback]⟩]
  simp only [howner, hwindow, hgeneration, hplan, hdeadline, UInt32.ofNat_toNat, UInt64.ofNat_toNat]
  exact if_pos h

end Codec

section Owner

theorem hexDigit_inj : ∀ a b : Fin 16, hexDigit a = hexDigit b → a = b := by decide

theorem hexByte_inj {b c : UInt8} (h : hexByte b = hexByte c) : b = c := by
  have hb := b.toNat_lt
  have hc := c.toNat_lt
  simp only [hexByte, List.cons.injEq, and_true] at h
  have hhigh := hexDigit_inj ⟨b.toNat / 16, by omega⟩ ⟨c.toNat / 16, by omega⟩ h.1
  have hlow := hexDigit_inj ⟨b.toNat % 16, by omega⟩ ⟨c.toNat % 16, by omega⟩ h.2
  simp only [Fin.mk.injEq] at hhigh hlow
  apply UInt8.toNat_inj.mp
  omega

theorem length_hexBytes (id : Guid) (places : List Nat) : (hexBytes id places).length = 2 * places.length := by
  simp [hexBytes, List.length_flatMap, hexByte, Nat.mul_comm]

theorem hexBytes_inj {id id' : Guid} {places : List Nat} (h : hexBytes id places = hexBytes id' places) :
    ∀ i ∈ places, id.bytes.getD i 0 = id'.bytes.getD i 0 := by
  induction places with
  | nil => simp
  | cons i places ih =>
      rw [hexBytes, hexBytes, List.flatMap_cons, List.flatMap_cons] at h
      obtain ⟨hfirst, hrest⟩ := List.append_inj h rfl
      intro k hk
      rcases List.mem_cons.mp hk with rfl | hk
      · exact hexByte_inj hfirst
      · exact ih hrest k hk

theorem ownerText_inj {id id' : Guid} (h : ownerText id = ownerText id') : id = id' := by
  have hlength : ∀ places, (hexBytes id places).length = (hexBytes id' places).length := by
    intro places
    rw [length_hexBytes, length_hexBytes]
  simp only [ownerText, List.append_assoc] at h
  obtain ⟨hfirst, h⟩ := List.append_inj h (hlength _)
  obtain ⟨_, h⟩ := List.append_inj h rfl
  obtain ⟨hsecond, h⟩ := List.append_inj h (hlength _)
  obtain ⟨_, h⟩ := List.append_inj h rfl
  obtain ⟨hthird, h⟩ := List.append_inj h (hlength _)
  obtain ⟨_, h⟩ := List.append_inj h rfl
  obtain ⟨hfourth, h⟩ := List.append_inj h (hlength _)
  obtain ⟨_, h⟩ := List.append_inj h rfl
  obtain ⟨hfifth, _⟩ := List.append_inj h (hlength _)
  have hplaces : ∀ i < 16, id.bytes.getD i 0 = id'.bytes.getD i 0 := by
    intro i hi
    have hmem : i ∈ [3, 2, 1, 0] ∨ i ∈ [5, 4] ∨ i ∈ [7, 6] ∨ i ∈ [8, 9] ∨ i ∈ [10, 11, 12, 13, 14, 15] := by
      simp only [List.mem_cons, List.not_mem_nil, or_false]
      omega
    rcases hmem with hmem | hmem | hmem | hmem | hmem
    · exact hexBytes_inj hfirst i hmem
    · exact hexBytes_inj hsecond i hmem
    · exact hexBytes_inj hthird i hmem
    · exact hexBytes_inj hfourth i hmem
    · exact hexBytes_inj hfifth i hmem
  have hbytes : id.bytes = id'.bytes := by
    apply List.ext_getElem (by rw [id.size, id'.size])
    intro i hi hi'
    have hplace := hplaces i (by rw [id.size] at hi; exact hi)
    rwa [List.getD_eq_getElem _ _ hi, List.getD_eq_getElem _ _ hi'] at hplace
  cases id
  cases id'
  simpa using hbytes

theorem clear_unowned (id : Guid) : clearState.owner ≠ ownerText id := by
  intro h
  have hdash : (ownerText id).getD 8 0 = dash := by
    have hfront := length_hexBytes id [3, 2, 1, 0]
    simp only [ownerText, List.append_assoc]
    have hplace : (hexBytes id [3, 2, 1, 0]).length = 8 := hfront
    rw [List.getD_append_right _ _ _ _ (Nat.le_of_eq hplace), hplace]
    rfl
  rw [← h] at hdash
  exact absurd hdash (by decide)

end Owner

section Publish

variable {sha256 : Bytes → Digest}

variable {s : Store} {id : Guid} {j : RecordLog}

theorem findRecord_last (hlive : j.poisoned = false) (kind : UInt32) (bytes : Bytes) :
    findRecord j kind j.records.length = some bytes ↔ j.records.getLast? = some (kind, bytes) := by
  rw [List.getLast?_eq_getElem?]
  unfold findRecord
  split
  next hempty =>
    have hzero : j.records.length = 0 := hempty.resolve_left (by simp [hlive])
    have hnil := List.length_eq_zero_iff.mp hzero
    simp [hnil]
  next =>
    cases hlast : j.records[j.records.length - 1]? with
    | none => simp
    | some r =>
        obtain ⟨k, b⟩ := r
        by_cases hk : k = kind
        · simp [hk]
        · simp [hk]

/-- What the checks of a call establish about the state it finds and the state it wants. -/
structure Granted (sha256 : Bytes → Digest) (s : Store) (id : Guid) (before value : UpdateState) : Prop where
  read : s.read sha256 = some before
  valid : stateValid value
  owner : value.owner = ownerText id
  generation : value.generation.toNat = before.generation.toNat + 1
  window : (before.window = 0 ∧ (value.window = 1 ∨ value.window = 2)) ∨ (before.window = 1 ∧ value.window = 2) ∨
    ((before.window = 1 ∨ before.window = 2) ∧ value.window = 0)
  same : before.window ≠ 0 → before.owner = value.owner ∧ before.planSequence = value.planSequence

def SameRecords (s s' : Store) : Prop := ∀ k, (s'.operations k).records = (s.operations k).records

def Appended (s s' : Store) (id : Guid) (bytes : Bytes) : Prop :=
  (∀ k, k ≠ id → (s'.operations k).records = (s.operations k).records) ∧
    (s'.operations id).records = (s.operations id).records ++ [⟨recordIntent, bytes⟩]

theorem setOperation_records (h : j.records = (s.operations id).records) :
    SameRecords s (s.setOperation id j) := by
  intro k
  by_cases hk : k = id
  · subst hk
    simpa [Store.setOperation] using h
  · simp [Store.setOperation, Function.update_of_ne hk]

theorem setOperation_appended {bytes : Bytes}
    (h : j.records = (s.operations id).records ++ [⟨recordIntent, bytes⟩]) :
    Appended s (s.setOperation id j) id bytes := by
  constructor
  · intro k hk
    simp [Store.setOperation, Function.update_of_ne hk]
  · simpa [Store.setOperation] using h

theorem stateReplace_cases (s : Store) (bytes : Bytes) (fault : Option Fault) :
    (stateReplace s bytes fault).2 = s ∨ (stateReplace s bytes fault).2 = { s with file := some bytes } := by
  unfold stateReplace
  split
  next => exact .inl rfl
  next => exact .inr rfl
  next => exact .inr rfl

theorem intentReplace_cases (s : Store) (id : Guid) (bytes : Bytes) (fault : Option Fault) :
    let s' := (intentReplace s id bytes fault).2
    (SameRecords s s' ∧ s'.file = s.file) ∨
      (Appended s s' id bytes ∧ (s'.file = s.file ∨ s'.file = some bytes)) := by
  unfold intentReplace
  rcases appendRecord_cases (s.operations id) recordIntent bytes (Fault.ofAppend fault) with
    ⟨hnone, hkept | hadded⟩ | ⟨hdone, _⟩
  · simp only [hnone, if_true]
    exact .inl ⟨setOperation_records hkept, rfl⟩
  · simp only [hnone, if_true]
    exact .inr ⟨setOperation_appended hadded, .inl rfl⟩
  · simp only [hdone, reduceCtorEq, if_false]
    have happended : Appended s (s.setOperation id ⟨(s.operations id).records ++ [(recordIntent, bytes)], false⟩) id
        bytes := setOperation_appended rfl
    rcases stateReplace_cases (s.setOperation id ⟨(s.operations id).records ++ [(recordIntent, bytes)], false⟩) bytes
      fault with hkept | hnew
    · rw [hkept]
      exact .inr ⟨happended, .inl rfl⟩
    · rw [hnew]
      exact .inr ⟨happended, .inr rfl⟩

/-- Everything that a publication can do: nothing, an intent that continues no unfinished
one, with or without the file behind it, or the file alone after its intent. -/
inductive Published (sha256 : Bytes → Digest) (s : Store) (id : Guid) (s' : Store) : Prop where
  | kept (hrecords : SameRecords s s') (hfile : s'.file = s.file)
  | intent (before value : UpdateState) (hgranted : Granted sha256 s id before value)
      (hfresh : ∀ bytes, (s.operations id).records.getLast? = some ⟨recordIntent, bytes⟩ →
        bytes = stateBytes sha256 before)
      (happended : Appended s s' id (stateBytes sha256 value))
      (hfile : s'.file = s.file ∨ s'.file = some (stateBytes sha256 value))
  | reused (before value : UpdateState) (hgranted : Granted sha256 s id before value)
      (hlast : (s.operations id).records.getLast? = some ⟨recordIntent, stateBytes sha256 value⟩)
      (hrecords : SameRecords s s') (hfile : s'.file = some (stateBytes sha256 value))

theorem publishIntent_cases {before value : UpdateState} (h : Granted sha256 s id before value)
    (hlive : (s.operations id).poisoned = false) (fault : Option Fault) :
    Published sha256 s id (publishIntent sha256 s id before (stateBytes sha256 value) fault).2 := by
  cases hfind : findRecord (s.operations id) recordIntent (s.operations id).records.length with
  | some last =>
      have hlast := (findRecord_last hlive _ _).mp hfind
      simp only [publishIntent, hfind]
      split
      next hreuse =>
        rcases stateReplace_cases s (stateBytes sha256 value) fault with hkept | hdone
        · rw [hkept]
          exact .kept (fun _ => rfl) rfl
        · rw [hdone]
          exact .reused before value h (by rw [hlast, hreuse]) (fun _ => rfl) rfl
      next =>
        split
        next hbefore =>
          have hfresh : ∀ bytes, (s.operations id).records.getLast? = some ⟨recordIntent, bytes⟩ →
              bytes = stateBytes sha256 before := by
            intro bytes hbytes
            rw [hlast] at hbytes
            cases hbytes
            unfold stateEncode at hbefore
            split at hbefore
            next => exact (Option.some.inj hbefore).symm
            next => cases hbefore
          rcases intentReplace_cases s id (stateBytes sha256 value) fault with hkept | hdone
          · exact .kept hkept.1 hkept.2
          · exact .intent before value h hfresh hdone.1 hdone.2
        next => exact .kept (fun _ => rfl) rfl
  | none =>
      simp only [publishIntent, hfind]
      have hfresh : ∀ bytes, (s.operations id).records.getLast? = some ⟨recordIntent, bytes⟩ →
          bytes = stateBytes sha256 before := by
        intro bytes hbytes
        rw [(findRecord_last hlive _ _).mpr hbytes] at hfind
        cases hfind
      rcases intentReplace_cases s id (stateBytes sha256 value) fault with hkept | hdone
      · exact .kept hkept.1 hkept.2
      · exact .intent before value h hfresh hdone.1 hdone.2

theorem stateDecode_valid {b : Bytes} {s : UpdateState} (h : stateDecode sha256 b = some s) : stateValid s := by
  unfold stateDecode at h
  split at h
  next =>
    split at h
    next =>
      simp only at h
      split at h
      next hvalid =>
        cases h
        exact hvalid
      next => cases h
    next => cases h
  next => cases h

theorem window_cases {w : UInt32} (h : w ≤ 2) : w = 0 ∨ w = 1 ∨ w = 2 := by
  have hw : w.toNat ≤ 2 := h
  have hcases : w.toNat = 0 ∨ w.toNat = 1 ∨ w.toNat = 2 := by omega
  rcases hcases with h | h | h
  · exact .inl (UInt32.toNat_inj.mp h)
  · exact .inr (.inl (UInt32.toNat_inj.mp h))
  · exact .inr (.inr (UInt32.toNat_inj.mp h))

theorem valid_window {s : UpdateState} (h : stateValid s) : s.window ≤ 2 := by
  unfold stateValid at h
  split at h
  next =>
    rw [h.2.1]
    decide
  next => exact h.2.2.1

theorem succ_toNat {v : UInt64} (h : v ≠ 0xffffffffffffffff) : (v + 1).toNat = v.toNat + 1 := by
  have hlt := v.toNat_lt
  have hne : v.toNat ≠ 2 ^ 64 - 1 := fun hv => h (UInt64.toNat_inj.mp hv)
  rw [UInt64.toNat_add, UInt64.toNat_one]
  exact Nat.mod_eq_of_lt (by omega)

theorem allowed_granted {before : UpdateState} {plan expected now : UInt64}
    {window : UInt32} {deadline : UInt64} (hread : s.read sha256 = some before)
    (h : publishAllowed before (publishValue id plan expected window deadline) expected now)
    (hexpected : expected ≠ 0xffffffffffffffff)
    (hvalid : stateValid (publishValue id plan expected window deadline)) :
    Granted sha256 s id before (publishValue id plan expected window deadline) := by
  obtain ⟨hgeneration, _, hmove⟩ := h
  obtain ⟨b, _, hdecode⟩ := Option.bind_eq_some_iff.mp hread
  have hbefore := window_cases (valid_window (stateDecode_valid hdecode))
  have hvalue := window_cases (valid_window hvalid)
  constructor
  case read => exact hread
  case valid => exact hvalid
  case owner => rfl
  case generation =>
    rw [hgeneration]
    exact succ_toNat hexpected
  case window =>
    split at hmove
    next hactive =>
      have hactive' : before.window = 1 ∨ before.window = 2 := hbefore.resolve_left hactive
      rcases hmove.2 with hclear | hnext
      · exact .inr (.inr ⟨hactive', hclear⟩)
      · exact .inr (.inl hnext)
    next hidle => exact .inl ⟨Decidable.not_not.mp hidle, hvalue.resolve_left hmove⟩
  case same =>
    intro hactive
    rw [if_pos hactive] at hmove
    exact hmove.1

theorem publish_cases (s : Store) (id : Guid) (plan expected : UInt64) (window : UInt32) (deadline now : UInt64)
    (fault : Option Fault) :
    Published sha256 s id (updateStatePublish sha256 s id plan expected window deadline now fault).2 := by
  have hkept : Published sha256 s id s := .kept (fun _ => rfl) rfl
  unfold updateStatePublish
  split
  next => exact hkept
  next hargs =>
    split
    next => exact hkept
    next =>
      cases hplan : findRecord (s.operations id) recordPlan plan.toNat with
      | none => exact hkept
      | some saved =>
          simp only
          by_cases hempty : saved = []
          · rw [if_pos hempty]
            exact hkept
          · rw [if_neg hempty]
            cases hread : s.read sha256 with
            | none => exact hkept
            | some before =>
                simp only
                split
                next => exact hkept
                next =>
                  split
                  next => exact hkept
                  next hallowed =>
                    by_cases hvalid : stateValid (publishValue id plan expected window deadline)
                    · simp only [stateEncode, if_pos hvalid]
                      have hexpected : expected ≠ 0xffffffffffffffff := fun he => hargs (by simp [invalidCall, he])
                      have hlive : (s.operations id).poisoned = false := by
                        simpa using fun hp => hargs (.inl hp)
                      have hgranted := allowed_granted hread (Decidable.not_not.mp hallowed) hexpected hvalid
                      exact publishIntent_cases hgranted hlive fault
                    · simp only [stateEncode, if_neg hvalid]
                      exact hkept

end Publish

section Chain

variable {sha256 : Bytes → Digest}

def intents (s : Store) (id : Guid) : List Bytes :=
  ((s.operations id).records.filter fun r => r.1 = recordIntent).map Prod.snd

def generationOf (b : Bytes) : Nat := get64 (b.drop 56)

theorem generationOf_stateBytes (s : UpdateState) : generationOf (stateBytes sha256 s) = s.generation.toNat :=
  (stateBytes_fields sha256 s).2.2.2.2.1

variable {before value : UpdateState} {id : Guid} {w w' : Watched} {s s' : Store}

theorem intents_same (h : SameRecords s s') (id : Guid) : intents s' id = intents s id := by
  simp only [intents, h id]

theorem intents_appended {bytes : Bytes} (h : Appended s s' id bytes) (k : Guid) :
    intents s' k = if k = id then intents s k ++ [bytes] else intents s k := by
  by_cases hk : k = id
  · subst hk
    rw [if_pos rfl, intents, h.2, List.filter_append, List.map_append]
    rfl
  · rw [if_neg hk]
    simp only [intents, h.1 k hk]

theorem intents_last {s : Store} {bytes : Bytes}
    (h : (s.operations id).records.getLast? = some ⟨recordIntent, bytes⟩) : (intents s id).getLast? = some bytes := by
  obtain ⟨front, hfront⟩ := List.getLast?_eq_some_iff.mp h
  rw [intents, hfront, List.filter_append, List.map_append]
  exact List.getLast?_concat

theorem step_cases (s : Store) (e : Event) :
    ((step sha256 s e).file = s.file ∧ ∀ id, intents (step sha256 s e) id = intents s id) ∨
      ∃ id plan expected window deadline now fault, e = .publish id plan expected window deadline now fault ∧
        Published sha256 s id (step sha256 s e) := by
  cases e with
  | publish id plan expected window deadline now fault =>
      exact .inr ⟨id, plan, expected, window, deadline, now, fault, rfl,
        publish_cases s id plan expected window deadline now fault⟩
  | reopen id => exact .inl ⟨rfl, intents_same (setOperation_records rfl)⟩
  | append id kind bytes fault =>
      refine .inl ?_
      simp only [step]
      split
      next => exact ⟨rfl, fun _ => rfl⟩
      next hallowed =>
        refine ⟨rfl, fun k => ?_⟩
        by_cases hk : k = id
        · subst hk
          rcases appendRecord_cases (s.operations k) kind bytes fault with ⟨_, hkept | hadded⟩ | ⟨hdone, _⟩
          · simp [intents, Store.setOperation, hkept]
          · simp [intents, Store.setOperation, hadded, hallowed]
          · simp [intents, Store.setOperation, hdone, hallowed]
        · simp [intents, Store.setOperation, Function.update_of_ne hk]

structure Watched where
  store : Store
  preceding : Guid → Option Bytes

def watch (sha256 : Bytes → Digest) (w : Watched) (e : Event) : Watched :=
  ⟨step sha256 w.store e,
    fun id => if intents (step sha256 w.store e) id = intents w.store id then w.preceding id else w.store.file⟩

structure Inv (sha256 : Bytes → Digest) (w : Watched) : Prop where
  file : ∃ st, stateValid st ∧ w.store.file = some (stateBytes sha256 st)
  bound : ∀ f, w.store.file = some f → ∀ id, ∀ b ∈ intents w.store id, generationOf b ≤ generationOf f + 1
  owned : ∀ st, w.store.read sha256 = some st → ∀ id, st.owner = ownerText id →
    ∃ last, (intents w.store id).getLast? = some last ∧
      (w.store.file = some last ∨ w.store.file = w.preceding id)

theorem read_of_file {s : Store} {st : UpdateState} (hvalid : stateValid st)
    (h : s.file = some (stateBytes sha256 st)) : s.read sha256 = some st := by
  simp [Store.read, h, stateDecode_stateBytes sha256 hvalid]

theorem Inv.same (h : Inv sha256 w) (hfile : w'.store.file = w.store.file)
    (hintents : ∀ id, intents w'.store id = intents w.store id) (hpreceding : w'.preceding = w.preceding) :
    Inv sha256 w' := by
  constructor
  case file => simpa only [hfile] using h.file
  case bound =>
    intro f hf id b hb
    rw [hfile] at hf
    rw [hintents id] at hb
    exact h.bound f hf id b hb
  case owned =>
    intro st hread id howner
    rw [Store.read, hfile, ← Store.read] at hread
    rw [hfile, hintents id, hpreceding]
    exact h.owned st hread id howner

theorem Inv.replaced (h : Inv sha256 w)
    (hgranted : Granted sha256 w.store id before value)
    (hfile : w'.store.file = some (stateBytes sha256 value))
    (hlast : (intents w'.store id).getLast? = some (stateBytes sha256 value))
    (hintents : ∀ k b, b ∈ intents w'.store k → b ∈ intents w.store k ∨ b = stateBytes sha256 value) :
    Inv sha256 w' := by
  obtain ⟨st, hvalid, hst⟩ := h.file
  obtain rfl : before = st := Option.some.inj (hgranted.read.symm.trans (read_of_file hvalid hst))
  constructor
  case file => exact ⟨value, hgranted.valid, hfile⟩
  case bound =>
    intro f hf k b hb
    rw [hfile] at hf
    cases hf
    rcases hintents k b hb with hold | rfl
    · have hbound := h.bound _ hst k b hold
      rw [generationOf_stateBytes] at hbound ⊢
      have hnext := hgranted.generation
      omega
    · exact Nat.le_succ _
  case owned =>
    intro st' hread k howner
    obtain rfl : value = st' := Option.some.inj ((read_of_file hgranted.valid hfile).symm.trans hread)
    obtain rfl : id = k := ownerText_inj (hgranted.owner.symm.trans howner)
    exact ⟨_, hlast, .inl hfile⟩

theorem Inv.intended (h : Inv sha256 w)
    (hgranted : Granted sha256 w.store id before value) (hfile : w'.store.file = w.store.file)
    (happended : Appended w.store w'.store id (stateBytes sha256 value))
    (hpreceding : ∀ k, w'.preceding k = if k = id then w.store.file else w.preceding k) : Inv sha256 w' := by
  obtain ⟨st, hvalid, hst⟩ := h.file
  obtain rfl : before = st := Option.some.inj (hgranted.read.symm.trans (read_of_file hvalid hst))
  constructor
  case file => exact ⟨before, hvalid, hfile.trans hst⟩
  case bound =>
    intro f hf k b hb
    rw [hfile] at hf
    rw [intents_appended happended k] at hb
    split at hb
    next =>
      rcases List.mem_append.mp hb with hold | hnew
      · exact h.bound f hf k b hold
      · obtain rfl : b = stateBytes sha256 value := List.mem_singleton.mp hnew
        rw [hst] at hf
        cases hf
        rw [generationOf_stateBytes, generationOf_stateBytes, hgranted.generation]
    next => exact h.bound f hf k b hb
  case owned =>
    intro st' hread k howner
    rw [Store.read, hfile, ← Store.read] at hread
    rw [intents_appended happended k, hpreceding k, hfile]
    by_cases hk : k = id
    · rw [if_pos hk, if_pos hk]
      exact ⟨_, List.getLast?_concat, .inr rfl⟩
    · rw [if_neg hk, if_neg hk]
      exact h.owned st' hread k howner

theorem watch_inv {w : Watched} (h : Inv sha256 w) (e : Event) : Inv sha256 (watch sha256 w e) := by
  have hkept : (step sha256 w.store e).file = w.store.file →
      (∀ id, intents (step sha256 w.store e) id = intents w.store id) → Inv sha256 (watch sha256 w e) := by
    intro hfile hintents
    refine h.same hfile hintents (funext fun id => ?_)
    simp only [watch, hintents id, if_true]
  rcases @step_cases sha256 w.store e with ⟨hfile, hintents⟩ | ⟨id, plan, expected, window, deadline, now, fault, _, hp⟩
  · exact hkept hfile hintents
  · cases hp with
    | kept hrecords hfile => exact hkept hfile (intents_same hrecords)
    | intent before value hgranted hfresh happended hfile =>
        rcases hfile with hfile | hfile
        · refine h.intended hgranted hfile happended fun k => ?_
          simp only [watch, intents_appended happended k]
          by_cases hk : k = id
          · simp [hk]
          · simp [hk]
        · refine h.replaced hgranted hfile ?_ ?_
          · simp only [watch, intents_appended happended id, if_true]
            exact List.getLast?_concat
          · intro k b hb
            simp only [watch, intents_appended happended k] at hb
            split at hb
            next =>
              rcases List.mem_append.mp hb with hold | hnew
              · exact .inl hold
              · exact .inr (List.mem_singleton.mp hnew)
            next => exact .inl hb
    | reused before value hgranted hlast hrecords hfile =>
        refine h.replaced hgranted hfile ?_ ?_
        · simp only [watch, intents_same hrecords id]
          exact intents_last hlast
        · intro k b hb
          simp only [watch, intents_same hrecords k] at hb
          exact .inl hb

/-- The marker stays, or a publication moves it on by one generation, into a window or, by
its owner and for its plan, into the next one or out of it. -/
def Legal (sha256 : Bytes → Digest) (s s' : Store) : Prop :=
  s'.file = s.file ∨ ∃ before after, s.read sha256 = some before ∧ s'.read sha256 = some after ∧
    after.generation.toNat = before.generation.toNat + 1 ∧
    ((before.window = 0 ∧ (after.window = 1 ∨ after.window = 2)) ∨ (before.window = 1 ∧ after.window = 2) ∨
      ((before.window = 1 ∨ before.window = 2) ∧ after.window = 0)) ∧
    (before.window ≠ 0 → after.owner = before.owner ∧ after.planSequence = before.planSequence)

theorem Granted.legal (h : Granted sha256 s id before value)
    (hfile : s'.file = some (stateBytes sha256 value)) : Legal sha256 s s' := by
  refine .inr ⟨before, value, h.read, read_of_file h.valid hfile, h.generation, h.window, ?_⟩
  intro hactive
  exact ⟨(h.same hactive).1.symm, (h.same hactive).2.symm⟩

theorem step_legal (s : Store) (e : Event) : Legal sha256 s (step sha256 s e) := by
  rcases @step_cases sha256 s e with ⟨hfile, _⟩ | ⟨id, plan, expected, window, deadline, now, fault, _, hp⟩
  · exact .inl hfile
  · cases hp with
    | kept hrecords hfile => exact .inl hfile
    | intent before value hgranted hfresh happended hfile =>
        rcases hfile with hfile | hfile
        · exact .inl hfile
        · exact hgranted.legal hfile
    | reused before value hgranted hlast hrecords hfile => exact hgranted.legal hfile

/-- An intent for the generation behind the file's, left by a replacement that failed, is
the last record of the journal when its operation publishes again. -/
def Settled (s : Store) : Event → Prop
  | .publish id _ _ _ _ _ _ => ∀ f, s.file = some f → ∀ b ∈ intents s id, generationOf b = generationOf f + 1 →
      (s.operations id).records.getLast? = some ⟨recordIntent, b⟩
  | _ => True

def Increasing (s : Store) : Prop := ∀ id, ((intents s id).map generationOf).Pairwise (· < ·)

theorem watch_increasing {w : Watched} (h : Inv sha256 w) (hincreasing : Increasing w.store) {e : Event}
    (hsettled : Settled w.store e) : Increasing (step sha256 w.store e) := by
  have hkept : (∀ id, intents (step sha256 w.store e) id = intents w.store id) →
      Increasing (step sha256 w.store e) := by
    intro hintents id
    rw [hintents id]
    exact hincreasing id
  rcases @step_cases sha256 w.store e with ⟨_, hintents⟩ | ⟨id, plan, expected, window, deadline, now, fault, rfl, hp⟩
  · exact hkept hintents
  · cases hp with
    | kept hrecords | reused before value hgranted hlast hrecords => exact hkept (intents_same hrecords)
    | intent before value hgranted hfresh happended hfile =>
        obtain ⟨st, hvalid, hst⟩ := h.file
        obtain rfl : before = st := Option.some.inj (hgranted.read.symm.trans (read_of_file hvalid hst))
        have hbelow : ∀ b ∈ intents w.store id, generationOf b < generationOf (stateBytes sha256 value) := by
          intro b hb
          have hbound := h.bound _ hst id b hb
          have hnext := hgranted.generation
          rw [generationOf_stateBytes] at hbound ⊢
          by_cases hpending : generationOf b = generationOf (stateBytes sha256 before) + 1
          · -- an unfinished intent would be the last record, and that one is the file's own state
            have hlast := hfresh b (hsettled _ hst b hb hpending)
            rw [hlast] at hpending
            omega
          · rw [generationOf_stateBytes] at hpending
            omega
        intro k
        rw [intents_appended happended k]
        split
        next hk =>
          subst hk
          rw [List.map_append, List.pairwise_append]
          refine ⟨hincreasing k, List.pairwise_singleton _ _, ?_⟩
          intro a ha c hc
          obtain ⟨b, hb, rfl⟩ := List.mem_map.mp ha
          obtain rfl : c = generationOf (stateBytes sha256 value) := List.mem_singleton.mp hc
          exact hbelow b hb
        next => exact hincreasing k

def start (sha256 : Bytes → Digest) : Watched := ⟨provisioned sha256, fun _ => none⟩

theorem start_inv : Inv sha256 (start sha256) := by
  have hvalid : stateValid clearState := by decide
  constructor
  case file => exact ⟨clearState, hvalid, rfl⟩
  case bound =>
    intro f hf id b hb
    cases hb
  case owned =>
    intro st hread id howner
    obtain rfl : clearState = st := Option.some.inj ((read_of_file hvalid rfl).symm.trans hread)
    exact absurd howner (clear_unowned id)

theorem run_watch (events : List Event) (w : Watched) :
    (run (watch sha256) w events).store = run (step sha256) w.store events := by
  induction events generalizing w with
  | nil => rfl
  | cons e events ih => exact ih (watch sha256 w e)

theorem run_inv (events : List Event) : Inv sha256 (run (watch sha256) (start sha256) events) :=
  run_kept (p := Inv sha256) (fun _ e h => watch_inv h e) events (start sha256) start_inv

theorem run_increasing (events : List Event) {w : Watched} (h : Inv sha256 w) (hincreasing : Increasing w.store)
    (hsettled : Along (step sha256) Settled w.store events) : Increasing (run (step sha256) w.store events) := by
  induction events generalizing w with
  | nil => exact hincreasing
  | cons e events ih => exact ih (watch_inv h e) (watch_increasing h hincreasing hsettled.1) hsettled.2

def preceding (sha256 : Bytes → Digest) (events : List Event) (id : Guid) : Option Bytes :=
  (run (watch sha256) (start sha256) events).preceding id

/-- The moves of the marker and its relation to the intents hold in every run; the
generations of the intents increase as long as no publication finds an unfinished intent
under other records. -/
theorem marker_chain (sha256 : Bytes → Digest) (events : List Event) :
    let s := run (step sha256) (provisioned sha256) events
    (∀ e, Legal sha256 s (step sha256 s e)) ∧
    (∀ st, s.read sha256 = some st → ∀ id, st.owner = ownerText id →
      ∃ last, (intents s id).getLast? = some last ∧ (s.file = some last ∨ s.file = preceding sha256 events id)) ∧
    (Along (step sha256) Settled (provisioned sha256) events →
      ∀ id, ((intents s id).map generationOf).Pairwise (· < ·)) := by
  intro s
  refine ⟨step_legal s, ?_, ?_⟩
  · intro st hread id howner
    have howned := (@run_inv sha256 events).owned
    rw [run_watch] at howned
    exact howned st hread id howner
  · intro hsettled
    exact run_increasing events start_inv (fun id => List.Pairwise.nil) hsettled

def someOperation : Guid := ⟨List.replicate 16 1, rfl⟩

def someValue : UpdateState := publishValue someOperation 1 0 1 100

def retried : List Event :=
  [.append someOperation recordPlan [1] none, .publish someOperation 1 0 1 100 1 (some (.replace false)),
    .append someOperation 7 [] none, .publish someOperation 1 0 1 100 1 none]

theorem some_intent (sha256 : Bytes → Digest) {s : Store} (hfile : s.file = some (stateBytes sha256 clearState))
    (hplan : findRecord (s.operations someOperation) recordPlan 1 = some [1])
    (hlast : findRecord (s.operations someOperation) recordIntent (s.operations someOperation).records.length = none)
    (hlive : (s.operations someOperation).poisoned = false) (fault : Option Fault)
    (hfault : fault = none ∨ fault = some (.replace false)) :
    (step sha256 s (.publish someOperation 1 0 1 100 1 fault)).operations someOperation =
        { s.operations someOperation with
          records := (s.operations someOperation).records ++ [⟨recordIntent, stateBytes sha256 someValue⟩] } ∧
      (fault = some (.replace false) →
        (step sha256 s (.publish someOperation 1 0 1 100 1 fault)).file = s.file) := by
  have hread : s.read sha256 = some clearState := read_of_file (by decide) hfile
  have hcall : ¬ invalidCall (s.operations someOperation) 1 0 1 100 := by
    simp [invalidCall, hlive]
  have hne : ¬ clearState = publishValue someOperation 1 0 1 100 := by decide
  have hallowed : publishAllowed clearState (publishValue someOperation 1 0 1 100) 0 1 := by decide
  have hvalid : stateValid (publishValue someOperation 1 0 1 100) := by decide
  have hplan' : findRecord (s.operations someOperation) recordPlan (1 : UInt64).toNat = some [1] := hplan
  have hnoread : fault ≠ some .reading := by
    rcases hfault with rfl | rfl <;> simp
  simp only [step, updateStatePublish, if_neg hcall, if_neg hnoread, hplan', hread, if_neg hne, not_true_eq_false,
    hallowed, if_false, stateEncode, if_pos hvalid, publishIntent, hlast, List.cons_ne_nil]
  have hwithin : JournalRecovery.Within (recordIntent, stateBytes sha256 (publishValue someOperation 1 0 1 100)) :=
    ⟨(by decide : recordIntent ≠ 0), by rw [length_stateBytes]; decide⟩
  rcases hfault with rfl | rfl
  · simp [intentReplace, Fault.ofAppend, appendRecord_ready hlive hwithin, stateReplace, Store.setOperation, someValue]
  · simp [intentReplace, Fault.ofAppend, appendRecord_ready hlive hwithin, stateReplace, Store.setOperation, someValue]

theorem append_record (sha256 : Bytes → Digest) {s : Store} {id : Guid} {records : List Entry}
    (h : s.operations id = ⟨records, false⟩) {kind : UInt32} {bytes : Bytes} (hkind : kind ≠ recordIntent)
    (hwithin : JournalRecovery.Within (kind, bytes)) :
    (step sha256 s (.append id kind bytes none)).operations id = ⟨records ++ [⟨kind, bytes⟩], false⟩ ∧
      (step sha256 s (.append id kind bytes none)).file = s.file := by
  have happend := @appendRecord_ready ⟨records, false⟩ kind bytes rfl hwithin
  simp [step, happend, h, hkind, Store.setOperation]

/-- The retry finds its own intent under another record and writes it again. -/
theorem retry_repeats_intent : ¬ ∃ sha256 : Bytes → Digest,
    ∀ id, ((intents (run (step sha256) (provisioned sha256) retried) id).map generationOf).Pairwise (· < ·) := by
  rintro ⟨sha256, h⟩
  let intent : Entry := ⟨recordIntent, stateBytes sha256 someValue⟩
  let planned := step sha256 (provisioned sha256) (.append someOperation recordPlan [1] none)
  have hplanned : planned.operations someOperation = ⟨[⟨recordPlan, [1]⟩], false⟩ ∧
      planned.file = some (stateBytes sha256 clearState)  :=
    @append_record sha256 (provisioned sha256) someOperation [] rfl recordPlan [1] (by decide) ⟨by decide, by decide⟩
  let intended := step sha256 planned (.publish someOperation 1 0 1 100 1 (some (.replace false)))
  have hintended : intended.operations someOperation = ⟨[⟨recordPlan, [1]⟩, intent], false⟩ ∧
      intended.file = some (stateBytes sha256 clearState) := by
    obtain ⟨hrecords, hfile⟩ := some_intent sha256 hplanned.2 (by rw [hplanned.1]; rfl) (by rw [hplanned.1]; rfl)
      (by rw [hplanned.1]) (some (.replace false)) (.inr rfl)
    rw [hplanned.1] at hrecords
    exact ⟨hrecords, (hfile rfl).trans hplanned.2⟩
  let noted := step sha256 intended (.append someOperation 7 [] none)
  have hnoted : noted.operations someOperation = ⟨[⟨recordPlan, [1]⟩, intent, ⟨7, []⟩], false⟩ ∧
      noted.file = some (stateBytes sha256 clearState) := by
    obtain ⟨hrecords, hfile⟩ := append_record sha256 hintended.1 (by decide : (7 : UInt32) ≠ recordIntent)
      (⟨by decide, by decide⟩ : JournalRecovery.Within (7, []))
    exact ⟨hrecords, hfile.trans hintended.2⟩
  obtain ⟨hrepeated, _⟩ := some_intent sha256 hnoted.2 (by rw [hnoted.1]; rfl) (by rw [hnoted.1]; rfl)
    (by rw [hnoted.1]) none (.inl rfl)
  rw [hnoted.1] at hrepeated
  have hordered := h someOperation
  have hrun : (run (step sha256) (provisioned sha256) retried).operations someOperation =
      ⟨[⟨recordPlan, [1]⟩, intent, ⟨7, []⟩, intent], false⟩ := hrepeated
  simp [intents, hrun, intent, recordPlan, recordIntent] at hordered

end Chain

end EtranProcessing.Deployment.MarkerChain
