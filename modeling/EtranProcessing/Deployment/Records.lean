import EtranProcessing.Deployment.JournalRecovery

namespace EtranProcessing.Deployment.Records

open Library.Runs Journal JournalRecovery

/-- A journal as its callers know it: the records that it replays, of which the n-th has the
sequence number n, and whether its handle has been poisoned. -/
structure RecordLog where
  records : List Entry
  poisoned : Bool

/-- An append is refused for want of room, or its write fails and poisons the handle; the
next open then finds the record or not. -/
inductive AppendFault where
  | full
  | torn (kept : Bool)
  deriving DecidableEq

def findRecord (j : RecordLog) (kind : UInt32) (sequence : Nat) : Option Bytes :=
  if j.poisoned = true ∨ sequence = 0 then none
  else
    match j.records[sequence - 1]? with
    | none => none
    | some r => if r.1 = kind then some r.2 else none

def appendRecord (j : RecordLog) (kind : UInt32) (bytes : Bytes) (fault : Option AppendFault) :
    Option Nat × RecordLog :=
  if j.poisoned = true ∨ kind = 0 ∨ maxRecord < bytes.length then (none, j)
  else
    match fault with
    | some .full => (none, j)
    | some (.torn kept) => (none, ⟨if kept = true then j.records ++ [(kind, bytes)] else j.records, true⟩)
    | none => (some (j.records.length + 1), { j with records := j.records ++ [(kind, bytes)] })

theorem appendRecord_cases (j : RecordLog) (kind : UInt32) (bytes : Bytes) (fault : Option AppendFault) :
    ((appendRecord j kind bytes fault).1 = none ∧
      ((appendRecord j kind bytes fault).2.records = j.records ∨
        (appendRecord j kind bytes fault).2.records = j.records ++ [(kind, bytes)])) ∨
    (appendRecord j kind bytes fault = (some (j.records.length + 1), ⟨j.records ++ [(kind, bytes)], false⟩) ∧
      j.poisoned = false) := by
  unfold appendRecord
  split
  next => exact .inl ⟨rfl, .inl rfl⟩
  next hready =>
    have hlive : j.poisoned = false := by
      cases hp : j.poisoned with
      | false => rfl
      | true => exact absurd (.inl hp) hready
    cases fault with
    | none => exact .inr ⟨by rw [← hlive], hlive⟩
    | some f =>
        cases f with
        | full => exact .inl ⟨rfl, .inl rfl⟩
        | torn kept =>
            cases kept with
            | false => exact .inl ⟨rfl, .inl rfl⟩
            | true => exact .inl ⟨rfl, .inr rfl⟩

theorem appendRecord_lost {j : RecordLog} {kind : UInt32} {bytes : Bytes} {fault : Option AppendFault}
    (h : (appendRecord j kind bytes fault).1 = none) :
    (appendRecord j kind bytes fault).2.records = j.records ∨
      ((appendRecord j kind bytes fault).2.records = j.records ++ [(kind, bytes)] ∧
        (appendRecord j kind bytes fault).2.poisoned = true) := by
  unfold appendRecord at h ⊢
  split
  next => exact .inl rfl
  next hready =>
    rw [if_neg hready] at h
    cases fault with
    | none => cases h
    | some f =>
        cases f with
        | full => exact .inl rfl
        | torn kept =>
            cases kept with
            | false => exact .inl rfl
            | true => exact .inr ⟨rfl, rfl⟩

theorem appendRecord_ready {j : RecordLog} {kind : UInt32} {bytes : Bytes} (hlive : j.poisoned = false)
    (hwithin : Within (kind, bytes)) :
    appendRecord j kind bytes none = (some (j.records.length + 1), { j with records := j.records ++ [(kind, bytes)] }) := by
  have hready : ¬ (j.poisoned = true ∨ kind = 0 ∨ maxRecord < bytes.length) := by
    simp [hlive, hwithin.1, hwithin.2]
  rw [appendRecord, if_neg hready]

theorem found_appended {j j' k : RecordLog} {kind : UInt32} {bytes : Bytes} {fault : Option AppendFault} {sequence : Nat}
    (h : appendRecord j kind bytes fault = (some sequence, j')) (hlive : k.poisoned = false)
    (hgrown : j'.records <+: k.records) : findRecord k kind sequence = some bytes := by
  rcases appendRecord_cases j kind bytes fault with ⟨hnone, -⟩ | ⟨hdone, -⟩
  · rw [h] at hnone
    cases hnone
  · rw [h] at hdone
    cases hdone
    obtain ⟨more, hmore⟩ := hgrown
    have hrecord : k.records[j.records.length]? = some (kind, bytes) := by
      rw [← hmore, List.append_assoc, List.getElem?_append_right (Nat.le_refl _), Nat.sub_self]
      rfl
    rw [findRecord, if_neg (by simp [hlive]), Nat.add_sub_cancel, hrecord]
    exact if_pos rfl

/-- What happens to a journal: a record is appended, or not; its process ends; another opens it. -/
inductive Turn : RecordLog → RecordLog → Prop where
  | append (j : RecordLog) (kind : UInt32) (bytes : Bytes) (fault : Option AppendFault) :
    Turn j (appendRecord j kind bytes fault).2
  | exit (j : RecordLog) : Turn j ⟨j.records, true⟩
  | reopen (j : RecordLog) : Turn j ⟨j.records, false⟩

theorem turns_grow {j k : RecordLog} (h : Relation.ReflTransGen Turn j k) : j.records <+: k.records := by
  induction h with
  | refl => exact List.prefix_rfl
  | tail _ turn ih =>
      refine ih.trans ?_
      cases turn with
      | append kind bytes fault =>
          rcases appendRecord_cases _ kind bytes fault with ⟨-, hsame | hmore⟩ | ⟨hdone, -⟩
          · exact hsame ▸ List.prefix_rfl
          · exact hmore ▸ List.prefix_append _ _
          · exact hdone ▸ List.prefix_append _ _
      | exit => exact List.prefix_rfl
      | reopen => exact List.prefix_rfl

section Refinement

variable {sha256 : Bytes → Digest} {header : Bytes} {s : Site}

def view (s : Site) : RecordLog := ⟨s.recovered, (s.handle.map Handle.poisoned).getD true⟩

theorem numbered_find (entries : List Entry) (kind : UInt32) (sequence : Nat) :
    (numbered entries).foldlM (fun found r => Except.ok (if r.kind = kind ∧ r.sequence = sequence then some r.bytes
        else found)) (none : Option Bytes) = (.ok (findRecord ⟨entries, false⟩ kind sequence) : Except Win32Error _) := by
  induction entries using List.reverseRecOn with
  | nil =>
      have hnone : findRecord ⟨[], false⟩ kind sequence = none := by simp [findRecord]
      rw [hnone]
      rfl
  | append_singleton entries e ih =>
      rw [numbered_append, List.foldlM_append, ih]
      change Except.ok _ = Except.ok _
      congr 1
      by_cases hsequence : sequence = entries.length + 1
      · subst hsequence
        by_cases hkind : e.1 = kind
        · simp [findRecord, hkind]
        · simp [findRecord, hkind]
      · have hother : ¬ (e.1 = kind ∧ entries.length + 1 = sequence) := fun h => hsequence h.2.symm
        rw [if_neg hother]
        by_cases hin : sequence - 1 < entries.length
        · simp [findRecord, List.getElem?_append_left hin]
        · by_cases hzero : sequence = 0
          · simp [findRecord, hzero]
          · have hout : (entries ++ [e]).length ≤ sequence - 1 := by
              rw [List.length_append, List.length_singleton]
              omega
            simp [findRecord, hzero, List.getElem?_eq_none_iff.mpr hout,
              List.getElem?_eq_none_iff.mpr (Nat.not_lt.mp hin)]

def storeFindRecord (sha256 : Bytes → Digest) (j : Handle) (file : Bytes) (kind : UInt32) (sequence : Nat) :
    Except Win32Error (Option Bytes) :=
  journalReplay sha256 j file
    (fun found r => .ok (if r.kind = kind ∧ r.sequence = sequence then some r.bytes else found)) none

theorem find_refines (hheader : header.length = headerSize) {s : Site} (h : Inv sha256 header s) {j : Handle}
    (hj : s.handle = some j) (hlive : j.poisoned = false) (kind : UInt32) (sequence : Nat) :
    storeFindRecord sha256 j s.file kind sequence = .ok (findRecord (view s) kind sequence) := by
  have hview : view s = ⟨s.completed, false⟩ := by
    simp [view, hj, hlive, Site.recovered, (h.live j hj hlive).interrupted]
  rw [storeFindRecord, h.replay hheader hj hlive, hview]
  exact numbered_find s.completed kind sequence

theorem append_refines (hheader : header.length = headerSize) {s : Site} (h : Inv sha256 header s) {j : Handle}
    (hj : s.handle = some j) (kind : UInt32) (bytes : Bytes) (fault : Option Nat) :
    ∃ f, appendRecord (view s) kind bytes f =
      ((journalAppend sha256 j s.file kind bytes fault).1.toOption,
        view (step sha256 header s (.append kind bytes fault))) := by
  rcases journalAppend_cases sha256 j s.file kind bytes fault with
    ⟨e, he, hrefused⟩ | ⟨hlive, hwithin, hroom, ⟨n, rfl, hfault⟩ | ⟨rfl, hdone⟩⟩
  · refine ⟨some .full, ?_⟩
    have hself : step sha256 header s (.append kind bytes fault) = s := by
      have hsite : (⟨s.file, some j, s.completed, s.interrupted⟩ : Site) = s := by rw [← hj]
      cases e with
      | writeFault => exact absurd rfl he
      | _ => simpa only [step, hj, hrefused] using hsite
    rw [hself, hrefused]
    simp [appendRecord, Except.toOption]
  · refine ⟨some (.torn (decide (entrySize (kind, bytes) ≤ n))), ?_⟩
    have hi := (h.live j hj hlive).interrupted
    have hready : ¬ ((view s).poisoned = true ∨ kind = 0 ∨ maxRecord < bytes.length) := by
      simp [view, hj, hlive, hwithin.1, hwithin.2]
    rw [appendRecord, if_neg hready]
    by_cases hwhole : frameSize + bytes.length + 4 ≤ n
    · simp [step, hj, hfault, view, Site.recovered, hi, entrySize, Except.toOption, hwhole]
    · simp [step, hj, hfault, view, Site.recovered, hi, entrySize, Except.toOption, hwhole]
  · refine ⟨none, ?_⟩
    have hl := h.live j hj hlive
    have hready : ¬ ((view s).poisoned = true ∨ kind = 0 ∨ maxRecord < bytes.length) := by
      simp [view, hj, hlive, hwithin.1, hwithin.2]
    have hsmall := h.small
    have hcount := @count_le sha256 header s.completed
    have hsequence : (j.sequence + 1) % 2 ^ 64 = s.completed.length + 1 := by
      rw [hl.sequence, cursorOf_sequence (Nat.le_of_add_left_le hsmall)]
      apply Nat.mod_eq_of_lt
      unfold journalLimit at hsmall
      omega
    have hresult : (journalAppend sha256 j s.file kind bytes none).1.toOption = some (s.completed.length + 1) := by
      rw [hdone]
      exact congrArg some hsequence
    rw [appendRecord, if_neg hready, hresult]
    simp [step, hj, hdone, view, Site.recovered, hl.interrupted, hlive]

theorem view_reopened (hheader : header.length = headerSize) (h : Inv sha256 header s) (hj : s.handle = none)
    (create : Bool) : view (step sha256 header s (.reopen create)) = ⟨(view s).records, false⟩ := by
  simp only [step, hj, h.journalOpen hheader create]
  rfl

theorem step_turns (hheader : header.length = headerSize) (h : Inv sha256 header s) (e : Event) :
    Relation.ReflTransGen Turn (view s) (view (step sha256 header s e)) := by
  cases e with
  | append kind bytes fault =>
      cases hj : s.handle with
      | none => simpa only [step, hj] using .refl
      | some j =>
          obtain ⟨f, hf⟩ := append_refines hheader h hj kind bytes fault
          have hturn := Turn.append (view s) kind bytes f
          rw [hf] at hturn
          exact .single hturn
  | exit => exact .single (.exit (view s))
  | reopen create =>
      cases hj : s.handle with
      | some j => simpa only [step, hj] using .refl
      | none =>
          rw [view_reopened hheader h hj]
          exact .single (.reopen (view s))

theorem run_turns (hheader : header.length = headerSize) (events : List Event) (s : Site)
    (h : Inv sha256 header s) :
    Relation.ReflTransGen Turn (view s) (view (run (step sha256 header) s events)) := by
  induction events generalizing s with
  | nil => exact .refl
  | cons e events ih => exact (step_turns hheader h e).trans (ih _ (step_inv hheader h e))

/-- The bytes of a journal, whatever happens to it, are a list of records that only grows. -/
theorem journal_simulates (sha256 : Bytes → Digest) (id : Guid) (events : List Event) :
    let s := run (step sha256 (journalHeader id)) (fresh (journalHeader id)) events
    Relation.ReflTransGen Turn ⟨[], true⟩ (view s) ∧
      ∀ j, s.handle = some j →
        (∀ kind bytes fault, ∃ f, appendRecord (view s) kind bytes f =
          ((journalAppend sha256 j s.file kind bytes fault).1.toOption,
            view (step sha256 (journalHeader id) s (.append kind bytes fault)))) ∧
        ∀ kind sequence, (storeFindRecord sha256 j s.file kind sequence).toOption.join =
          findRecord (view s) kind sequence := by
  intro s
  have hheader := length_journalHeader id
  have h : Inv sha256 (journalHeader id) s := run_inv hheader events _ fresh_inv
  refine ⟨run_turns hheader events _ fresh_inv, fun j hj => ⟨?_, ?_⟩⟩
  · intro kind bytes fault
    exact append_refines hheader h hj kind bytes fault
  · intro kind sequence
    cases hlive : j.poisoned with
    | false => rw [find_refines hheader h hj hlive]; rfl
    | true => simp [storeFindRecord, journalReplay, hlive, view, hj, findRecord, Except.toOption]

theorem append_durable (sha256 : Bytes → Digest) (id : Guid) (before after : List Event) (kind : UInt32)
    (bytes : Bytes) (fault : Option Nat) :
    let s := run (step sha256 (journalHeader id)) (fresh (journalHeader id)) before
    let t := run (step sha256 (journalHeader id)) s (.append kind bytes fault :: after)
    ∀ i n, s.handle = some i → (journalAppend sha256 i s.file kind bytes fault).1 = .ok n →
      ∀ j, t.handle = some j → j.poisoned = false → storeFindRecord sha256 j t.file kind n = .ok (some bytes) := by
  intro s t i n hi happend j hj hlive
  have hheader := length_journalHeader id
  have hs : Inv sha256 (journalHeader id) s := run_inv hheader before _ fresh_inv
  have hnext := append_inv hheader hs kind bytes fault
  obtain ⟨f, hf⟩ := append_refines hheader hs hi kind bytes fault
  rw [happend] at hf
  have ht : Inv sha256 (journalHeader id) t := run_inv hheader after _ hnext
  rw [find_refines hheader ht hj hlive]
  exact congrArg _ (found_appended hf (by simp [view, hj, hlive]) (turns_grow (run_turns hheader after _ hnext)))

set_option maxRecDepth 8000 in
theorem append_durable_sample :
    let t := run (step noDigest (journalHeader someGuid)) (fresh (journalHeader someGuid))
      [.reopen true, .append 1 [7] none, .append 2 [] (some 5), .exit, .reopen true]
    ∃ j, t.handle = some j ∧ storeFindRecord noDigest j t.file 1 1 = .ok (some [7]) :=
  ⟨_, rfl, append_durable noDigest someGuid [.reopen true] [.append 2 [] (some 5), .exit, .reopen true] 1 [7] none
    _ 1 rfl rfl _ rfl rfl⟩

end Refinement

end EtranProcessing.Deployment.Records
