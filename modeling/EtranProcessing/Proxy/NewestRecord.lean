import EtranProcessing.Proxy.PolicyStore

namespace EtranProcessing.Proxy.NewestRecord

open Library.Preference PolicyRecords StoredRecord PolicyStore

/-- What happens to the record of one SN between two looks at the copies. -/
inductive Event
  | accept (allowed : Bool) (facts : Facts) (now : UInt64)
  | persist (f : Faults)
  | restart (now : UInt64)

/-- The record in memory, the copies, and the record of the last `persist` that wrote one of them. -/
structure Store where
  record : PolicyRecord
  copies : Copies
  last : Option PolicyRecord

def start (sn : Sn) (c : Copies) (now : UInt64) : Store := ⟨restore Access.all c sn now, c, none⟩

def step (sn : Sn) (s : Store) : Event → Store
  | .accept allowed facts now => { s with record := accepted s.record allowed facts now }
  | .persist f =>
      { s with copies := (persist s.record f s.copies).1, last := if f.wrote then some s.record else s.last }
  | .restart now => { s with record := restore Access.all s.copies sn now }

def run (sn : Sn) (s : Store) (events : List Event) : Store := events.foldl (step sn) s

def lastSecond : UInt64 := 32503680000 - graceSeconds

def Event.InRange (s : Store) : Event → Prop
  | .accept _ _ now => now ≠ 0 ∧ now ≤ lastSecond ∧ s.record.generation < 0xFFFFFFFFFFFFFFFE
  | .persist _ => True
  | .restart now => now ≤ lastSecond

instance (s : Store) : (e : Event) → Decidable (e.InRange s)
  | .accept _ _ now => inferInstanceAs (Decidable (now ≠ 0 ∧ now ≤ lastSecond ∧ s.record.generation < 0xFFFFFFFFFFFFFFFE))
  | .persist _ => inferInstanceAs (Decidable True)
  | .restart now => inferInstanceAs (Decidable (now ≤ lastSecond))

def InRange (sn : Sn) : Store → List Event → Prop
  | _, [] => True
  | s, e :: events => e.InRange s ∧ InRange sn (step sn s e) events

/-! ### Records that may be stored -/

variable {sn : Sn} {r : PolicyRecord} {now : UInt64} {a b : PolicyRecord} {s : Store}

theorem parse_admissible {text : List Char} (h : policyRecordParse text sn = some r) :
    r.sn = sn ∧ admissible r = true := by
  simp only [policyRecordParse, Option.bind_eq_bind, Option.bind_eq_some_iff] at h
  obtain ⟨j, -, version, -, h⟩ := h
  split at h
  next => cases h
  next =>
    obtain ⟨found, -, h⟩ := Option.bind_eq_some_iff.mp h
    split at h
    next => cases h
    next =>
      simp only [Option.bind_eq_some_iff] at h
      obtain ⟨_, -, _, -, _, -, _, -, _, -, _, -, h⟩ := h
      split at h
      next hr => exact Option.some.inj h ▸ ⟨rfl, hr⟩
      next => cases h

theorem readCopy_admissible {o : Bool} {load : List Char → Option (List Char)} {copy : Option (List Char)}
    (h : readCopy o load copy sn = some r) : r.sn = sn ∧ admissible r = true := by
  unfold readCopy at h
  split at h
  next =>
    obtain ⟨text, -, hr⟩ := Option.bind_eq_some_iff.mp h
    exact parse_admissible hr
  next => cases h

theorem candidate_admissible {a : Access} {c : Copies} (h : some r ∈ candidates a c sn) :
    r.sn = sn ∧ admissible r = true := by
  simp only [candidates, List.mem_cons, List.not_mem_nil, or_false] at h
  rcases h with h | h | h <;> exact readCopy_admissible h.symm

theorem second_sum (h : now ≤ lastSecond) :
    (now + graceSeconds).toNat = now.toNat + 259200 ∧ now.toNat ≤ 32503420800 := by
  rw [UInt64.le_iff_toNat_le] at h
  change now.toNat ≤ 32503420800 at h
  refine ⟨?_, h⟩
  rw [UInt64.toNat_add]
  change (now.toNat + 259200) % 2 ^ 64 = _
  omega

theorem second_le (h : now ≤ lastSecond) : now + graceSeconds ≤ 32503680000 := by
  obtain ⟨hsum, hnow⟩ := second_sum h
  rw [UInt64.le_iff_toNat_le, hsum]
  change _ ≤ 32503680000
  omega

theorem fresh_admissible (h : now ≤ lastSecond) : admissible (fresh sn now) = true := by
  have hne : now + graceSeconds ≠ 0 := by
    intro h0
    have hsum := (second_sum h).1
    rw [h0] at hsum
    change 0 = _ at hsum
    omega
  simp [admissible, fresh, second_le h, hne]

theorem generation_succ {g : UInt64} (h : g < 0xFFFFFFFFFFFFFFFE) :
    (g + 1).toNat = g.toNat + 1 ∧ g + 1 ≠ 0 ∧ g + 1 ≠ 0xFFFFFFFFFFFFFFFF := by
  rw [UInt64.lt_iff_toNat_lt] at h
  change g.toNat < 0xFFFFFFFFFFFFFFFE at h
  have hsucc : (g + 1).toNat = g.toNat + 1 := by
    rw [UInt64.toNat_add]
    change (g.toNat + 1) % 2 ^ 64 = _
    omega
  refine ⟨hsucc, fun e => ?_, fun e => ?_⟩
  · rw [e] at hsucc
    change 0 = _ at hsucc
    omega
  · rw [e] at hsucc
    change 0xFFFFFFFFFFFFFFFF = _ at hsucc
    omega

theorem accepted_admissible {allowed : Bool} {facts : Facts} (h0 : now ≠ 0)
    (h : now ≤ lastSecond) (hg : r.generation < 0xFFFFFFFFFFFFFFFE) :
    admissible (accepted r allowed facts now) = true := by
  obtain ⟨-, hzero, hfull⟩ := generation_succ hg
  have hroom : now ≤ 0xFFFFFFFFFFFFFFFF - graceSeconds := UInt64.le_trans h (by decide)
  simp [admissible, accepted, hzero, hfull, h0, hroom, second_le h]

theorem accepted_rank {allowed : Bool} {facts : Facts}
    (hg : r.generation < 0xFFFFFFFFFFFFFFFE) : rank r < rank (accepted r allowed facts now) := by
  obtain ⟨hsucc, -, -⟩ := generation_succ hg
  rw [rank, rank, Prod.Lex.toLex_lt_toLex]
  left
  change r.generation.toNat < (r.generation + 1).toNat
  omega

/-! ### What holds of the copies -/

/-- Everything that is stored is behind the record in memory, and the last that was stored is what one finds. -/
structure Kept (sn : Sn) (s : Store) : Prop where
  sn_eq : s.record.sn = sn
  admissible : admissible s.record = true
  leads : Leads rank s.record False (candidates Access.all s.copies sn)
  last : ∀ w, s.last = some w → pick policyRecordPrefer none (candidates Access.all s.copies sn).reduceOption = some w

theorem restored_kept {sn : Sn} {c : Copies} {now : UInt64} (h : now ≤ lastSecond) :
    (restore Access.all c sn now).sn = sn ∧ admissible (restore Access.all c sn now) = true ∧
      Leads rank (restore Access.all c sn now) False (candidates Access.all c sn) := by
  unfold restore
  cases hp : pick policyRecordPrefer none (candidates Access.all c sn).reduceOption with
  | none =>
      refine ⟨rfl, fresh_admissible h, leads_of_lt fun x hx => ?_⟩
      have hempty := pick_eq_none.mp hp
      rw [← List.reduceOption_mem_iff, hempty] at hx
      cases hx
  | some r =>
      have hmem := List.reduceOption_mem_iff.mp (pick_best ranks hp).1
      obtain ⟨hsn, hr⟩ := candidate_admissible hmem
      exact ⟨hsn, hr, leads_pick ranks hp⟩

theorem written_candidates (h : Kept sn s) (f : Faults) :
    candidates Access.all (persist s.record f s.copies).1 sn =
      overwrite s.record [f.machine != .failed, f.userWritten, f.file] (candidates Access.all s.copies sn) := by
  obtain ⟨hpos, hlength⟩ := recordText_length s.record
  have hparse : policyRecordParse (recordText s.record) sn = some s.record := by
    rw [← h.sn_eq, parse_recordText, if_pos h.admissible]
  have hqueried : queried (recordText s.record) = some (recordText s.record) := if_pos (by omega)
  have hloaded : loadFile (recordText s.record) = some (recordText s.record) := if_pos (by omega)
  have hmachine : readCopy true queried (some (recordText s.record)) sn = some s.record := by
    simp [readCopy, hqueried, hparse]
  have hfile : readCopy true loadFile (some (recordText s.record)) sn = some s.record := by
    simp [readCopy, hloaded, hparse]
  have hbool : (f.machine ≠ .failed) = ((f.machine != .failed) = true) := by simp
  simp only [candidates, persist, Access.all, hbool]
  generalize (f.machine != .failed) = machine
  generalize f.userWritten = user
  generalize f.file = file
  cases machine <;> cases user <;> cases file <;> simp [overwrite, hmachine, hfile]

theorem mem_overwrite {f : Faults} (h : f.wrote = true) :
    some s.record ∈ overwrite s.record [f.machine != .failed, f.userWritten, f.file] (candidates Access.all s.copies sn) := by
  simp only [Faults.wrote, Bool.or_eq_true] at h
  rcases h with (h | h) | h
  · simp [candidates, overwrite, h]
  · cases hm : (f.machine != .failed) <;> simp [candidates, overwrite, h]
  · cases hm : (f.machine != .failed) <;> cases hu : f.userWritten <;> simp [candidates, overwrite, h]

theorem overwrite_nothing {f : Faults} (h : ¬ f.wrote = true) :
    overwrite s.record [f.machine != .failed, f.userWritten, f.file] (candidates Access.all s.copies sn) =
      candidates Access.all s.copies sn := by
  simp only [Faults.wrote, Bool.or_eq_true, not_or, Bool.not_eq_true] at h
  simp [candidates, overwrite, h.1.1, h.1.2, h.2]

theorem step_kept {e : Event} (h : Kept sn s) (he : e.InRange s) : Kept sn (step sn s e) := by
  cases e with
  | accept =>
      obtain ⟨h0, hnow, hg⟩ := he
      refine ⟨h.sn_eq, accepted_admissible h0 hnow hg, leads_of_lt fun x hx => ?_, h.last⟩
      exact lt_of_le_of_lt (h.leads.le x hx) (accepted_rank hg)
  | persist f =>
      have hwritten := written_candidates h f
      refine ⟨h.sn_eq, h.admissible, ?_, ?_⟩
      · change Leads rank s.record False (candidates Access.all (persist s.record f s.copies).1 sn)
        rw [hwritten]
        exact h.leads.overwrite _
      · intro w hw
        change pick policyRecordPrefer none (candidates Access.all (persist s.record f s.copies).1 sn).reduceOption = some w
        change (if f.wrote then some s.record else s.last) = some w at hw
        rw [hwritten]
        split at hw
        next hf =>
          obtain rfl := Option.some.inj hw
          exact pick_leads ranks (h.leads.overwrite _) (mem_overwrite hf)
        next hf =>
          rw [overwrite_nothing hf]
          exact h.last w hw
  | restart now =>
      obtain ⟨hsn, hr, hleads⟩ := @restored_kept sn s.copies _ he
      exact ⟨hsn, hr, hleads, h.last⟩

theorem run_kept {sn : Sn} (events : List Event) : ∀ {s : Store}, Kept sn s → InRange sn s events →
    Kept sn (run sn s events) := by
  induction events with
  | nil => exact fun h _ => h
  | cons e events ih =>
      intro s h hr
      exact ih (step_kept h hr.1) hr.2

theorem start_kept {c : Copies} (h : now ≤ lastSecond) : Kept sn (start sn c now) := by
  obtain ⟨hsn, hr, hleads⟩ := @restored_kept sn c _ h
  exact ⟨hsn, hr, hleads, fun w hw => by cases hw⟩

theorem rank_generation (h : rank a < rank b) : a.generation ≤ b.generation := by
  rw [rank, rank, Prod.Lex.toLex_lt_toLex] at h
  rw [UInt64.le_iff_toNat_le]
  rcases h with h | ⟨h, -⟩
  · exact le_of_lt h
  · exact le_of_eq h

theorem generation_rank (h : a.generation < b.generation) : rank a < rank b := by
  rw [rank, rank, Prod.Lex.toLex_lt_toLex]
  exact .inl (UInt64.lt_iff_toNat_lt.mp h)

theorem rank_eq_generation (h : rank a = rank b) : a.generation = b.generation :=
  UInt64.toNat_inj.mp (Prod.mk.inj (toLex_inj.mp h)).1

/-- Whatever writes fail, the record of the last `persist` that wrote a copy is the one that is found. -/
theorem newest_record (sn : Sn) (c : Copies) (now : UInt64) (events : List Event) (hnow : now ≤ lastSecond)
    (hrange : InRange sn (start sn c now) events) :
    (∀ w, (run sn (start sn c now) events).last = some w →
      ∀ later, restore Access.all (run sn (start sn c now) events).copies sn later = w) ∧
    policyRecordParse (recordText (run sn (start sn c now) events).record) sn =
      some (run sn (start sn c now) events).record ∧
    (∀ a b, policyRecordPrefer a b = true → policyRecordPrefer b a = false ∧ b.generation ≤ a.generation) ∧
    (∀ a b, b.generation < a.generation → policyRecordPrefer a b = true) ∧
    (∀ a b d, policyRecordPrefer a b = true → policyRecordPrefer b d = true → policyRecordPrefer a d = true) ∧
    ∀ xs ys : List PolicyRecord, xs.Perm ys → (∀ x ∈ xs, ∀ y ∈ xs, x.generation = y.generation → x = y) →
      pick policyRecordPrefer none xs = pick policyRecordPrefer none ys := by
  have h := run_kept events (start_kept (c := c) hnow) hrange
  refine ⟨fun w hw later => ?_, ?_, ?_, ?_, ?_, ?_⟩
  · rw [restore, h.last w hw]
    rfl
  · have hparse := parse_recordText (run sn (start sn c now) events).record
    rwa [if_pos h.admissible, h.sn_eq] at hparse
  · exact fun a b hab => ⟨ranks.asymm hab, rank_generation ((ranks a b).mp hab)⟩
  · exact fun a b hab => (ranks a b).mpr (generation_rank hab)
  · exact fun a b d => ranks.trans
  · intro xs ys hperm hsame
    exact pick_perm ranks hperm fun x hx y hy hxy => hsame x hx y hy (rank_eq_generation hxy)

def device : Sn := ⟨"A1\"".toList, by decide⟩

def nothingStored : Copies := ⟨none, none, none⟩

/-- An answer, a write that only reaches the file, a restart. -/
theorem newest_record_device :
    restore Access.all (run device (start device nothingStored 1700000000)
      [.accept false Facts.none 1700000600, .persist ⟨.failed, .unflushed, true⟩, .accept true Facts.none 1700001200,
        .persist ⟨.failed, .failed, true⟩, .restart 1700001300]).copies device 1700001300 =
      accepted (accepted (fresh device 1700000000) false Facts.none 1700000600) true Facts.none 1700001200 :=
  (newest_record device nothingStored 1700000000
    [.accept false Facts.none 1700000600, .persist ⟨.failed, .unflushed, true⟩, .accept true Facts.none 1700001200,
      .persist ⟨.failed, .failed, true⟩, .restart 1700001300] (by decide)
    ⟨by decide +kernel, trivial, by decide +kernel, trivial, by decide +kernel, trivial⟩).1 _ (by decide +kernel) _

/-- With the clock past the year 3000 less 72 hours everything is written and nothing is found. -/
theorem distant_record_lost :
    ¬ ∀ events w, (run device (start device nothingStored 1700000000) events).last = some w →
      restore Access.all (run device (start device nothingStored 1700000000) events).copies device 1700000000 = w := by
  intro h
  have hlost := h [.accept true Facts.none 32503420801, .persist ⟨.flushed, .failed, true⟩]
    (accepted (fresh device 1700000000) true Facts.none 32503420801) (by decide +kernel)
  exact absurd hlost (by decide +kernel)

end EtranProcessing.Proxy.NewestRecord
