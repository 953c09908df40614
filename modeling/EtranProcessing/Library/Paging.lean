import Mathlib

namespace EtranProcessing.Library.Paging

section Pages

variable {α : Type} (good : α → Bool) (limit : Nat)

/-- A reader takes a page from the front of a list and its mark moves to the last good element of it:
the bad ones at the end of the page are read again. -/
def next (rest : List α) : List α := (rest.take limit).rtakeWhile (fun a => !good a) ++ rest.drop limit

def rejected : Nat → List α → List α
  | 0, _ => []
  | n + 1, rest => (rest.take limit).filter (fun a => !good a) ++ rejected n (next good limit rest)

def PagesEnd (rest : List α) : Prop :=
  ∀ i a, rest[i]? = some a → (i + 1) % limit = 0 ∨ i + 1 = rest.length → good a = true

variable {good limit}

@[simp] theorem next_nil : next good limit [] = [] := by simp [next]

theorem next_iterate_nil (n : Nat) : (next good limit)^[n] [] = [] := by
  induction n with
  | zero => rfl
  | succ n ih => rw [Function.iterate_succ_apply, next_nil, ih]

theorem moved_append_next (rest : List α) :
    (rest.take limit).rdropWhile (fun a => !good a) ++ next good limit rest = rest := by
  rw [next, ← List.append_assoc, List.rdropWhile_append_rtakeWhile, List.take_append_drop]

theorem getLast?_filter (page : List α) : (page.filter good).getLast? = (page.rdropWhile fun a => !good a).getLast? := by
  induction page using List.reverseRecOn with
  | nil => rfl
  | append_singleton page last ih =>
      cases hlast : good last with
      | true => simp [hlast]
      | false => simp [hlast, ih]

theorem next_sublist (rest : List α) : (next good limit rest).Sublist rest := by
  have h := List.sublist_append_right ((rest.take limit).rdropWhile fun a => !good a) (next good limit rest)
  rwa [moved_append_next] at h

variable {rest : List α}

theorem next_of_good_last (h : ∀ a, (rest.take limit).getLast? = some a → good a = true) :
    next good limit rest = rest.drop limit := by
  have hnil : (rest.take limit).rtakeWhile (fun a => !good a) = [] := by
    rw [List.rtakeWhile_eq_nil_iff]
    intro hne
    simp [h _ (List.getLast?_eq_getLast_of_ne_nil hne)]
  rw [next, hnil, List.nil_append]

theorem mem_next_of_bad_last {a : α} (hlast : (rest.take limit).getLast? = some a)
    (ha : good a = false) : a ∈ next good limit rest := by
  obtain ⟨init, hpage⟩ := List.getLast?_eq_some_iff.mp hlast
  rw [next, hpage]
  simp [ha]

theorem getElem?_last_page (hlimit : 0 < limit) (hne : rest ≠ []) :
    (rest.take limit).getLast? = rest[min limit rest.length - 1]? := by
  have hlength := List.length_pos_of_ne_nil hne
  rw [List.getLast?_eq_getElem?, List.length_take, List.getElem?_take, if_pos (by omega)]

theorem pagesEnd_iff (hlimit : 0 < limit) (hne : rest ≠ []) :
    PagesEnd good limit rest ↔
      (∀ a, (rest.take limit).getLast? = some a → good a = true) ∧ PagesEnd good limit (rest.drop limit) := by
  have hlength := List.length_pos_of_ne_nil hne
  rw [getElem?_last_page hlimit hne]
  constructor
  · intro h
    refine ⟨?_, ?_⟩
    · intro a ha
      apply h _ a ha
      rcases Nat.le_total limit rest.length with hle | hle
      · exact .inl (by rw [Nat.min_eq_left hle, Nat.sub_add_cancel hlimit, Nat.mod_self])
      · exact .inr (by omega)
    · intro i a ha hi
      rw [List.getElem?_drop] at ha
      apply h (limit + i) a ha
      rcases hi with hi | hi
      · exact .inl (by rw [Nat.add_assoc, Nat.add_mod_left, hi])
      · rw [List.length_drop] at hi
        exact .inr (by omega)
  · rintro ⟨hlast, hrest⟩ i a ha hi
    have hbound : i < rest.length := (List.getElem?_eq_some_iff.mp ha).1
    rcases Nat.lt_or_ge i limit with hlt | hge
    · -- the position is that of the last element of the first page
      apply hlast a
      rcases hi with hi | hi
      · rcases Nat.lt_or_ge (i + 1) limit with hlt' | hge'
        · rw [Nat.mod_eq_of_lt hlt'] at hi
          omega
        · rw [show min limit rest.length - 1 = i by omega]
          exact ha
      · rw [show min limit rest.length - 1 = i by omega]
        exact ha
    · apply hrest (i - limit) a
      · rw [List.getElem?_drop, Nat.add_sub_cancel' hge]
        exact ha
      · rw [List.length_drop]
        rcases hi with hi | hi
        · rw [show i + 1 = limit + (i - limit + 1) by omega, Nat.add_mod_left] at hi
          exact .inl hi
        · exact .inr (by omega)

theorem pagesEnd_next (hlimit : 0 < limit) (h : PagesEnd good limit rest) :
    PagesEnd good limit (next good limit rest) := by
  by_cases hne : rest = []
  · rw [hne] at h ⊢
    simpa using h
  · obtain ⟨hlast, hdrop⟩ := (pagesEnd_iff hlimit hne).mp h
    rw [next_of_good_last hlast]
    exact hdrop

theorem next_of_short (hlimit : 0 < limit) (hshort : rest.length ≤ limit)
    (h : PagesEnd good limit rest) : next good limit rest = [] := by
  by_cases hne : rest = []
  · rw [hne, next_nil]
  · rw [next_of_good_last ((pagesEnd_iff hlimit hne).mp h).1]
    exact List.drop_of_length_le hshort

theorem exists_end (hlimit : 0 < limit) (rest : List α) (h : PagesEnd good limit rest) :
    ∃ n, (next good limit)^[n] rest = [] := by
  induction hlength : rest.length using Nat.strongRecOn generalizing rest with
  | ind length ih =>
      by_cases hne : rest = []
      · exact ⟨0, hne⟩
      · obtain ⟨hlast, hdrop⟩ := (pagesEnd_iff hlimit hne).mp h
        have hpos := List.length_pos_of_ne_nil hne
        obtain ⟨n, hn⟩ := ih (rest.drop limit).length (by rw [List.length_drop]; omega) _ hdrop rfl
        refine ⟨n + 1, ?_⟩
        rw [Function.iterate_succ_apply, next_of_good_last hlast, hn]

theorem end_mono {n m : Nat} (hn : (next good limit)^[n] rest = []) (hle : n ≤ m) :
    (next good limit)^[m] rest = [] := by
  rw [← Nat.sub_add_cancel hle, Function.iterate_add_apply, hn, next_iterate_nil]

theorem mem_rejected {a : α} (n : Nat) (rest : List α) (hend : (next good limit)^[n] rest = []) (ha : a ∈ rest)
    (hbad : good a = false) : a ∈ rejected good limit n rest := by
  induction n generalizing rest with
  | zero =>
      rw [Function.iterate_zero_apply] at hend
      simp [hend] at ha
  | succ n ih =>
      rw [← List.take_append_drop limit rest] at ha
      rw [rejected, List.mem_append]
      rcases List.mem_append.mp ha with hpage | hlater
      · exact .inl (by simp [hpage, hbad])
      · exact .inr (ih _ hend (List.mem_append_right _ hlater))

section Counting

variable {β : Type} [BEq β] [LawfulBEq β] {key : α → β}

theorem countP_key_eq_zero {a : α} {others : List α} (h : ∀ b ∈ others, key b ≠ key a) :
    (others.filter fun b => !good b).countP (fun b => key b == key a) = 0 := by
  rw [List.countP_eq_zero]
  intro b hb
  simpa using h b (List.mem_of_mem_filter hb)

theorem countP_key_eq_one {a : α} {page : List α} (hdistinct : page.Pairwise fun b c => key b ≠ key c) (ha : a ∈ page)
    (hbad : good a = false) : (page.filter fun b => !good b).countP (fun b => key b == key a) = 1 := by
  obtain ⟨before, after, rfl⟩ := List.append_of_mem ha
  rw [List.pairwise_append, List.pairwise_cons] at hdistinct
  obtain ⟨_, ⟨hafter, _⟩, hbefore⟩ := hdistinct
  rw [List.filter_append, List.filter_cons_of_pos (by simp [hbad]), List.countP_append, List.countP_cons,
    countP_key_eq_zero fun b hb => hbefore b hb a List.mem_cons_self,
    countP_key_eq_zero fun b hb => (hafter b hb).symm]
  simp

theorem rejected_mem {a : α} (n : Nat) (rest : List α) (h : a ∈ rejected good limit n rest) : a ∈ rest := by
  induction n generalizing rest with
  | zero => simp [rejected] at h
  | succ n ih =>
      rcases List.mem_append.mp h with hpage | hlater
      · exact List.mem_of_mem_take (List.mem_of_mem_filter hpage)
      · exact (next_sublist rest).mem (ih _ hlater)

theorem rejected_once (hlimit : 0 < limit) {a : α} (n : Nat) (rest : List α)
    (hdistinct : rest.Pairwise fun b c => key b ≠ key c) (h : PagesEnd good limit rest)
    (hend : (next good limit)^[n] rest = []) (ha : a ∈ rest) (hbad : good a = false) :
    (rejected good limit n rest).countP (fun b => key b == key a) = 1 := by
  induction n generalizing rest with
  | zero =>
      rw [Function.iterate_zero_apply] at hend
      simp [hend] at ha
  | succ n ih =>
      have hne : rest ≠ [] := List.ne_nil_of_mem ha
      obtain ⟨hlast, hdrop⟩ := (pagesEnd_iff hlimit hne).mp h
      rw [Function.iterate_succ_apply, next_of_good_last hlast] at hend
      rw [rejected, next_of_good_last hlast, List.countP_append]
      have hsplit := hdistinct
      rw [← List.take_append_drop limit rest, List.pairwise_append] at hsplit
      obtain ⟨hpages, hlaters, hacross⟩ := hsplit
      rw [← List.take_append_drop limit rest] at ha
      rcases List.mem_append.mp ha with hpage | hlater
      · have hzero : (rejected good limit n (rest.drop limit)).countP (fun b => key b == key a) = 0 := by
          rw [List.countP_eq_zero]
          intro b hb
          simpa using (hacross a hpage b (rejected_mem n _ hb)).symm
        rw [countP_key_eq_one hpages hpage hbad, hzero]
      · rw [countP_key_eq_zero fun b hb => hacross b hb a hlater, ih _ hlaters hdrop hend hlater]

theorem pagesEnd_of_once (hlimit : 0 < limit) (n : Nat) (rest : List α)
    (hdistinct : rest.Pairwise fun b c => key b ≠ key c) (hend : (next good limit)^[n] rest = [])
    (honce : ∀ a ∈ rest, good a = false → (rejected good limit n rest).countP (fun b => key b == key a) = 1) :
    PagesEnd good limit rest := by
  induction n generalizing rest with
  | zero =>
      rw [Function.iterate_zero_apply] at hend
      intro i a ha
      simp [hend] at ha
  | succ n ih =>
      by_cases hne : rest = []
      · intro i a ha
        simp [hne] at ha
      · have hsplit := hdistinct
        rw [← List.take_append_drop limit rest, List.pairwise_append] at hsplit
        obtain ⟨hpages, hlaters, hacross⟩ := hsplit
        rw [Function.iterate_succ_apply] at hend
        have hlast : ∀ a, (rest.take limit).getLast? = some a → good a = true := by
          intro a ha
          cases hbad : good a with
          | true => rfl
          | false =>
              have hpage := List.mem_of_getLast? ha
              have hagain := mem_rejected n _ hend (mem_next_of_bad_last ha hbad) hbad
              have htwice := honce a (List.mem_of_mem_take hpage) hbad
              have hpos : 0 < (rejected good limit n (next good limit rest)).countP (fun b => key b == key a) :=
                List.countP_pos_iff.mpr ⟨a, hagain, by simp⟩
              rw [rejected, List.countP_append, countP_key_eq_one hpages hpage hbad] at htwice
              omega
        refine (pagesEnd_iff hlimit hne).mpr ⟨hlast, ?_⟩
        rw [next_of_good_last hlast] at hend
        apply ih _ hlaters hend
        intro a ha hbad
        have hcount := honce a (List.mem_of_mem_drop ha) hbad
        rwa [rejected, next_of_good_last hlast, List.countP_append,
          countP_key_eq_zero fun b hb => hacross b hb a ha, Nat.zero_add] at hcount

end Counting

end Pages

end EtranProcessing.Library.Paging
