import Mathlib

namespace EtranProcessing.Library.Preference

variable {α κ : Type} [LinearOrder κ]

def pick (prefer : α → α → Bool) : Option α → List α → Option α
  | best, [] => best
  | none, x :: xs => pick prefer (some x) xs
  | some b, x :: xs => pick prefer (if prefer x b then some x else some b) xs

def Ranks (prefer : α → α → Bool) (key : α → κ) : Prop := ∀ a b, prefer a b = true ↔ key b < key a

variable {prefer : α → α → Bool} {key : α → κ}

example (b : Option α) : pick prefer b [] = b := by simp only [pick]

theorem Ranks.asymm (h : Ranks prefer key) {a b : α} (hab : prefer a b = true) : prefer b a = false := by
  rw [Bool.eq_false_iff]
  exact fun hba => lt_asymm ((h a b).mp hab) ((h b a).mp hba)

theorem Ranks.trans (h : Ranks prefer key) {a b c : α} (hab : prefer a b = true) (hbc : prefer b c = true) :
    prefer a c = true :=
  (h a c).mpr (lt_trans ((h b c).mp hbc) ((h a b).mp hab))

theorem pick_some (h : Ranks prefer key) (xs : List α) : ∀ b r, pick prefer (some b) xs = some r →
    (r = b ∧ ∀ x ∈ xs, key x ≤ key r) ∨
    (key b < key r ∧ ∃ before after, xs = before ++ r :: after ∧ (∀ x ∈ before, key x < key r) ∧
      ∀ x ∈ after, key x ≤ key r) := by
  induction xs with
  | nil =>
      intro b r hr
      exact .inl ⟨(Option.some.inj hr).symm, by simp⟩
  | cons x xs ih =>
      intro b r hr
      rw [pick] at hr
      split at hr
      next hx =>
        have hbx := (h x b).mp hx
        rcases ih x r hr with ⟨rfl, hle⟩ | ⟨hlt, before, after, rfl, hbefore, hafter⟩
        · exact .inr ⟨hbx, [], xs, rfl, by simp, hle⟩
        · refine .inr ⟨lt_trans hbx hlt, x :: before, after, rfl, ?_, hafter⟩
          intro y hy
          rcases List.mem_cons.mp hy with rfl | hy
          · exact hlt
          · exact hbefore y hy
      next hx =>
        have hxb : key x ≤ key b := not_lt.mp fun hlt => hx ((h x b).mpr hlt)
        rcases ih b r hr with ⟨rfl, hle⟩ | ⟨hlt, before, after, rfl, hbefore, hafter⟩
        · refine .inl ⟨rfl, ?_⟩
          intro y hy
          rcases List.mem_cons.mp hy with rfl | hy
          · exact hxb
          · exact hle y hy
        · refine .inr ⟨hlt, x :: before, after, rfl, ?_, hafter⟩
          intro y hy
          rcases List.mem_cons.mp hy with rfl | hy
          · exact lt_of_le_of_lt hxb hlt
          · exact hbefore y hy

theorem pick_first (h : Ranks prefer key) {xs : List α} {r : α} (hr : pick prefer none xs = some r) :
    ∃ before after, xs = before ++ r :: after ∧ (∀ x ∈ before, key x < key r) ∧ ∀ x ∈ after, key x ≤ key r := by
  cases xs with
  | nil => cases hr
  | cons x xs =>
      rcases pick_some h xs x r hr with ⟨rfl, hle⟩ | ⟨hlt, before, after, rfl, hbefore, hafter⟩
      · exact ⟨[], xs, rfl, by simp, hle⟩
      · refine ⟨x :: before, after, rfl, ?_, hafter⟩
        intro y hy
        rcases List.mem_cons.mp hy with rfl | hy
        · exact hlt
        · exact hbefore y hy

theorem pick_isSome (prefer : α → α → Bool) (xs : List α) : ∀ b, ∃ r, pick prefer (some b) xs = some r := by
  induction xs with
  | nil => exact fun b => ⟨b, rfl⟩
  | cons x xs ih =>
      intro b
      rw [pick]
      split
      · exact ih x
      · exact ih b

theorem pick_eq_none {xs : List α} : pick prefer none xs = none ↔ xs = [] := by
  cases xs with
  | nil => simp [pick]
  | cons x xs =>
      obtain ⟨r, hr⟩ := pick_isSome prefer xs x
      simp [pick, hr]

theorem pick_best (h : Ranks prefer key) {xs : List α} {r : α} (hr : pick prefer none xs = some r) :
    r ∈ xs ∧ ∀ x ∈ xs, key x ≤ key r := by
  obtain ⟨before, after, rfl, hbefore, hafter⟩ := pick_first h hr
  refine ⟨by simp, ?_⟩
  intro x hx
  rcases List.mem_append.mp hx with hx | hx
  · exact le_of_lt (hbefore x hx)
  · rcases List.mem_cons.mp hx with rfl | hx
    · exact le_refl _
    · exact hafter x hx

theorem pick_perm (h : Ranks prefer key) {xs ys : List α} (hperm : xs.Perm ys)
    (hkey : ∀ x ∈ xs, ∀ y ∈ xs, key x = key y → x = y) : pick prefer none xs = pick prefer none ys := by
  cases hx : pick prefer none xs with
  | none =>
      obtain rfl := pick_eq_none.mp hx
      obtain rfl := List.nil_perm.mp hperm
      rfl
  | some r =>
      cases hy : pick prefer none ys with
      | none =>
          obtain rfl := pick_eq_none.mp hy
          obtain rfl := List.perm_nil.mp hperm
          cases hx
      | some s =>
          obtain ⟨hr, hrmax⟩ := pick_best h hx
          obtain ⟨hs, hsmax⟩ := pick_best h hy
          have heq : key r = key s :=
            le_antisymm (hsmax r (hperm.mem_iff.mp hr)) (hrmax s (hperm.mem_iff.mpr hs))
          rw [hkey r hr s (hperm.mem_iff.mpr hs) heq]

/-- Nothing in the slots is better than `r`, and what is as good stands behind a copy of it. -/
def Leads (key : α → κ) (r : α) : Prop → List (Option α) → Prop
  | _, [] => True
  | seen, none :: xs => Leads key r seen xs
  | seen, some x :: xs => (x = r ∨ key x < key r ∨ key x = key r ∧ seen) ∧ Leads key r (seen ∨ x = r) xs

theorem Leads.mono {r : α} {seen seen' : Prop} (hs : seen → seen') : ∀ {xs : List (Option α)}, Leads key r seen xs →
    Leads key r seen' xs := by
  intro xs
  induction xs generalizing seen seen' with
  | nil => exact fun _ => trivial
  | cons o xs ih =>
      cases o with
      | none => exact ih hs
      | some x =>
          rintro ⟨hx, hxs⟩
          exact ⟨by tauto, ih (by tauto) hxs⟩

def overwrite (r : α) : List Bool → List (Option α) → List (Option α)
  | true :: mask, _ :: xs => some r :: overwrite r mask xs
  | false :: mask, o :: xs => o :: overwrite r mask xs
  | _, xs => xs

theorem Leads.overwrite {r : α} (mask : List Bool) : ∀ {p : Prop} {xs : List (Option α)}, Leads key r p xs →
    Leads key r p (overwrite r mask xs) := by
  induction mask with
  | nil =>
      intro seen xs h
      cases xs <;> exact h
  | cons b mask ih =>
      intro seen xs h
      cases xs with
      | nil => cases b <;> exact h
      | cons o xs =>
          cases b with
          | true =>
              refine ⟨.inl rfl, ih ?_⟩
              cases o with
              | none => exact Leads.mono (by tauto) h
              | some x => exact Leads.mono (by tauto) h.2
          | false =>
              cases o with
              | none =>
                  change Leads key r seen (Preference.overwrite r mask xs)
                  exact ih h
              | some x => exact ⟨h.1, ih h.2⟩

theorem Leads.le {r : α} : ∀ {p : Prop} {xs : List (Option α)}, Leads key r p xs → ∀ x, some x ∈ xs → key x ≤ key r := by
  intro p xs
  induction xs generalizing p with
  | nil => simp
  | cons o xs ih =>
      intro h x hx
      cases o with
      | none => exact ih (p := p) h x (by simpa using hx)
      | some y =>
          rcases List.mem_cons.mp hx with hxy | hx
          · obtain rfl := Option.some.inj hxy
            rcases h.1 with rfl | hlt | ⟨heq, -⟩
            · exact le_refl _
            · exact le_of_lt hlt
            · exact le_of_eq heq
          · exact ih h.2 x hx

theorem leads_of_lt {r : α} : ∀ {p : Prop} {xs : List (Option α)}, (∀ x, some x ∈ xs → key x < key r) →
    Leads key r p xs := by
  intro p xs
  induction xs generalizing p with
  | nil => exact fun _ => trivial
  | cons o xs ih =>
      intro h
      have hrest : ∀ x, some x ∈ xs → key x < key r := fun x hx => h x (List.mem_cons_of_mem o hx)
      cases o with
      | none => exact ih (p := p) hrest
      | some x => exact ⟨.inr (.inl (h x List.mem_cons_self)), ih hrest⟩

theorem leads_seen {r : α} : ∀ {p : Prop} {xs : List (Option α)}, p → (∀ x, some x ∈ xs → key x ≤ key r) →
    Leads key r p xs := by
  intro p xs
  induction xs generalizing p with
  | nil => exact fun _ _ => trivial
  | cons o xs ih =>
      intro hs h
      have hrest : ∀ x, some x ∈ xs → key x ≤ key r := fun x hx => h x (List.mem_cons_of_mem o hx)
      cases o with
      | none => exact ih (p := p) hs hrest
      | some x =>
          refine ⟨?_, ih (.inl hs) hrest⟩
          rcases lt_or_eq_of_le (h x List.mem_cons_self) with hlt | heq
          · exact .inr (.inl hlt)
          · exact .inr (.inr ⟨heq, hs⟩)

theorem leads_pick (h : Ranks prefer key) {xs : List (Option α)} {r : α} (hr : pick prefer none xs.reduceOption = some r) :
    Leads key r False xs := by
  obtain ⟨before, after, hxs, hbefore, hafter⟩ := pick_first h hr
  clear hr
  induction xs generalizing before with
  | nil => simp at hxs
  | cons o xs ih =>
      cases o with
      | none => exact ih before (by simpa using hxs) hbefore
      | some x =>
          rw [List.reduceOption_cons_of_some] at hxs
          cases before with
          | nil =>
              obtain ⟨rfl, rfl⟩ := List.cons.inj hxs
              exact ⟨.inl rfl, leads_seen (.inr rfl) fun y hy => hafter y (List.reduceOption_mem_iff.mpr hy)⟩
          | cons y before =>
              obtain ⟨rfl, hrest⟩ := List.cons.inj hxs
              refine ⟨.inr (.inl (hbefore x List.mem_cons_self)), Leads.mono False.elim ?_⟩
              exact ih before hrest fun z hz => hbefore z (List.mem_cons_of_mem x hz)

theorem Leads.before {r s : α} {p : Prop} {xs : List (Option α)} (h : Leads key r p xs) (hkey : key s = key r)
    {before after : List α} (hxs : xs.reduceOption = before ++ s :: after) : s = r ∨ r ∈ before ∨ p := by
  induction xs generalizing p before with
  | nil => simp at hxs
  | cons o xs ih =>
      cases o with
      | none => exact ih (p := p) h (by simpa using hxs)
      | some x =>
          rw [List.reduceOption_cons_of_some] at hxs
          cases before with
          | nil =>
              obtain ⟨rfl, -⟩ := List.cons.inj hxs
              rcases h.1 with heq | hlt | ⟨-, hs⟩
              · exact .inl heq
              · exact absurd hkey (ne_of_lt hlt)
              · exact .inr (.inr hs)
          | cons =>
              obtain ⟨rfl, hrest⟩ := List.cons.inj hxs
              rcases ih h.2 hrest with heq | hmem | hs | rfl
              · exact .inl heq
              · exact .inr (.inl (List.mem_cons_of_mem x hmem))
              · exact .inr (.inr hs)
              · exact .inr (.inl List.mem_cons_self)

theorem pick_leads (h : Ranks prefer key) {xs : List (Option α)} {r : α} (hlead : Leads key r False xs) (hr : some r ∈ xs) :
    pick prefer none xs.reduceOption = some r := by
  have hmem : r ∈ xs.reduceOption := List.reduceOption_mem_iff.mpr hr
  cases hp : pick prefer none xs.reduceOption with
  | none =>
      rw [pick_eq_none.mp hp] at hmem
      cases hmem
  | some s =>
      obtain ⟨hs, hmax⟩ := pick_best h hp
      obtain ⟨before, after, hxs, hbefore, -⟩ := pick_first h hp
      have hkey : key s = key r :=
        le_antisymm (hlead.le s (List.reduceOption_mem_iff.mp hs)) (hmax r hmem)
      rcases hlead.before hkey hxs with rfl | hin | hno
      · rfl
      · exact absurd hkey.symm (ne_of_lt (hbefore r hin))
      · exact hno.elim

end EtranProcessing.Library.Preference
