import Mathlib

namespace EtranProcessing.Library.Calendar

/-- A date of the proleptic Gregorian calendar. -/
structure Date where
  year : Nat
  month : Nat
  day : Nat
  deriving DecidableEq, Repr

def isLeap (year : Nat) : Bool := year % 4 == 0 && (year % 100 != 0 || year % 400 == 0)

def daysBeforeYear (year : Nat) : Nat :=
  let y := year - 1
  y * 365 + y / 4 - y / 100 + y / 400

def daysInMonth (year month : Nat) : Nat :=
  match month with
  | 2 => if isLeap year then 29 else 28
  | 4 | 6 | 9 | 11 => 30
  | _ => 31

def daysBeforeMonth (year month : Nat) : Nat :=
  [0, 31, 59, 90, 120, 151, 181, 212, 243, 273, 304, 334].getD (month - 1) 0 +
    (if 2 < month && isLeap year then 1 else 0)

def Date.toOrdinal (d : Date) : Nat := daysBeforeYear d.year + daysBeforeMonth d.year d.month + d.day

/-- The month and day of the day with index n in its year. -/
def monthDay (leap : Bool) (n : Nat) : Nat × Nat :=
  let month := (n + 50) / 32
  let preceding := [0, 31, 59, 90, 120, 151, 181, 212, 243, 273, 304, 334].getD (month - 1) 0 +
    (if 2 < month && leap then 1 else 0)
  if n < preceding then
    let month := month - 1
    let preceding := preceding - ([31, 28, 31, 30, 31, 30, 31, 31, 30, 31, 30, 31].getD (month - 1) 0 +
      (if month == 2 && leap then 1 else 0))
    (month, n - preceding + 1)
  else (month, n - preceding + 1)

/-- The date of a day: whole cycles of 400, 100, 4 and 1 years, then the rest. -/
def ofOrdinal (ordinal : Nat) : Date :=
  let n := ordinal - 1
  let n400 := n / 146097
  let n := n % 146097
  let n100 := n / 36524
  let n := n % 36524
  let n4 := n / 1461
  let n := n % 1461
  let n1 := n / 365
  let n := n % 365
  let year := n400 * 400 + 1 + n100 * 100 + n4 * 4 + n1
  if n1 == 4 || n100 == 4 then ⟨year - 1, 12, 31⟩
  else
    let md := monthDay (n1 == 3 && (n4 != 24 || n100 == 3)) n
    ⟨year, md.1, md.2⟩

structure Date.Valid (d : Date) : Prop where
  year_pos : 1 ≤ d.year
  month_pos : 1 ≤ d.month
  month_le : d.month ≤ 12
  day_pos : 1 ≤ d.day
  day_le : d.day ≤ daysInMonth d.year d.month

def Date.monthIndex (d : Date) : Nat := d.year * 12 + d.month - 1

def monthStart (k : Nat) : Nat := daysBeforeYear (k / 12) + daysBeforeMonth (k / 12) (k % 12 + 1)

def monthLength (k : Nat) : Nat := daysInMonth (k / 12) (k % 12 + 1)

def Date.addMonths (d : Date) (n : Nat) : Date :=
  let k := d.monthIndex + n
  ⟨k / 12, k % 12 + 1, min d.day (monthLength k)⟩

section Months

theorem daysBeforeYear_succ (year : Nat) (h : 1 ≤ year) :
    daysBeforeYear (year + 1) = daysBeforeYear year + 365 + (if isLeap year then 1 else 0) := by
  obtain ⟨y, rfl⟩ : ∃ y, year = y + 1 := ⟨year - 1, by omega⟩
  have hle : y / 100 ≤ y := Nat.div_le_self y 100
  have h100 : 100 ∣ y + 1 → 4 ∣ y + 1 := (Nat.dvd_trans (by decide) ·)
  have h400 : 400 ∣ y + 1 → 100 ∣ y + 1 := (Nat.dvd_trans (by decide) ·)
  have hleap : isLeap (y + 1) = true ↔ 4 ∣ y + 1 ∧ (¬100 ∣ y + 1 ∨ 400 ∣ y + 1) := by
    simp [isLeap, Nat.dvd_iff_mod_eq_zero]
  simp only [daysBeforeYear, Nat.add_sub_cancel, Nat.succ_div, hleap]
  -- a leap year is one more fourth year, less the hundredth, plus the four hundredth
  generalize y / 4 = fours, y / 100 = hundreds, y / 400 = fourHundreds at *
  by_cases c4 : 4 ∣ y + 1 <;> by_cases c100 : 100 ∣ y + 1 <;> by_cases c400 : 400 ∣ y + 1 <;>
    simp_all <;> omega

theorem daysInMonth_bounds (year month : Nat) : 28 ≤ daysInMonth year month ∧ daysInMonth year month ≤ 31 := by
  unfold daysInMonth
  split
  · split <;> omega
  all_goals omega

theorem monthLength_ge (k : Nat) : 28 ≤ monthLength k := (daysInMonth_bounds _ _).1

theorem daysBeforeMonth_succ (year month : Nat) (h1 : 1 ≤ month) (h2 : month ≤ 11) :
    daysBeforeMonth year (month + 1) = daysBeforeMonth year month + daysInMonth year month := by
  unfold daysBeforeMonth daysInMonth
  interval_cases month <;> cases isLeap year <;> rfl

theorem monthStart_succ (k : Nat) (h : 12 ≤ k) : monthStart (k + 1) = monthStart k + monthLength k := by
  unfold monthStart monthLength
  by_cases hlast : k % 12 = 11
  · have hyear : (k + 1) / 12 = k / 12 + 1 := by omega
    have hmonth : (k + 1) % 12 = 0 := by omega
    rw [hyear, hmonth, hlast, daysBeforeYear_succ _ (by omega)]
    generalize k / 12 = year
    cases hleap : isLeap year <;> simp [daysBeforeMonth, daysInMonth, hleap]
  · have hyear : (k + 1) / 12 = k / 12 := by omega
    have hmonth : (k + 1) % 12 = k % 12 + 1 := by omega
    rw [hyear, hmonth, daysBeforeMonth_succ _ _ (by omega) (by omega)]
    omega

theorem monthStart_mono (k n : Nat) (h : 12 ≤ k) : monthStart k ≤ monthStart (k + n) := by
  induction n with
  | zero => exact Nat.le_refl _
  | succ n ih =>
      have hsucc := monthStart_succ (k + n) (by omega)
      rw [Nat.add_assoc] at hsucc
      omega

end Months

section Ordinals

theorem monthDay_spec (year n : Nat) (h : n < 365 + (if isLeap year then 1 else 0)) :
    let md := monthDay (isLeap year) n
    1 ≤ md.1 ∧ md.1 ≤ 12 ∧ 1 ≤ md.2 ∧ md.2 ≤ daysInMonth year md.1 ∧ daysBeforeMonth year md.1 + md.2 = n + 1 := by
  generalize hm : (n + 50) / 32 = month
  have h1 : 1 ≤ month := by omega
  have h2 : month ≤ 12 := by
    split at h <;> omega
  simp only [monthDay, hm, daysBeforeMonth, daysInMonth]
  cases hleap : isLeap year <;> simp only [hleap, if_true, if_false, Bool.false_eq_true] at h <;>
    interval_cases month <;> simp <;> first | omega | (split <;> simp <;> omega)

theorem daysBeforeYear_cycles (a b c d : Nat) (hb : b < 4) (hc : c < 25) (hd : d < 4) :
    daysBeforeYear (a * 400 + 1 + b * 100 + c * 4 + d) = a * 146097 + b * 36524 + c * 1461 + d * 365 := by
  simp only [daysBeforeYear]
  have h4 : (a * 400 + 1 + b * 100 + c * 4 + d - 1) / 4 = a * 100 + b * 25 + c := by omega
  have h100 : (a * 400 + 1 + b * 100 + c * 4 + d - 1) / 100 = a * 4 + b := by omega
  have h400 : (a * 400 + 1 + b * 100 + c * 4 + d - 1) / 400 = a := by omega
  rw [h4, h100, h400]
  omega

theorem isLeap_cycles (a b c d : Nat) (hb : b < 4) (hc : c < 25) (hd : d < 4) :
    isLeap (a * 400 + 1 + b * 100 + c * 4 + d) = (d == 3 && (c != 24 || b == 3)) := by
  have h4 : (a * 400 + 1 + b * 100 + c * 4 + d) % 4 = 0 ↔ d = 3 := by omega
  have h100 : (a * 400 + 1 + b * 100 + c * 4 + d) % 100 = 0 ↔ c = 24 ∧ d = 3 := by omega
  have h400 : (a * 400 + 1 + b * 100 + c * 4 + d) % 400 = 0 ↔ b = 3 ∧ c = 24 ∧ d = 3 := by omega
  rw [Bool.eq_iff_iff]
  simp only [isLeap, Bool.and_eq_true, Bool.or_eq_true, beq_iff_eq, bne_iff_ne, ne_eq, h4, h100, h400]
  tauto

theorem ofOrdinal_spec (ordinal : Nat) (h : 1 ≤ ordinal) :
    (ofOrdinal ordinal).Valid ∧ (ofOrdinal ordinal).toOrdinal = ordinal := by
  obtain ⟨n, rfl⟩ : ∃ n, ordinal = n + 1 := ⟨ordinal - 1, by omega⟩
  simp only [ofOrdinal, Nat.add_sub_cancel]
  generalize ha : n / 146097 = a
  generalize hr₁ : n % 146097 = r₁
  generalize hb : r₁ / 36524 = b
  generalize hr₂ : r₁ % 36524 = r₂
  generalize hc : r₂ / 1461 = c
  generalize hr₃ : r₂ % 1461 = r₃
  generalize hd : r₃ / 365 = d
  generalize hr₄ : r₃ % 365 = r₄
  split
  next hlast =>
    -- the last day of a leap year that ends a cycle of 4 or of 400 years
    simp only [Bool.or_eq_true, beq_iff_eq] at hlast
    have hcycle : ∃ b' c', b' < 4 ∧ c' < 25 ∧ (c' ≠ 24 ∨ b' = 3) ∧
        a * 400 + 1 + b * 100 + c * 4 + d - 1 = a * 400 + 1 + b' * 100 + c' * 4 + 3 ∧
        n = a * 146097 + b' * 36524 + c' * 1461 + 3 * 365 + 365 := by
      by_cases hb4 : b = 4
      · exact ⟨3, 24, by omega, by omega, by omega, by omega, by omega⟩
      · exact ⟨b, c, by omega, by omega, by omega, by omega, by omega⟩
    obtain ⟨b', c', hb', hc', hleap', hyear, hn⟩ := hcycle
    have hleap := isLeap_cycles a b' c' 3 hb' hc' (by omega)
    have hstart := daysBeforeYear_cycles a b' c' 3 hb' hc' (by omega)
    have htrue : isLeap (a * 400 + 1 + b' * 100 + c' * 4 + 3) = true := by
      rw [hleap]
      simpa using hleap'
    rw [hyear]
    refine ⟨⟨by simp, by simp, by simp, by simp, by simp [daysInMonth]⟩, ?_⟩
    simp only [Date.toOrdinal, hstart, daysBeforeMonth, htrue]
    simp
    omega
  next hrest =>
    simp only [Bool.or_eq_true, beq_iff_eq, not_or] at hrest
    obtain ⟨hd4, hb4⟩ := hrest
    have hb' : b < 4 := by omega
    have hc' : c < 25 := by omega
    have hd' : d < 4 := by omega
    have hleap := isLeap_cycles a b c d hb' hc' hd'
    have hstart := daysBeforeYear_cycles a b c d hb' hc' hd'
    have hspec := monthDay_spec (a * 400 + 1 + b * 100 + c * 4 + d) r₄ (by omega)
    rw [hleap] at hspec
    obtain ⟨hm1, hm2, hd1, hd2, hsum⟩ := hspec
    have hyear : 1 ≤ a * 400 + 1 + b * 100 + c * 4 + d := by omega
    refine ⟨⟨hyear, hm1, hm2, hd1, hd2⟩, ?_⟩
    simp only [Date.toOrdinal, hstart]
    omega

theorem Date.toOrdinal_eq (d : Date) (h : d.Valid) : d.toOrdinal = monthStart d.monthIndex + d.day := by
  have hm := h.month_pos
  have hm' := h.month_le
  have hyear : (d.year * 12 + d.month - 1) / 12 = d.year := by omega
  have hmonth : (d.year * 12 + d.month - 1) % 12 + 1 = d.month := by omega
  simp only [Date.toOrdinal, monthStart, Date.monthIndex, hyear, hmonth]

theorem Date.monthIndex_ge (d : Date) (h : d.Valid) : 12 ≤ d.monthIndex := by
  have hy := h.year_pos
  have hm := h.month_pos
  simp only [Date.monthIndex]
  omega

theorem Date.day_le_monthLength (d : Date) (h : d.Valid) : d.day ≤ monthLength d.monthIndex := by
  have hm := h.month_pos
  have hm' := h.month_le
  have hyear : (d.year * 12 + d.month - 1) / 12 = d.year := by omega
  have hmonth : (d.year * 12 + d.month - 1) % 12 + 1 = d.month := by omega
  simpa only [monthLength, Date.monthIndex, hyear, hmonth] using h.day_le

theorem Date.toOrdinal_lt (d e : Date) (hd : d.Valid) (he : e.Valid) (h : d.monthIndex < e.monthIndex) :
    d.toOrdinal < e.toOrdinal := by
  obtain ⟨n, hn⟩ : ∃ n, e.monthIndex = d.monthIndex + 1 + n := ⟨e.monthIndex - (d.monthIndex + 1), by omega⟩
  have hk := d.monthIndex_ge hd
  have hmono := monthStart_mono (d.monthIndex + 1) n (by omega)
  have hsucc := monthStart_succ d.monthIndex hk
  have hday := d.day_le_monthLength hd
  have hpos := he.day_pos
  rw [d.toOrdinal_eq hd, e.toOrdinal_eq he, hn]
  omega

theorem Date.ext_monthIndex (d e : Date) (hd : d.Valid) (he : e.Valid) (hk : d.monthIndex = e.monthIndex)
    (hday : d.day = e.day) : d = e := by
  have h1 := hd.month_pos
  have h2 := hd.month_le
  have h3 := he.month_pos
  have h4 := he.month_le
  obtain ⟨y, m, day⟩ := d
  obtain ⟨y', m', day'⟩ := e
  simp only [Date.monthIndex, Date.mk.injEq] at *
  omega

theorem Date.toOrdinal_injective (d e : Date) (hd : d.Valid) (he : e.Valid) (h : d.toOrdinal = e.toOrdinal) :
    d = e := by
  rcases Nat.lt_trichotomy d.monthIndex e.monthIndex with hlt | heq | hgt
  · have hord := d.toOrdinal_lt e hd he hlt
    omega
  · rw [d.toOrdinal_eq hd, e.toOrdinal_eq he, heq] at h
    exact d.ext_monthIndex e hd he heq (by omega)
  · have hord := e.toOrdinal_lt d he hd hgt
    omega

theorem Date.toOrdinal_pos (d : Date) (h : d.Valid) : 1 ≤ d.toOrdinal := by
  have hday := h.day_pos
  simp only [Date.toOrdinal]
  omega

theorem ofOrdinal_toOrdinal (d : Date) (h : d.Valid) : ofOrdinal d.toOrdinal = d := by
  obtain ⟨hvalid, hord⟩ := ofOrdinal_spec d.toOrdinal (d.toOrdinal_pos h)
  exact (ofOrdinal d.toOrdinal).toOrdinal_injective d hvalid h hord

end Ordinals

section AddMonths

variable (d : Date) (n : Nat)

@[simp] theorem Date.day_addMonths : (d.addMonths n).day = min d.day (monthLength (d.monthIndex + n)) := rfl

@[simp] theorem Date.monthIndex_addMonths : (d.addMonths n).monthIndex = d.monthIndex + n := by
  have h := Nat.div_add_mod (d.monthIndex + n) 12
  have hunfold : (d.addMonths n).monthIndex =
      (d.monthIndex + n) / 12 * 12 + ((d.monthIndex + n) % 12 + 1) - 1 := rfl
  omega

variable {d}

theorem Date.Valid.addMonths (h : d.Valid) : (d.addMonths n).Valid := by
  have hk := d.monthIndex_ge h
  have hlen := monthLength_ge (d.monthIndex + n)
  have hday := h.day_pos
  refine ⟨?_, ?_, ?_, ?_, ?_⟩
  · show 1 ≤ (d.monthIndex + n) / 12
    omega
  · show 1 ≤ (d.monthIndex + n) % 12 + 1
    omega
  · show (d.monthIndex + n) % 12 + 1 ≤ 12
    omega
  · rw [Date.day_addMonths]
    omega
  · exact Nat.min_le_right _ _

theorem Date.toOrdinal_addMonths_ge (h : d.Valid) (hn : 1 ≤ n) :
    d.toOrdinal + 28 ≤ (d.addMonths n).toOrdinal := by
  obtain ⟨m, rfl⟩ : ∃ m, n = 1 + m := ⟨n - 1, by omega⟩
  have hk := d.monthIndex_ge h
  have hmono := monthStart_mono (d.monthIndex + 1) m (by omega)
  have hsucc := monthStart_succ d.monthIndex hk
  have hday := d.day_le_monthLength h
  have hthis := monthLength_ge d.monthIndex
  have hthat := monthLength_ge (d.monthIndex + (1 + m))
  rw [d.toOrdinal_eq h, (d.addMonths (1 + m)).toOrdinal_eq (h.addMonths (1 + m)), Date.monthIndex_addMonths,
    Date.day_addMonths, ← Nat.add_assoc d.monthIndex 1 m] at *
  omega

end AddMonths

end EtranProcessing.Library.Calendar
