import EtranProcessing.Billing.Orders

namespace EtranProcessing.Billing.ConfirmationOrder

open Library.Calendar Library.Fallible Subscriptions Orders

/-- The time that a terminal is paid until after an item of a paid order, as the loop of
sync_order computes it. -/
def newPaidUntil (zones : ZoneDatabase) (timezone : String) (months : Nat) (paidAt : Int) (old : Option Int) :
    Except Failure Int :=
  addMonths zones (termStart paidAt old) months timezone

def localTime (zone : Zone) (t : Int) : Int := t + zone.offsetAt t

def shiftWall (wall : Int) (months : Nat) : Int :=
  ((dateOf wall).addMonths months).toOrdinal * dayMicros + wall % dayMicros

def cutDay (date : Date) (first second : Nat) : Nat :=
  min (min date.day (monthLength (date.monthIndex + first))) (monthLength (date.monthIndex + (first + second)))

section Walls

variable {wall wall' : Int} {months : Nat}

theorem dateOf_toOrdinal {date : Date} (h : date.Valid) (wall : Int) :
    dateOf (date.toOrdinal * dayMicros + wall % dayMicros) = date := by
  have hday : ((date.toOrdinal * dayMicros + wall % dayMicros) / dayMicros).toNat = date.toOrdinal := by
    simp only [dayMicros]
    omega
  rw [dateOf, hday, ofOrdinal_toOrdinal date h]

theorem dateOf_shiftWall (h : InRange wall) (months : Nat) :
    dateOf (shiftWall wall months) = (dateOf wall).addMonths months :=
  dateOf_toOrdinal ((dateOf_valid h).addMonths months) wall

theorem shiftWall_mod (wall : Int) (months : Nat) : shiftWall wall months % dayMicros = wall % dayMicros := by
  simp only [shiftWall, dayMicros]
  omega

theorem day_addMonths_addMonths (date : Date) (first second : Nat) :
    ((date.addMonths first).addMonths second).day = cutDay date first second := by
  simp [cutDay, Nat.add_assoc]

theorem shiftWall_shiftWall (h : InRange wall) (first second : Nat) :
    shiftWall (shiftWall wall first) second = shiftWall (shiftWall wall second) first ↔
      cutDay (dateOf wall) first second = cutDay (dateOf wall) second first := by
  have hleft : shiftWall (shiftWall wall first) second =
      (((dateOf wall).addMonths first).addMonths second).toOrdinal * dayMicros + wall % dayMicros := by
    rw [shiftWall, dateOf_shiftWall h, shiftWall_mod]
  have hright : shiftWall (shiftWall wall second) first =
      (((dateOf wall).addMonths second).addMonths first).toOrdinal * dayMicros + wall % dayMicros := by
    rw [shiftWall, dateOf_shiftWall h, shiftWall_mod]
  have hvalidLeft := ((dateOf_valid h).addMonths first).addMonths second
  have hvalidRight := ((dateOf_valid h).addMonths second).addMonths first
  rw [hleft, hright, ← day_addMonths_addMonths, ← day_addMonths_addMonths]
  constructor
  · intro heq
    have hordinal : (((dateOf wall).addMonths first).addMonths second).toOrdinal =
        (((dateOf wall).addMonths second).addMonths first).toOrdinal := by
      simp only [dayMicros] at heq
      omega
    rw [Date.toOrdinal_injective _ _ hvalidLeft hvalidRight hordinal]
  · intro hday
    have hmonth : (((dateOf wall).addMonths first).addMonths second).monthIndex =
        (((dateOf wall).addMonths second).addMonths first).monthIndex := by
      simp only [Date.monthIndex_addMonths]
      omega
    rw [Date.ext_monthIndex _ _ hvalidLeft hvalidRight hmonth hday]

end Walls

section Extensions

variable {zones : ZoneDatabase} {timezone : String} {zone : Zone}

theorem newPaidUntil_eq_ok (hzone : resolveTimezone zones timezone = .ok zone) {months : Nat}
    {paidAt current new : Int} (hpaid : paidAt ≤ current)
    (h : newPaidUntil zones timezone months paidAt (some current) = .ok new) :
    InRange (localTime zone current) ∧ current < new ∧
      new = shiftWall (localTime zone current) months -
        zone.offsetOf (shiftWall (localTime zone current) months) (zone.foldAt current) := by
  have hstart : termStart paidAt (some current) = current := max_eq_right hpaid
  rw [newPaidUntil, hstart] at h
  have hlt := addMonths_lt h
  obtain ⟨zone', wall, moved, _, hzone', hwall, hmoved, hutc⟩ := addMonths_eq_ok h
  cases Except.ok.inj (hzone'.symm.trans hzone)
  obtain ⟨_, hrange, rfl, _⟩ := astimezone_eq_ok.mp hwall
  obtain ⟨_, rfl⟩ := replaceDate_eq_ok.mp hmoved
  obtain ⟨_, hnew⟩ := toUtc_eq_ok.mp hutc
  exact ⟨hrange, hlt, hnew⟩

/-- Two extensions may be confirmed in either order if both first ones end at a time that
the clocks of the zone show, on the same pass of the clock, and the months that are
bought cut the day of the month alike. Where the clocks show the last times too, the
days must be alike. -/
theorem confirmation_order_free (zones : ZoneDatabase) (timezone : String) (zone : Zone)
    (hzone : resolveTimezone zones timezone = .ok zone) (current p₁ p₂ : Int) (hp₁ : p₁ ≤ current)
    (hp₂ : p₂ ≤ current) (m₁ m₂ : Nat) (a₁ a₂ a₁₂ a₂₁ : Int)
    (h₁ : newPaidUntil zones timezone m₁ p₁ (some current) = .ok a₁)
    (h₁₂ : newPaidUntil zones timezone m₂ p₂ (some a₁) = .ok a₁₂)
    (h₂ : newPaidUntil zones timezone m₂ p₂ (some current) = .ok a₂)
    (h₂₁ : newPaidUntil zones timezone m₁ p₁ (some a₂) = .ok a₂₁)
    (hshown₁ : localTime zone a₁ = shiftWall (localTime zone current) m₁)
    (hshown₂ : localTime zone a₂ = shiftWall (localTime zone current) m₂)
    (hpass : zone.foldAt a₁ = zone.foldAt a₂) :
    (cutDay (dateOf (localTime zone current)) m₁ m₂ = cutDay (dateOf (localTime zone current)) m₂ m₁ → a₁₂ = a₂₁) ∧
      (localTime zone a₁₂ = shiftWall (localTime zone a₁) m₂ → localTime zone a₂₁ = shiftWall (localTime zone a₂) m₁ →
        a₁₂ = a₂₁ →
        cutDay (dateOf (localTime zone current)) m₁ m₂ = cutDay (dateOf (localTime zone current)) m₂ m₁) := by
  obtain ⟨hrange, hlt₁, -⟩ := newPaidUntil_eq_ok hzone hp₁ h₁
  obtain ⟨-, hlt₂, -⟩ := newPaidUntil_eq_ok hzone hp₂ h₂
  obtain ⟨-, -, hlast₁⟩ := newPaidUntil_eq_ok hzone (by omega) h₁₂
  obtain ⟨-, -, hlast₂⟩ := newPaidUntil_eq_ok hzone (by omega) h₂₁
  have hcut := shiftWall_shiftWall hrange m₁ m₂
  rw [hshown₁] at hlast₁
  rw [hshown₂] at hlast₂
  constructor
  · intro hdays
    rw [hlast₁, hlast₂, hcut.mpr hdays, hpass]
  · intro hclock₁ hclock₂ hsame
    apply hcut.mp
    rw [← hshown₁, ← hshown₂, ← hclock₁, ← hclock₂, hsame]

def noZones : ZoneDatabase := ⟨fun _ => none, fun _ => none⟩

/-- On 31 August a month and a quarter both end on the 30th, so that both orders give
30 December. -/
theorem confirmation_order_free_august : ∃ a₁ a₂ a₁₂ a₂₁,
    newPaidUntil noZones "UTC" 1 63921268800000000 (some 63923860800000000) = .ok a₁ ∧
      newPaidUntil noZones "UTC" 3 63921268800000000 (some a₁) = .ok a₁₂ ∧
      newPaidUntil noZones "UTC" 3 63921268800000000 (some 63923860800000000) = .ok a₂ ∧
      newPaidUntil noZones "UTC" 1 63921268800000000 (some a₂) = .ok a₂₁ ∧ a₁₂ = a₂₁ := by
  have hzone : resolveTimezone noZones "UTC" = .ok Zone.utc := by
    have hname : "UTC".toUpper = "UTC" := by decide +kernel
    simp [resolveTimezone, hname]
  have h₁ : newPaidUntil noZones "UTC" 1 63921268800000000 (some 63923860800000000) = .ok 63926452800000000 := by
    decide +kernel
  have h₁₂ : newPaidUntil noZones "UTC" 3 63921268800000000 (some 63926452800000000) = .ok 63934315200000000 := by
    decide +kernel
  have h₂ : newPaidUntil noZones "UTC" 3 63921268800000000 (some 63923860800000000) = .ok 63931723200000000 := by
    decide +kernel
  have h₂₁ : newPaidUntil noZones "UTC" 1 63921268800000000 (some 63931723200000000) = .ok 63934315200000000 := by
    decide +kernel
  exact ⟨_, _, _, _, h₁, h₁₂, h₂, h₂₁, (confirmation_order_free noZones "UTC" Zone.utc hzone _ _ _ (by decide)
    (by decide) 1 3 _ _ _ _ h₁ h₁₂ h₂ h₂₁ (by decide +kernel) (by decide +kernel) rfl).1 (by decide +kernel)⟩

/-- The zone of Berlin around 29 March 2026, when 02:00 to 03:00 is skipped. -/
def springZone : Zone where
  offsetAt t := if t < 63910429200000000 then 3600000000 else 7200000000
  foldAt _ := false
  offsetOf wall fold :=
    if wall < 63910432800000000 then 3600000000
    else if wall < 63910436400000000 ∧ fold = false then 3600000000 else 7200000000
  offsetAt_bound t := by
    split <;> decide
  offsetOf_bound wall fold := by
    split
    · decide
    · split <;> decide

def springZones : ZoneDatabase where
  zoneInfo name := if name = "Europe/Berlin" then some springZone else none
  gettz _ := none

/-- From 31 January a month and a quarter give 28 or 30 May. From 29 December, 02:30 in
Berlin, a quarter first ends in the hour that is skipped, which moves the last time by an hour. -/
theorem confirmation_order_matters :
    (newPaidUntil noZones "UTC" 1 63904161600000000 (some 63905544000000000) = .ok 63907963200000000 ∧
      newPaidUntil noZones "UTC" 3 63904161600000000 (some 63907963200000000) = .ok 63915652800000000 ∧
      newPaidUntil noZones "UTC" 3 63904161600000000 (some 63905544000000000) = .ok 63913233600000000 ∧
      newPaidUntil noZones "UTC" 1 63904161600000000 (some 63913233600000000) = .ok 63915825600000000 ∧
      (63915652800000000 : Int) ≠ 63915825600000000) ∧
    newPaidUntil springZones "Europe/Berlin" 3 63902655000000000 (some 63902655000000000) = .ok 63910431000000000 ∧
      newPaidUntil springZones "Europe/Berlin" 1 63902655000000000 (some 63910431000000000) = .ok 63913109400000000 ∧
      newPaidUntil springZones "Europe/Berlin" 1 63902655000000000 (some 63902655000000000) = .ok 63905333400000000 ∧
      newPaidUntil springZones "Europe/Berlin" 3 63902655000000000 (some 63905333400000000) =
        .ok 63913105800000000 ∧ (63913109400000000 : Int) ≠ 63913105800000000 := by
  decide +kernel

end Extensions

end EtranProcessing.Billing.ConfirmationOrder
