import EtranProcessing.Library.Calendar
import EtranProcessing.Library.Fallible

namespace EtranProcessing.Billing.Subscriptions

open Library.Calendar Library.Fallible

def dayMicros : Int := 86400000000

/-- What a call raises. -/
inductive Failure where
  | http (code : Nat) (detail : String)
  | valueError (text : String)
  | overflowError
  | zoneNotFound
  | integrityError
  | providerError
  deriving DecidableEq, Repr

def InRange (t : Int) : Prop := dayMicros ≤ t ∧ t < 3652060 * dayMicros

instance (t : Int) : Decidable (InRange t) := inferInstanceAs (Decidable (_ ∧ _))

/-- A zone gives a UTC time its offset, and says whether the wall clock shows that
time for the second time; it gives a wall clock time its offset. Offsets are
strictly between -24 and 24 hours. -/
structure Zone where
  offsetAt : Int → Int
  foldAt : Int → Bool
  offsetOf : Int → Bool → Int
  offsetAt_bound : ∀ t, -dayMicros < offsetAt t ∧ offsetAt t < dayMicros
  offsetOf_bound : ∀ wall fold, -dayMicros < offsetOf wall fold ∧ offsetOf wall fold < dayMicros

def Zone.fixed (offset : Int) (h : -dayMicros < offset ∧ offset < dayMicros) : Zone where
  offsetAt _ := offset
  foldAt _ := false
  offsetOf _ _ := offset
  offsetAt_bound _ := h
  offsetOf_bound _ _ := h

def Zone.utc : Zone := Zone.fixed 0 (by decide)

structure ZoneDatabase where
  zoneInfo : String → Option Zone
  gettz : String → Option Zone

def resolveTimezone (zones : ZoneDatabase) (name : String) : Except Failure Zone :=
  if name = "" ∨ name.toUpper = "UTC" ∨ name.toUpper = "Z" then .ok Zone.utc
  else demand ((zones.zoneInfo name).or (zones.gettz name)) .zoneNotFound

def Zone.astimezone (zone : Zone) (t : Int) : Except Failure (Int × Bool) := do
  require (InRange t) .overflowError
  require (InRange (t + zone.offsetAt t)) .overflowError
  return (t + zone.offsetAt t, zone.foldAt t)

def Zone.toUtc (zone : Zone) (wall : Int) (fold : Bool) : Except Failure Int := do
  require (InRange (wall - zone.offsetOf wall fold)) .overflowError
  return wall - zone.offsetOf wall fold

def dateOf (wall : Int) : Date := ofOrdinal (wall / dayMicros).toNat

def replaceDate (wall : Int) (date : Date) : Except Failure Int := do
  require (date.year ≤ 9999) (.valueError "year is out of range")
  return date.toOrdinal * dayMicros + wall % dayMicros

def addMonths (zones : ZoneDatabase) (t : Int) (months : Nat) (timezone : String) : Except Failure Int := do
  require (months ∈ [1, 3, 6, 12]) (.valueError "Choose 1, 3, 6 or 12 months")
  let zone ← resolveTimezone zones timezone
  let (wall, fold) ← zone.astimezone t
  let moved ← replaceDate wall ((dateOf wall).addMonths months)
  zone.toUtc moved fold

/-- Three days after the end of the paid term. The sum of a time and a duration is
on the first pass of the wall clock. -/
def graceUntil (zones : ZoneDatabase) (paid : Int) (timezone : String) : Except Failure Int := do
  let zone ← resolveTimezone zones timezone
  let (wall, _) ← zone.astimezone paid
  require (InRange (wall + 3 * dayMicros)) .overflowError
  zone.toUtc (wall + 3 * dayMicros) false

section Terms

variable {zones : ZoneDatabase} {zone : Zone} {t t' wall moved : Int} {fold : Bool} {date : Date}

@[simp] theorem astimezone_eq_ok : zone.astimezone t = .ok (wall, fold) ↔
    InRange t ∧ InRange wall ∧ wall = t + zone.offsetAt t ∧ fold = zone.foldAt t := by
  simp only [Zone.astimezone, bind_eq_ok, require_eq_ok, return_eq_ok, Prod.mk.injEq, exists_const]
  constructor
  · rintro ⟨h1, h2, rfl, rfl⟩
    exact ⟨h1, h2, rfl, rfl⟩
  · rintro ⟨h1, h2, rfl, rfl⟩
    exact ⟨h1, h2, rfl, rfl⟩

@[simp] theorem toUtc_eq_ok : zone.toUtc wall fold = .ok t ↔
    InRange t ∧ t = wall - zone.offsetOf wall fold := by
  simp only [Zone.toUtc, bind_eq_ok, require_eq_ok, return_eq_ok, exists_const]
  constructor
  · rintro ⟨h, rfl⟩
    exact ⟨h, rfl⟩
  · rintro ⟨h, rfl⟩
    exact ⟨h, rfl⟩

@[simp] theorem replaceDate_eq_ok : replaceDate wall date = .ok moved ↔
    date.year ≤ 9999 ∧ moved = date.toOrdinal * dayMicros + wall % dayMicros := by
  simp only [replaceDate, bind_eq_ok, require_eq_ok, return_eq_ok, exists_const]

theorem one_le_day (h : InRange wall) : 1 ≤ (wall / dayMicros).toNat := by
  have hlow := h.1
  simp only [dayMicros] at hlow ⊢
  omega

theorem dateOf_valid (h : InRange wall) : (dateOf wall).Valid := (ofOrdinal_spec _ (one_le_day h)).1

theorem toOrdinal_dateOf (h : InRange wall) :
    ((dateOf wall).toOrdinal : Int) * dayMicros + wall % dayMicros = wall := by
  have hord := (ofOrdinal_spec _ (one_le_day h)).2
  have hpos := one_le_day h
  simp only [dateOf, hord]
  simp only [dayMicros] at hpos ⊢
  omega

theorem addMonths_eq_ok {months : Nat} {timezone : String} (h : addMonths zones t months timezone = .ok t') :
    ∃ zone wall moved, months ∈ [1, 3, 6, 12] ∧ resolveTimezone zones timezone = .ok zone ∧
      zone.astimezone t = .ok (wall, zone.foldAt t) ∧
      replaceDate wall ((dateOf wall).addMonths months) = .ok moved ∧ zone.toUtc moved (zone.foldAt t) = .ok t' := by
  simp only [addMonths, bind_eq_ok, require_eq_ok] at h
  obtain ⟨_, hmonths, zone, hzone, ⟨wall, fold⟩, hwall, moved, hmoved, hutc⟩ := h
  obtain ⟨_, _, _, rfl⟩ := astimezone_eq_ok.mp hwall
  exact ⟨zone, wall, moved, hmonths, hzone, hwall, hmoved, hutc⟩

theorem addMonths_lt {months : Nat} {timezone : String} (h : addMonths zones t months timezone = .ok t') :
    t < t' := by
  obtain ⟨zone, wall, moved, hmonths, _, hwall, hmoved, hutc⟩ := addMonths_eq_ok h
  obtain ⟨_, hrange, hlocal, _⟩ := astimezone_eq_ok.mp hwall
  obtain ⟨_, rfl⟩ := replaceDate_eq_ok.mp hmoved
  obtain ⟨_, hback⟩ := toUtc_eq_ok.mp hutc
  have hpos : 1 ≤ months := by
    simp only [List.mem_cons, List.not_mem_nil, or_false] at hmonths
    omega
  have hdays := Date.toOrdinal_addMonths_ge months (dateOf_valid hrange) hpos
  have hdate := toOrdinal_dateOf hrange
  have hthere := zone.offsetAt_bound t
  generalize hmoved' : ((dateOf wall).addMonths months).toOrdinal * dayMicros + wall % dayMicros = moved at *
  have hhere := zone.offsetOf_bound moved (zone.foldAt t)
  simp only [dayMicros] at *
  omega

end Terms

end EtranProcessing.Billing.Subscriptions
