import EtranProcessing.Billing.Subscriptions

namespace EtranProcessing.Billing.Forecast

open Library.Calendar Library.Fallible Subscriptions

def outOfRange : Failure := .valueError "year is out of range"

def addMonthsFromAnchor (anchor : Int) (totalMonths : Nat) : Except Failure Int :=
  replaceDate anchor ((dateOf anchor).addMonths totalMonths)

section Due

variable (expiresAt asOf : Int) (periodMonths : Nat)

/-- The loop over the periods, for at most `fuel` tests of its condition. -/
def dueLoop : Nat → Nat → Option (Except Failure Nat)
  | 0, _ => none
  | fuel + 1, count =>
      match addMonthsFromAnchor expiresAt (periodMonths * count) with
      | .error e => some (.error e)
      | .ok current => if current ≤ asOf then dueLoop fuel (count + 1) else some (.ok count)

def calculatePeriodsDue (fuel : Nat) (periodMonths : Int) : Option (Except Failure Nat) :=
  if periodMonths ≤ 0 then some (.error (.valueError "billing_period_months must be positive"))
  else if asOf < expiresAt then some (.ok 0)
  else dueLoop expiresAt asOf periodMonths.toNat fuel 0

end Due

abbrev Month := Nat × Nat

def monthOf (t : Int) : Month := ((dateOf t).year, (dateOf t).month)

structure TerminalBillingResult where
  includedInForecast : Bool
  billingMode : String
  licenseExpiresAt : Option Int
  periodPriceMinor : Int
  billingPeriodMonths : Nat

structure ForecastMonth where
  month : Month
  amountMinor : Int
  terminalCount : Nat
  deriving DecidableEq

def firstInstant (year month : Nat) : Except Failure Int := do
  require (year ≤ 9999) outOfRange
  return (⟨year, month, 1⟩ : Date).toOrdinal * dayMicros

def forecastEnd (last : Month) : Except Failure Int :=
  if last.2 = 12 then firstInstant (last.1 + 1) 1 else firstInstant last.1 (last.2 + 1)

def bump (price : Int) (key : Month) (row : ForecastMonth) : ForecastMonth :=
  if row.month = key then { row with amountMinor := row.amountMinor + price, terminalCount := row.terminalCount + 1 } else row

/-- The renewals of a terminal from the k-th on, as many as are left of 24. -/
def simulate (last : Month) (price : Int) (periodMonths : Nat) (anchor : Int) :
    Nat → Nat → List ForecastMonth → Except Failure (List ForecastMonth)
  | 0, _, rows => .ok rows
  | left + 1, k, rows => do
      let current ← addMonthsFromAnchor anchor (periodMonths * k)
      let stop ← forecastEnd last
      if stop < current then .ok rows
      else simulate last price periodMonths anchor left (k + 1) (rows.map (bump price (monthOf current)))

def counted (t : TerminalBillingResult) : Bool :=
  t.includedInForecast && t.billingMode != "cert_linked" && t.billingMode != "master" && t.licenseExpiresAt.isSome

def addTerminal (last : Month) (rows : List ForecastMonth) (t : TerminalBillingResult) :
    Except Failure (List ForecastMonth) :=
  if t.includedInForecast = false then .ok rows
  else if t.billingMode = "cert_linked" ∨ t.billingMode = "master" then .ok rows
  else
    match t.licenseExpiresAt with
    | none => .ok rows
    | some anchor => simulate last t.periodPriceMinor t.billingPeriodMonths anchor 24 0 rows

def buildOrgForecast (terminals : List TerminalBillingResult) (asOf : Int) : Except Failure (List ForecastMonth) := do
  let first ← addMonthsFromAnchor asOf 0
  let second ← addMonthsFromAnchor asOf 1
  let third ← addMonthsFromAnchor asOf 2
  terminals.foldlM (addTerminal (monthOf third))
    ([first, second, third].map fun t => ⟨monthOf t, 0, 0⟩)

def month (k : Nat) : Month := (k / 12, k % 12 + 1)

theorem month_injective {a b : Nat} (h : month a = month b) : a = b := by
  simp only [month, Prod.mk.injEq] at h
  omega

section Anchors

variable {anchor d d' asOf : Int} {n n' : Nat}

theorem addMonthsFromAnchor_eq_ok : addMonthsFromAnchor anchor n = .ok d ↔
    (dateOf anchor).monthIndex + n < 120000 ∧
      d = ((dateOf anchor).addMonths n).toOrdinal * dayMicros + anchor % dayMicros := by
  have hyear : ((dateOf anchor).addMonths n).year = ((dateOf anchor).monthIndex + n) / 12 := rfl
  rw [addMonthsFromAnchor, replaceDate_eq_ok, hyear]
  constructor
  · rintro ⟨hle, hd⟩
    exact ⟨by omega, hd⟩
  · rintro ⟨hlt, hd⟩
    exact ⟨by omega, hd⟩

theorem addMonthsFromAnchor_error (h : 120000 ≤ (dateOf anchor).monthIndex + n) :
    addMonthsFromAnchor anchor n = .error outOfRange := by
  have hyear : ((dateOf anchor).addMonths n).year = ((dateOf anchor).monthIndex + n) / 12 := rfl
  have hbad : ¬ ((dateOf anchor).addMonths n).year ≤ 9999 := by
    rw [hyear]
    omega
  rw [addMonthsFromAnchor, replaceDate, Library.Fallible.require, if_neg hbad]
  rfl

theorem dateOf_moved (hrange : InRange anchor) (h : addMonthsFromAnchor anchor n = .ok d) :
    dateOf d = (dateOf anchor).addMonths n := by
  obtain ⟨-, rfl⟩ := addMonthsFromAnchor_eq_ok.mp h
  have hvalid := (dateOf_valid hrange).addMonths n
  have hquotient : ((((dateOf anchor).addMonths n).toOrdinal * dayMicros + anchor % dayMicros : Int) / dayMicros).toNat =
      ((dateOf anchor).addMonths n).toOrdinal := by
    simp only [dayMicros]
    omega
  rw [dateOf, hquotient, ofOrdinal_toOrdinal _ hvalid]

theorem monthOf_moved (hrange : InRange anchor) (h : addMonthsFromAnchor anchor n = .ok d) :
    monthOf d = month ((dateOf anchor).monthIndex + n) := by
  rw [monthOf, dateOf_moved hrange h]
  rfl

theorem addMonthsFromAnchor_zero (hrange : InRange anchor) (h : addMonthsFromAnchor anchor 0 = .ok d) : d = anchor := by
  obtain ⟨-, rfl⟩ := addMonthsFromAnchor_eq_ok.mp h
  have hvalid := dateOf_valid hrange
  have hsame : (dateOf anchor).addMonths 0 = dateOf anchor := by
    refine Date.ext_monthIndex _ _ (hvalid.addMonths 0) hvalid (Date.monthIndex_addMonths _ 0) ?_
    rw [Date.day_addMonths, Nat.add_zero]
    exact Nat.min_eq_left ((dateOf anchor).day_le_monthLength hvalid)
  rw [hsame]
  exact toOrdinal_dateOf hrange

theorem monthIndex_lt (hrange : InRange anchor) : (dateOf anchor).monthIndex < 120000 := by
  by_contra hlate
  have hlast : (⟨9999, 12, 31⟩ : Date).Valid := by constructor <;> decide
  have hordinal := Date.toOrdinal_lt _ _ hlast (dateOf_valid hrange) (by
    change 119999 < _
    omega)
  have hend : (⟨9999, 12, 31⟩ : Date).toOrdinal = 3652059 := by decide
  have hsplit := toOrdinal_dateOf hrange
  have hhigh := hrange.2
  rw [hend] at hordinal
  simp only [dayMicros] at hsplit hhigh
  omega

end Anchors

section Periods

variable {expiresAt asOf : Int} {p : Nat}

def FirstAfter (expiresAt asOf : Int) (p k : Nat) : Prop :=
  (∃ d, addMonthsFromAnchor expiresAt (p * k) = .ok d ∧ asOf < d) ∧
    ∀ j < k, ∃ d, addMonthsFromAnchor expiresAt (p * j) = .ok d ∧ d ≤ asOf

theorem dueLoop_ends (hp : 1 ≤ p) (fuel count : Nat) (hfuel : 120000 < count + fuel)
    (hbefore : ∀ j < count, ∃ d, addMonthsFromAnchor expiresAt (p * j) = .ok d ∧ d ≤ asOf) :
    (∃ k, dueLoop expiresAt asOf p fuel count = some (.ok k) ∧ FirstAfter expiresAt asOf p k) ∨
      (dueLoop expiresAt asOf p fuel count = some (.error outOfRange) ∧
        ∀ k d, addMonthsFromAnchor expiresAt (p * k) = .ok d → d ≤ asOf) := by
  induction fuel generalizing count with
  | zero =>
      obtain ⟨d, hd, -⟩ := hbefore 120000 (by omega)
      have hbound := (addMonthsFromAnchor_eq_ok.mp hd).1
      have hmul : 120000 ≤ p * 120000 := Nat.le_mul_of_pos_left _ hp
      omega
  | succ fuel ih =>
      rw [dueLoop]
      by_cases hrange : (dateOf expiresAt).monthIndex + p * count < 120000
      · have hok := addMonthsFromAnchor_eq_ok.mpr ⟨hrange, rfl⟩
        simp only [hok]
        split
        next hle =>
          refine ih (count + 1) (by omega) fun j hj => ?_
          rcases Nat.lt_succ_iff_lt_or_eq.mp hj with hj | rfl
          · exact hbefore j hj
          · exact ⟨_, hok, hle⟩
        next hlater => exact .inl ⟨count, rfl, ⟨⟨_, hok, by omega⟩, hbefore⟩⟩
      · simp only [addMonthsFromAnchor_error (Nat.le_of_not_lt hrange)]
        refine .inr ⟨trivial, fun k d hd => ?_⟩
        rcases Nat.lt_or_ge k count with hk | hk
        · obtain ⟨d', hd', hle⟩ := hbefore k hk
          obtain rfl := Except.ok.inj (hd'.symm.trans hd)
          exact hle
        · have hbound := (addMonthsFromAnchor_eq_ok.mp hd).1
          have hmul := Nat.mul_le_mul_left p hk
          omega

theorem periodsDue_least (hrange : InRange expiresAt) {period : Int} (hperiod : 1 ≤ period) (fuel : Nat)
    (hfuel : 120000 < fuel) :
    (∃ k, calculatePeriodsDue expiresAt asOf fuel period = some (.ok k) ∧ FirstAfter expiresAt asOf period.toNat k) ∨
      (calculatePeriodsDue expiresAt asOf fuel period = some (.error outOfRange) ∧
        ∀ k d, addMonthsFromAnchor expiresAt (period.toNat * k) = .ok d → d ≤ asOf) := by
  rw [calculatePeriodsDue, if_neg (by omega)]
  split
  next hlater =>
    have hok := (addMonthsFromAnchor_eq_ok (n := 0)).mpr ⟨monthIndex_lt hrange, rfl⟩
    refine .inl ⟨0, rfl, ⟨⟨_, hok, ?_⟩, fun j hj => absurd hj (Nat.not_lt_zero j)⟩⟩
    rwa [addMonthsFromAnchor_zero hrange hok]
  next => exact dueLoop_ends (by omega) fuel 0 (by omega) fun j hj => absurd hj (Nat.not_lt_zero j)

end Periods

section Renewals

variable {anchor current stop price : Int} {p m k left : Nat} {rows rows' : List ForecastMonth} {row : ForecastMonth}

theorem firstInstant_month (h : m + 1 < 120000) :
    forecastEnd (month m) = .ok ((⟨(m + 1) / 12, (m + 1) % 12 + 1, 1⟩ : Date).toOrdinal * dayMicros) := by
  rw [forecastEnd, month]
  by_cases hlast : m % 12 + 1 = 12
  · have hyear : (m + 1) / 12 = m / 12 + 1 := by omega
    have hmonth : (m + 1) % 12 + 1 = 1 := by omega
    rw [if_pos hlast, firstInstant, Library.Fallible.require, if_pos (by omega), hyear, hmonth]
    rfl
  · have hyear : (m + 1) / 12 = m / 12 := by omega
    have hmonth : (m + 1) % 12 + 1 = m % 12 + 1 + 1 := by omega
    rw [if_neg hlast, firstInstant, Library.Fallible.require, if_pos (by omega), hyear, hmonth]
    rfl

theorem firstInstant_late (h : 120000 ≤ m + 1) : forecastEnd (month m) = .error outOfRange := by
  rw [forecastEnd, month]
  by_cases hlast : m % 12 + 1 = 12
  · rw [if_pos hlast, firstInstant, Library.Fallible.require, if_neg (by omega)]
    rfl
  · rw [if_neg hlast, firstInstant, Library.Fallible.require, if_neg (by omega)]
    rfl

theorem firstDay_valid (h : 12 ≤ m) : (⟨m / 12, m % 12 + 1, 1⟩ : Date).Valid ∧
    (⟨m / 12, m % 12 + 1, 1⟩ : Date).monthIndex = m := by
  have hdays := daysInMonth_bounds (m / 12) (m % 12 + 1)
  constructor
  · constructor
    all_goals dsimp only
    all_goals omega
  · simp only [Date.monthIndex]
    omega

theorem stop_cases (hrange : InRange anchor) (h : addMonthsFromAnchor anchor (p * k) = .ok current)
    (hstop : forecastEnd (month m) = .ok stop) (hm : 12 ≤ m) :
    ((dateOf anchor).monthIndex + p * k ≤ m → current ≤ stop) ∧
      (m + 2 ≤ (dateOf anchor).monthIndex + p * k → stop < current) := by
  obtain ⟨-, hcurrent⟩ := addMonthsFromAnchor_eq_ok.mp h
  have hvalid := (dateOf_valid hrange).addMonths (p * k)
  have hindex : ((dateOf anchor).addMonths (p * k)).monthIndex = (dateOf anchor).monthIndex + p * k :=
    Date.monthIndex_addMonths _ _
  have hlt : m + 1 < 120000 := by
    by_contra hlate
    rw [firstInstant_late (Nat.le_of_not_lt hlate)] at hstop
    cases hstop
  obtain rfl := Except.ok.inj ((firstInstant_month hlt).symm.trans hstop)
  obtain ⟨hfirst, hnumber⟩ := firstDay_valid (m := m + 1) (by omega)
  rw [hcurrent]
  constructor
  · intro hle
    have hordinal := Date.toOrdinal_lt _ _ hvalid hfirst (by omega)
    simp only [dayMicros]
    omega
  · intro hge
    have hordinal := Date.toOrdinal_lt _ _ hfirst hvalid (by omega)
    simp only [dayMicros]
    omega

def hits (a p k left : Nat) (row : ForecastMonth) : Nat :=
  ((Finset.Ico k (k + left)).filter fun j => month (a + p * j) = row.month).card

def raised (price : Int) (n : Nat) (row : ForecastMonth) : ForecastMonth :=
  { row with amountMinor := row.amountMinor + price * n, terminalCount := row.terminalCount + n }

@[simp] theorem month_bump (price : Int) (key : Month) (row : ForecastMonth) : (bump price key row).month = row.month := by
  rw [bump]
  split <;> rfl

theorem hits_succ (a p k left : Nat) (price : Int) (row : ForecastMonth) :
    raised price (hits a p (k + 1) left (bump price (month (a + p * k)) row)) (bump price (month (a + p * k)) row) =
      raised price (hits a p k (left + 1) row) row := by
  have hsplit : Finset.Ico k (k + (left + 1)) = insert k (Finset.Ico (k + 1) (k + 1 + left)) := by
    ext j
    simp only [Finset.mem_Ico, Finset.mem_insert]
    omega
  have hnew : k ∉ (Finset.Ico (k + 1) (k + 1 + left)).filter fun j => month (a + p * j) = row.month := by
    simp
  have hcount : hits a p k (left + 1) row = hits a p (k + 1) left row + if row.month = month (a + p * k) then 1 else 0 := by
    rw [hits, hits, hsplit, Finset.filter_insert]
    by_cases hmonth : month (a + p * k) = row.month
    · rw [if_pos hmonth, if_pos hmonth.symm, Finset.card_insert_of_notMem hnew]
    · rw [if_neg hmonth, if_neg (Ne.symm hmonth)]
      rfl
  have hsame : hits a p (k + 1) left (bump price (month (a + p * k)) row) = hits a p (k + 1) left row := by
    rw [hits, hits, month_bump]
  rw [hsame, hcount, bump]
  split
  next =>
    simp only [raised, Nat.cast_add, Nat.cast_one, ForecastMonth.mk.injEq, true_and]
    exact ⟨by ring, by omega⟩
  next => rfl

theorem hits_past {a : Nat} (hpast : m < a + p * k) (hrow : ∃ i ≤ m, row.month = month i) :
    hits a p k left row = 0 := by
  obtain ⟨i, hi, hmonth⟩ := hrow
  rw [hits, Finset.card_eq_zero, Finset.filter_eq_empty_iff]
  intro j hj heq
  have hindex := month_injective (heq.trans hmonth)
  have hmul := Nat.mul_le_mul_left p (Finset.mem_Ico.mp hj).1
  omega

example (price : Int) (k : Nat) : simulate (month m) price p anchor 0 k rows = .ok rows := by simp only [simulate]

theorem simulate_raises (hrange : InRange anchor) (hm : 12 ≤ m) (left k : Nat)
    (hrows : ∀ row ∈ rows, ∃ i ≤ m, row.month = month i) (h : simulate (month m) price p anchor left k rows = .ok rows') :
    rows' = rows.map fun row => raised price (hits (dateOf anchor).monthIndex p k left row) row := by
  induction left generalizing k rows with
  | zero =>
      obtain rfl := Except.ok.inj h
      refine (List.map_id rows).symm.trans (List.map_congr_left fun row _ => ?_)
      simp [hits, raised]
  | succ left ih =>
      simp only [simulate, bind_eq_ok] at h
      obtain ⟨current, hcurrent, stop, hstop, h⟩ := h
      obtain ⟨hwithin, -⟩ := stop_cases hrange hcurrent hstop hm
      by_cases hbreak : stop < current
      · rw [if_pos hbreak] at h
        obtain rfl := Except.ok.inj h
        have hpast : m < (dateOf anchor).monthIndex + p * k := by
          by_contra hle
          have := hwithin (Nat.le_of_not_lt hle)
          omega
        refine (List.map_id rows).symm.trans (List.map_congr_left fun row hrow => ?_)
        rw [hits_past hpast (hrows row hrow)]
        simp [raised]
      · rw [if_neg hbreak, monthOf_moved hrange hcurrent] at h
        rw [ih (k + 1) ?_ h, List.map_map]
        · refine List.map_congr_left fun row _ => ?_
          exact hits_succ _ _ _ _ _ _
        · intro row hrow
          obtain ⟨row', hrow', rfl⟩ := List.mem_map.mp hrow
          rw [month_bump]
          exact hrows row' hrow'

theorem simulate_returns (hrange : InRange anchor) (hm : 12 ≤ m) (hyear : m + 2 + p ≤ 120000) (left k : Nat)
    (hk : k = 0 ∨ (dateOf anchor).monthIndex + p * k < m + 2 + p) (rows : List ForecastMonth) :
    ∃ rows', simulate (month m) price p anchor left k rows = .ok rows' := by
  induction left generalizing k rows with
  | zero => exact ⟨rows, rfl⟩
  | succ left ih =>
      have hbelow : (dateOf anchor).monthIndex + p * k < 120000 := by
        rcases hk with rfl | hk
        · exact monthIndex_lt hrange
        · omega
      have hcurrent := addMonthsFromAnchor_eq_ok.mpr ⟨hbelow, rfl⟩
      by_cases hend : m + 1 < 120000
      · have hstop := firstInstant_month hend
        obtain ⟨-, hlate⟩ := stop_cases hrange hcurrent hstop hm
        simp only [simulate, hcurrent, hstop, bind, Except.bind]
        split
        next => exact ⟨rows, rfl⟩
        next hgo =>
          refine ih (k + 1) (.inr ?_) _
          by_contra hfar
          rw [Nat.mul_succ] at hfar
          exact hgo (hlate (by omega))
      · omega

theorem simulate_error {e : Failure} (left k : Nat) (rows : List ForecastMonth)
    (h : simulate (month m) price p anchor left k rows = .error e) : e = outOfRange := by
  induction left generalizing k rows with
  | zero => cases h
  | succ left ih =>
      rw [simulate] at h
      by_cases hcurrent : (dateOf anchor).monthIndex + p * k < 120000
      · rw [addMonthsFromAnchor_eq_ok.mpr ⟨hcurrent, rfl⟩] at h
        by_cases hend : m + 1 < 120000
        · rw [firstInstant_month hend] at h
          simp only [bind, Except.bind] at h
          split at h
          next => cases h
          next => exact ih _ _ h
        · rw [firstInstant_late (Nat.le_of_not_lt hend)] at h
          exact (Except.error.inj h).symm
      · rw [addMonthsFromAnchor_error (Nat.le_of_not_lt hcurrent)] at h
        exact (Except.error.inj h).symm

theorem simulate_rows {last : Month} (left k : Nat) (rows rows₂ : List ForecastMonth)
    (h : ∃ rows', simulate last price p anchor left k rows = .ok rows') :
    ∃ rows', simulate last price p anchor left k rows₂ = .ok rows' := by
  induction left generalizing k rows rows₂ with
  | zero => exact ⟨rows₂, rfl⟩
  | succ left ih =>
      obtain ⟨rows', h⟩ := h
      simp only [simulate, bind_eq_ok] at h
      obtain ⟨current, hcurrent, stop, hstop, h⟩ := h
      simp only [simulate, hcurrent, hstop, bind, Except.bind]
      split at h
      next hbreak => exact ⟨rows₂, by rw [if_pos hbreak]⟩
      next hgo =>
        rw [if_neg hgo]
        exact ih (k + 1) _ _ ⟨rows', h⟩

end Renewals

section Terminals

variable {asOf : Int} {last : Month} {m : Nat} {ts ts' : List TerminalBillingResult} {t : TerminalBillingResult}
  {rows rows' : List ForecastMonth}

noncomputable def renewalsIn (t : TerminalBillingResult) (m : Month) : Nat :=
  match t.licenseExpiresAt with
  | none => 0
  | some anchor =>
      Set.ncard {k | ∃ d, addMonthsFromAnchor anchor (t.billingPeriodMonths * k) = .ok d ∧ monthOf d = m}

def Expiring (asOf : Int) (t : TerminalBillingResult) : Prop :=
  counted t = true → 1 ≤ t.billingPeriodMonths ∧ ∃ anchor, t.licenseExpiresAt = some anchor ∧ InRange anchor ∧ asOf < anchor

theorem monthIndex_le {anchor : Int} (hasOf : InRange asOf) (hrange : InRange anchor) (hlater : asOf < anchor) :
    (dateOf asOf).monthIndex ≤ (dateOf anchor).monthIndex := by
  by_contra hless
  have hordinal := Date.toOrdinal_lt _ _ (dateOf_valid hrange) (dateOf_valid hasOf) (Nat.lt_of_not_le hless)
  have hsplit := toOrdinal_dateOf hrange
  have hsplit' := toOrdinal_dateOf hasOf
  simp only [dayMicros] at hsplit hsplit'
  omega

theorem hits_renewals {anchor : Int} {i : Nat} {row : ForecastMonth} (hrange : InRange anchor)
    (hlicense : t.licenseExpiresAt = some anchor) (hp : 1 ≤ t.billingPeriodMonths)
    (hnear : i ≤ (dateOf anchor).monthIndex + 2) (hi : i < 120000) (hrow : row.month = month i) :
    hits (dateOf anchor).monthIndex t.billingPeriodMonths 0 24 row = renewalsIn t row.month := by
  rw [renewalsIn, hlicense]
  dsimp only
  rw [hits, ← Set.ncard_coe_finset]
  congr 1
  ext k
  simp only [Finset.coe_filter, Finset.mem_Ico, Set.mem_ofPred_eq, hrow]
  constructor
  · rintro ⟨-, hmonth⟩
    have hindex := month_injective hmonth
    have hok := addMonthsFromAnchor_eq_ok.mpr
      ⟨show (dateOf anchor).monthIndex + t.billingPeriodMonths * k < 120000 by omega, rfl⟩
    exact ⟨_, hok, (monthOf_moved hrange hok).trans hmonth⟩
  · rintro ⟨d, hd, hmonth⟩
    rw [monthOf_moved hrange hd] at hmonth
    have hindex := month_injective hmonth
    have hmul : k ≤ t.billingPeriodMonths * k := Nat.le_mul_of_pos_left k hp
    exact ⟨by omega, hmonth⟩

noncomputable def summed (ts : List TerminalBillingResult) (row : ForecastMonth) : ForecastMonth :=
  { row with
    amountMinor := row.amountMinor + ((ts.filter counted).map fun t => t.periodPriceMinor * renewalsIn t row.month).sum
    terminalCount := row.terminalCount + ((ts.filter counted).map fun t => renewalsIn t row.month).sum }

example (h : t.licenseExpiresAt = none) : counted t = false := by simp [counted, h]

theorem addTerminal_uncounted (h : counted t = false) : addTerminal last rows t = .ok rows := by
  rw [addTerminal]
  split
  next => rfl
  next hincluded =>
    split
    next => rfl
    next hstandard =>
      split
      next => rfl
      next anchor hlicense =>
        simp only [counted, hlicense, Option.isSome_some, Bool.and_true] at h
        simp_all

theorem addTerminal_counted {anchor : Int} (h : counted t = true) (hlicense : t.licenseExpiresAt = some anchor) :
    addTerminal last rows t = simulate last t.periodPriceMinor t.billingPeriodMonths anchor 24 0 rows := by
  simp only [counted, Bool.and_eq_true, bne_iff_ne, ne_eq] at h
  rw [addTerminal, if_neg (by simp [h.1.1.1]), if_neg (not_or.mpr ⟨h.1.1.2, h.1.2⟩), hlicense]

theorem addTerminal_error {e : Failure} (h : addTerminal (month m) rows t = .error e) : e = outOfRange := by
  cases hcounted : counted t with
  | false =>
      rw [addTerminal_uncounted hcounted] at h
      cases h
  | true =>
      have hlicense := hcounted
      simp only [counted, Bool.and_eq_true] at hlicense
      obtain ⟨anchor, hanchor⟩ := Option.isSome_iff_exists.mp hlicense.2
      rw [addTerminal_counted hcounted hanchor] at h
      exact simulate_error _ _ _ h

theorem addTerminal_rows (rows₂ : List ForecastMonth) (h : ∃ rows', addTerminal last rows t = .ok rows') :
    ∃ rows', addTerminal last rows₂ t = .ok rows' := by
  cases hcounted : counted t with
  | false => exact ⟨rows₂, addTerminal_uncounted hcounted⟩
  | true =>
      have hlicense := hcounted
      simp only [counted, Bool.and_eq_true] at hlicense
      obtain ⟨anchor, hanchor⟩ := Option.isSome_iff_exists.mp hlicense.2
      rw [addTerminal_counted hcounted hanchor] at h ⊢
      exact simulate_rows _ _ _ _ h

theorem fold_returns (ts : List TerminalBillingResult) (rows : List ForecastMonth) :
    (∃ rows', ts.foldlM (addTerminal (month m)) rows = .ok rows') ↔
      ∀ t ∈ ts, ∃ rows', addTerminal (month m) [] t = .ok rows' := by
  induction ts generalizing rows with
  | nil => exact ⟨fun _ t ht => absurd ht List.not_mem_nil, fun _ => ⟨rows, rfl⟩⟩
  | cons t ts ih =>
      simp only [List.foldlM_cons, bind_eq_ok, List.forall_mem_cons]
      constructor
      · rintro ⟨rows', first, hfirst, hrest⟩
        exact ⟨addTerminal_rows [] ⟨first, hfirst⟩, (ih first).mp ⟨rows', hrest⟩⟩
      · rintro ⟨hfirst, hrest⟩
        obtain ⟨first, hfirst⟩ := addTerminal_rows rows hfirst
        obtain ⟨rows', hrest⟩ := (ih first).mpr hrest
        exact ⟨rows', first, hfirst, hrest⟩

theorem fold_error {e : Failure} (ts : List TerminalBillingResult) (rows : List ForecastMonth)
    (h : ts.foldlM (addTerminal (month m)) rows = .error e) : e = outOfRange := by
  induction ts generalizing rows with
  | nil => cases h
  | cons t ts ih =>
      rw [List.foldlM_cons] at h
      cases hfirst : addTerminal (month m) rows t with
      | error e' =>
          rw [hfirst] at h
          obtain rfl := Except.error.inj h
          exact addTerminal_error hfirst
      | ok first =>
          rw [hfirst] at h
          exact ih first h

theorem fold_sums (hts : ∀ t ∈ ts, Expiring asOf t) (hasOf : InRange asOf) (hm : m = (dateOf asOf).monthIndex + 2)
    (hlt : m < 120000) (hrows : ∀ row ∈ rows, ∃ i ≤ m, row.month = month i)
    (h : ts.foldlM (addTerminal (month m)) rows = .ok rows') : rows' = rows.map (summed ts) := by
  have htwelve : 12 ≤ m := by
    have := (dateOf asOf).monthIndex_ge (dateOf_valid hasOf)
    omega
  induction ts generalizing rows with
  | nil =>
      obtain rfl := Except.ok.inj h
      refine (List.map_id rows).symm.trans (List.map_congr_left fun row _ => ?_)
      simp [summed]
  | cons t ts ih =>
      rw [List.foldlM_cons, bind_eq_ok] at h
      obtain ⟨first, hfirst, hrest⟩ := h
      obtain ⟨ht, hts⟩ := List.forall_mem_cons.mp hts
      cases hcounted : counted t with
      | false =>
          rw [addTerminal_uncounted hcounted] at hfirst
          obtain rfl := Except.ok.inj hfirst
          rw [ih hts hrows hrest]
          refine List.map_congr_left fun row _ => ?_
          simp [summed, hcounted]
      | true =>
          obtain ⟨hp, anchor, hlicense, hrange, hlater⟩ := ht hcounted
          rw [addTerminal_counted hcounted hlicense] at hfirst
          have hraised := simulate_raises hrange htwelve 24 0 hrows hfirst
          have hmonths : ∀ row ∈ first, ∃ i ≤ m, row.month = month i := by
            intro row hrow
            rw [hraised] at hrow
            obtain ⟨row', hrow', rfl⟩ := List.mem_map.mp hrow
            exact hrows row' hrow'
          rw [ih hts hmonths hrest, hraised, List.map_map]
          refine List.map_congr_left fun row hrow => ?_
          obtain ⟨i, hi, hmonth⟩ := hrows row hrow
          have hindex := monthIndex_le hasOf hrange hlater
          have hcount := hits_renewals hrange hlicense hp (i := i) (by omega) (by omega) hmonth
          simp only [Function.comp_apply, summed, raised, hcount, hcounted, List.filter_cons, if_true, List.map_cons,
            List.sum_cons, ForecastMonth.mk.injEq, true_and]
          exact ⟨by ring, by ring⟩

theorem buildOrgForecast_months (hasOf : InRange asOf) (ts : List TerminalBillingResult) :
    buildOrgForecast ts asOf =
      if (dateOf asOf).monthIndex + 2 < 120000 then
        ts.foldlM (addTerminal (month ((dateOf asOf).monthIndex + 2)))
          ([0, 1, 2].map fun i => ⟨month ((dateOf asOf).monthIndex + i), 0, 0⟩)
      else .error outOfRange := by
  have hnow := monthIndex_lt hasOf
  have hfirst : addMonthsFromAnchor asOf 0 = .ok _ := addMonthsFromAnchor_eq_ok.mpr ⟨hnow, rfl⟩
  rw [buildOrgForecast, hfirst]
  by_cases hsecond : (dateOf asOf).monthIndex + 1 < 120000
  · have hsecond' := addMonthsFromAnchor_eq_ok.mpr ⟨hsecond, rfl⟩
    rw [hsecond']
    by_cases hthird : (dateOf asOf).monthIndex + 2 < 120000
    · have hthird' := addMonthsFromAnchor_eq_ok.mpr ⟨hthird, rfl⟩
      rw [hthird', if_pos hthird]
      simp only [bind, Except.bind, monthOf_moved hasOf hfirst, monthOf_moved hasOf hsecond', monthOf_moved hasOf hthird',
        List.map_cons, List.map_nil]
    · rw [addMonthsFromAnchor_error (Nat.le_of_not_lt hthird), if_neg hthird]
      rfl
  · rw [addMonthsFromAnchor_error (Nat.le_of_not_lt hsecond), if_neg (by omega)]
    rfl

noncomputable def forecastOf (ts : List TerminalBillingResult) (m : Month) : ForecastMonth where
  month := m
  amountMinor := ((ts.filter counted).map fun t => t.periodPriceMinor * renewalsIn t m).sum
  terminalCount := ((ts.filter counted).map fun t => renewalsIn t m).sum

theorem buildOrgForecast_sums (hasOf : InRange asOf) (hts : ∀ t ∈ ts, Expiring asOf t)
    (h : buildOrgForecast ts asOf = .ok rows) :
    rows = [0, 1, 2].map fun i => forecastOf ts (month ((dateOf asOf).monthIndex + i)) := by
  rw [buildOrgForecast_months hasOf] at h
  split at h
  next hlt =>
    rw [fold_sums hts hasOf rfl hlt ?_ h]
    · simp [summed, forecastOf]
    · intro row hrow
      obtain ⟨i, hi, rfl⟩ := List.mem_map.mp hrow
      refine ⟨_, ?_, rfl⟩
      have : i ≤ 2 := by
        simp only [List.mem_cons, List.not_mem_nil, or_false] at hi
        omega
      omega
  next => cases h

theorem buildOrgForecast_error {e : Failure} (hasOf : InRange asOf) (h : buildOrgForecast ts asOf = .error e) :
    e = outOfRange := by
  rw [buildOrgForecast_months hasOf] at h
  split at h
  next => exact fold_error ts _ h
  next => exact (Except.error.inj h).symm

theorem forecastOf_perm (h : ts.Perm ts') (m : Month) : forecastOf ts m = forecastOf ts' m := by
  have hcounted := h.filter counted
  rw [forecastOf, forecastOf, (hcounted.map fun t => t.periodPriceMinor * (renewalsIn t m : Int)).sum_eq,
    (hcounted.map fun t => renewalsIn t m).sum_eq]

theorem buildOrgForecast_perm (hasOf : InRange asOf) (hts : ∀ t ∈ ts, Expiring asOf t) (h : ts.Perm ts') :
    buildOrgForecast ts asOf = buildOrgForecast ts' asOf := by
  have hts' : ∀ t ∈ ts', Expiring asOf t := fun t ht => hts t (h.mem_iff.mpr ht)
  have hboth : (∃ rows, buildOrgForecast ts asOf = .ok rows) ↔ ∃ rows, buildOrgForecast ts' asOf = .ok rows := by
    rw [buildOrgForecast_months hasOf, buildOrgForecast_months hasOf]
    split
    next => simp only [fold_returns, h.mem_iff]
    next => rfl
  cases hresult : buildOrgForecast ts asOf with
  | ok rows =>
      obtain ⟨rows', hresult'⟩ := hboth.mp ⟨rows, hresult⟩
      rw [hresult', buildOrgForecast_sums hasOf hts hresult, buildOrgForecast_sums hasOf hts' hresult']
      simp only [forecastOf_perm h]
  | error e =>
      cases hresult' : buildOrgForecast ts' asOf with
      | ok rows' =>
          obtain ⟨rows, hok⟩ := hboth.mpr ⟨rows', hresult'⟩
          rw [hresult] at hok
          cases hok
      | error e' => rw [buildOrgForecast_error hasOf hresult, buildOrgForecast_error hasOf hresult']

theorem buildOrgForecast_returns (hasOf : InRange asOf) (hts : ∀ t ∈ ts, Expiring asOf t)
    (hlt : (dateOf asOf).monthIndex + 2 < 120000)
    (hyears : ∀ t ∈ ts, counted t = true → (dateOf asOf).monthIndex + 4 + t.billingPeriodMonths ≤ 120000) :
    ∃ rows, buildOrgForecast ts asOf = .ok rows := by
  have htwelve := (dateOf asOf).monthIndex_ge (dateOf_valid hasOf)
  rw [buildOrgForecast_months hasOf, if_pos hlt, fold_returns]
  intro t ht
  cases hcounted : counted t with
  | false => exact ⟨[], addTerminal_uncounted hcounted⟩
  | true =>
      obtain ⟨-, anchor, hlicense, hrange, -⟩ := hts t ht hcounted
      rw [addTerminal_counted hcounted hlicense]
      exact simulate_returns hrange (by omega) (hyears t ht hcounted) 24 0 (.inl rfl) []

/-- Periods due and forecasts agree with the calendar as far as it goes: the
number of periods is the least that moves the expiry past the time, and the rows
of the next three months hold each renewal of the terminals in that month, in
whatever order they come. Where a date lies past the year 9999 the call raises. -/
theorem periods_and_forecast {expiresAt : Int} (now : Int) {period : Int} {fuel : Nat} (hexpires : InRange expiresAt)
    (hperiod : 1 ≤ period) (hfuel : 120000 < fuel) (hasOf : InRange asOf) (hts : ∀ t ∈ ts, Expiring asOf t) :
    ((∃ k, calculatePeriodsDue expiresAt now fuel period = some (.ok k) ∧ FirstAfter expiresAt now period.toNat k) ∨
      (calculatePeriodsDue expiresAt now fuel period = some (.error outOfRange) ∧
        ∀ k d, addMonthsFromAnchor expiresAt (period.toNat * k) = .ok d → d ≤ now)) ∧
    ((∃ rows, buildOrgForecast ts asOf = .ok rows ∧
        rows = [0, 1, 2].map fun i => forecastOf ts (month ((dateOf asOf).monthIndex + i))) ∨
      buildOrgForecast ts asOf = .error outOfRange) ∧
    ((dateOf asOf).monthIndex + 2 < 120000 →
      (∀ t ∈ ts, counted t = true → (dateOf asOf).monthIndex + 4 + t.billingPeriodMonths ≤ 120000) →
      ∃ rows, buildOrgForecast ts asOf = .ok rows) ∧
    ∀ ts', ts.Perm ts' → buildOrgForecast ts asOf = buildOrgForecast ts' asOf := by
  refine ⟨periodsDue_least hexpires hperiod fuel hfuel, ?_, buildOrgForecast_returns hasOf hts,
    fun ts' => buildOrgForecast_perm hasOf hts⟩
  cases hresult : buildOrgForecast ts asOf with
  | ok rows => exact .inl ⟨rows, rfl, buildOrgForecast_sums hasOf hts hresult⟩
  | error e => exact .inr (by rw [buildOrgForecast_error hasOf hresult])

end Terminals

section Sample

def sampleExpiry : Int := 739647 * dayMicros

def sampleTerminal : TerminalBillingResult := ⟨true, "standard", some sampleExpiry, 500, 1⟩

theorem sample_expiring : ∀ t ∈ [sampleTerminal], Expiring (739646 * dayMicros) t := by
  intro t ht _
  rw [List.mem_singleton.mp ht]
  exact ⟨Nat.le_refl 1, sampleExpiry, rfl, by decide, by decide⟩

theorem periods_and_forecast_sample :
    (∃ k, calculatePeriodsDue sampleExpiry (739647 * dayMicros) 120001 1 = some (.ok k) ∧
      FirstAfter sampleExpiry (739647 * dayMicros) 1 k) ∧
    ∃ rows, buildOrgForecast [sampleTerminal] (739646 * dayMicros) = .ok rows ∧
      rows = [0, 1, 2].map fun i => forecastOf [sampleTerminal] (month ((dateOf (739646 * dayMicros)).monthIndex + i)) := by
  have hexpires : InRange sampleExpiry := by decide
  have hperiod : (1 : Int) ≤ 1 := by decide
  have hfuel : 120000 < 120001 := by decide
  obtain ⟨hdue, hforecast, -, -⟩ := periods_and_forecast (739647 * dayMicros) hexpires hperiod hfuel
    (by decide) sample_expiring
  refine ⟨hdue.resolve_right fun h => ?_, hforecast.resolve_right fun h => ?_⟩
  · exact absurd h.1 (by decide +kernel)
  · exact absurd h (by decide +kernel)

/-- In the last month of the calendar there is no date of a renewal. -/
theorem last_month_raises :
    InRange (3652029 * dayMicros) ∧ InRange (3652040 * dayMicros) ∧
      calculatePeriodsDue (3652029 * dayMicros) (3652040 * dayMicros) 120001 1 = some (.error outOfRange) ∧
      buildOrgForecast [] (3652029 * dayMicros) = .error outOfRange := by
  refine ⟨by decide, by decide, by decide +kernel, by decide +kernel⟩

end Sample

end EtranProcessing.Billing.Forecast
