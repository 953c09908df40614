import EtranProcessing.Library.Rounding

namespace EtranProcessing.Metering.LocalDays

open Library.Rounding

/-! Instants and wall times are microseconds since the midnight of date.min,
dates are days since date.min. -/

def day : Int := 86400000000

def lastDate : Int := 3652058

/-- A time zone of PEP 495. The wall times that no instant shows lie between two
instants, and keep the offset of the first. -/
structure Zone where
  utcoffset : Int → Int
  toUtc : Int → Int
  bounded : ∀ t, |utcoffset t| < day
  fold0 : ∀ wall, (toUtc wall + utcoffset (toUtc wall) = wall ∧ ∀ t, t + utcoffset t = wall → toUtc wall ≤ t) ∨
    ((∀ t, t + utcoffset t ≠ wall) ∧ ∃ t, t - 1 + utcoffset (t - 1) < wall ∧ wall < t + utcoffset t ∧
      toUtc wall = wall - utcoffset (t - 1))

def Zone.wall (tz : Zone) (t : Int) : Int := t + tz.utcoffset t

def Zone.date (tz : Zone) (t : Int) : Int := tz.wall t / day

inductive Failure
  | overflowError | running
  deriving DecidableEq

def inRange (t : Int) : Except Failure Int :=
  if 0 ≤ t ∧ t < (lastDate + 1) * day then .ok t else .error .overflowError

def dateInRange (d : Int) : Except Failure Int := if 0 ≤ d ∧ d ≤ lastDate then .ok d else .error .overflowError

def totalSeconds (micros : Int) : ℚ := nearest 52 (micros / 1000000)

/-- The while loop, one day a turn. -/
def splitLoop (tz : Zone) (start stop : Int) : Nat → Int → Int → Except Failure (List (Int × Int))
  | 0, _, _ => .error .running
  | fuel + 1, cursor, assigned =>
      if cursor < stop then do
        let here ← inRange (tz.wall cursor)
        let currDate := here / day
        let nextDay ← dateInRange (currDate + 1)
        let midnight ← inRange (tz.toUtc (nextDay * day))
        let nextBoundary := min stop midnight
        let cumulative := roundEven (totalSeconds (nextBoundary - start))
        let seconds := cumulative - assigned
        let chunks ← splitLoop tz start stop fuel nextBoundary cumulative
        .ok (if 0 < seconds then (currDate, seconds) :: chunks else chunks)
      else .ok []

def splitIntervalByLocalDays (tz : Zone) (fuel : Nat) (start stop : Int) : Except Failure (List (Int × Int)) :=
  if stop ≤ start then .ok [] else splitLoop tz start stop fuel start 0

theorem roundedSeconds_monotone {t u : Int} (h : t ≤ u) : roundEven (totalSeconds t) ≤ roundEven (totalSeconds u) := by
  apply roundEven_monotone
  apply nearest_monotone
  have hcast : (t : ℚ) ≤ u := by exact_mod_cast h
  linarith

theorem roundedSeconds_zero : roundEven (totalSeconds 0) = 0 := by
  have hzero : totalSeconds 0 = ((0 : ℤ) : ℚ) := by simp [totalSeconds]
  rw [hzero, roundEven_intCast]

section Progress

variable {tz : Zone}

theorem day_pos : 0 < day := by decide

theorem date_le_iff {t d : Int} : d ≤ tz.date t ↔ d * day ≤ tz.wall t := Int.le_ediv_iff_mul_le day_pos

theorem next_midnight (hmono : Monotone tz.date) (t : Int) :
    t < tz.toUtc ((tz.date t + 1) * day) ∧ tz.date t < tz.date (tz.toUtc ((tz.date t + 1) * day)) := by
  have before {s : Int} (h : tz.wall s < (tz.date t + 1) * day) : tz.date s ≤ tz.date t := by
    apply Int.le_of_not_gt
    intro hlater
    exact absurd (date_le_iff.mp hlater) (not_le.mpr h)
  have after {s : Int} (h : (tz.date t + 1) * day ≤ tz.wall s) : t < s ∧ tz.date t < tz.date s := by
    have hdate : tz.date t < tz.date s := date_le_iff.mpr h
    refine ⟨?_, hdate⟩
    apply Int.lt_of_not_ge
    intro hs
    exact absurd (hmono hs) (not_le.mpr hdate)
  obtain ⟨hexact, -⟩ | ⟨-, s, hbefore, hafter, hutc⟩ := tz.fold0 ((tz.date t + 1) * day)
  · exact after hexact.ge
  · have hs := after (s := s) hafter.le
    have hreach : s ≤ tz.toUtc ((tz.date t + 1) * day) := by omega
    exact ⟨hs.1.trans_le hreach, hs.2.trans_le (hmono hreach)⟩

theorem toUtc_le (wall : Int) : tz.toUtc wall < wall + day := by
  obtain ⟨hexact, -⟩ | ⟨-, s, -, -, hutc⟩ := tz.fold0 wall
  · have := (abs_lt.mp (tz.bounded (tz.toUtc wall))).1
    omega
  · have := (abs_lt.mp (tz.bounded (s - 1))).1
    omega

end Progress

theorem splitLoop_day {tz : Zone} (hmono : Monotone tz.date) {start stop cursor : Int} (hcursor : cursor < stop)
    (hstart : 0 ≤ cursor) (hfirst : 0 ≤ tz.date cursor) (hlast : tz.date cursor < lastDate) (fuel : Nat)
    (assigned : Int) :
    splitLoop tz start stop (fuel + 1) cursor assigned =
      let boundary := min stop (tz.toUtc ((tz.date cursor + 1) * day))
      let cumulative := roundEven (totalSeconds (boundary - start))
      (splitLoop tz start stop fuel boundary cumulative).map fun chunks =>
        if 0 < cumulative - assigned then (tz.date cursor, cumulative - assigned) :: chunks else chunks := by
  have hwall : inRange (tz.wall cursor) = .ok (tz.wall cursor) := by
    have hlow := (date_le_iff (d := 0)).mp hfirst
    have hhigh : ¬ lastDate * day ≤ tz.wall cursor := fun h => absurd (date_le_iff.mpr h) (not_le.mpr hlast)
    rw [inRange, if_pos]
    rw [lastDate, day] at *
    omega
  have hnext : dateInRange (tz.wall cursor / day + 1) = .ok (tz.date cursor + 1) := by
    rw [dateInRange, if_pos]
    · rfl
    · change 0 ≤ tz.date cursor + 1 ∧ tz.date cursor + 1 ≤ lastDate
      omega
  have hmidnight : inRange (tz.toUtc ((tz.date cursor + 1) * day)) = .ok (tz.toUtc ((tz.date cursor + 1) * day)) := by
    have hlater := (next_midnight hmono cursor).1
    have hbound := @toUtc_le tz ((tz.date cursor + 1) * day)
    rw [inRange, if_pos]
    rw [lastDate, day] at *
    omega
  rw [splitLoop, if_pos hcursor, hwall]
  simp only [bind, Except.bind, hnext, hmidnight]
  cases splitLoop tz start stop fuel (min stop (tz.toUtc ((tz.date cursor + 1) * day)))
    (roundEven (totalSeconds (min stop (tz.toUtc ((tz.date cursor + 1) * day)) - start))) with
  | error failure => rfl
  | ok chunks => rfl

/-- What is left of the interval from a cursor on, in days that follow it. -/
structure Splits (tz : Zone) (cursor : Int) (total : Int) (chunks : List (Int × Int)) : Prop where
  positive : ∀ chunk ∈ chunks, 0 < chunk.2
  later : ∀ chunk ∈ chunks, tz.date cursor ≤ chunk.1
  ordered : chunks.Pairwise fun a b => a.1 < b.1
  sum : (chunks.map Prod.snd).sum = total

theorem splitLoop_splits {tz : Zone} (hmono : Monotone tz.date) {start stop : Int}
    (hlast : tz.date (stop - 1) < lastDate) (fuel : Nat) (cursor : Int) (hstart : start ≤ cursor)
    (hpositive : 0 ≤ start) (hfirst : 0 ≤ tz.date start) (hcursor : cursor ≤ stop) (assigned : Int)
    (hassigned : assigned = roundEven (totalSeconds (cursor - start)))
    (hfuel : cursor < stop → (tz.date (stop - 1) - tz.date cursor).toNat + 1 < fuel) (hsome : 0 < fuel) :
    ∃ chunks, splitLoop tz start stop fuel cursor assigned = .ok chunks ∧
      Splits tz cursor (roundEven (totalSeconds (stop - start)) - assigned) chunks := by
  induction fuel generalizing cursor assigned with
  | zero => omega
  | succ fuel ih =>
      by_cases hmore : cursor < stop
      · have hhere : tz.date cursor ≤ tz.date (stop - 1) := hmono (by omega)
        have hbegun : 0 ≤ tz.date cursor := hfirst.trans (hmono hstart)
        obtain ⟨hmidnight, hnext⟩ := next_midnight hmono cursor
        have hspare := hfuel hmore
        rw [splitLoop_day hmono hmore (by omega) hbegun (by omega)]
        dsimp only
        generalize tz.toUtc ((tz.date cursor + 1) * day) = midnight at hmidnight hnext ⊢
        have hboundary : cursor < min stop midnight := lt_min hmore hmidnight
        obtain ⟨chunks, hrest, hsplits⟩ := ih (min stop midnight) (by omega) (min_le_left _ _) _ rfl
          (by
            intro hbefore
            have hreached : min stop midnight = midnight := by omega
            rw [hreached] at hbefore ⊢
            have hwithin : tz.date midnight ≤ tz.date (stop - 1) := hmono (by omega)
            omega)
          (by omega)
        have hgrow : assigned ≤ roundEven (totalSeconds (min stop midnight - start)) := by
          rw [hassigned]
          exact roundedSeconds_monotone (by omega)
        have hlater : ∀ chunk ∈ chunks, tz.date cursor < chunk.1 := by
          intro chunk hchunk
          obtain hstop | hmid := min_choice stop midnight
          · -- the interval is used up, so nothing follows
            have hnone : chunks = [] := by
              obtain ⟨fuel, rfl⟩ : ∃ n, fuel = n + 1 := ⟨fuel - 1, by omega⟩
              rw [splitLoop, if_neg (by omega)] at hrest
              exact (Except.ok.inj hrest).symm
            rw [hnone] at hchunk
            exact absurd hchunk List.not_mem_nil
          · rw [hmid] at hsplits
            exact hnext.trans_le (hsplits.later chunk hchunk)
        rw [hrest]
        refine ⟨_, rfl, ?_⟩
        split
        next hseconds =>
          refine ⟨?_, ?_, ?_, ?_⟩
          · intro chunk hchunk
            obtain rfl | hchunk := List.mem_cons.mp hchunk
            · exact hseconds
            · exact hsplits.positive chunk hchunk
          · intro chunk hchunk
            obtain rfl | hchunk := List.mem_cons.mp hchunk
            · exact le_rfl
            · exact (hlater chunk hchunk).le
          · exact .cons hlater hsplits.ordered
          · rw [List.map_cons, List.sum_cons, hsplits.sum]
            omega
        next hseconds =>
          refine ⟨hsplits.positive, fun chunk hchunk => (hlater chunk hchunk).le, hsplits.ordered, ?_⟩
          rw [hsplits.sum]
          omega
      · have hend : cursor = stop := by omega
        refine ⟨[], by rw [splitLoop, if_neg hmore], by simp, by simp, .nil, ?_⟩
        rw [hassigned, hend]
        simp

theorem splitLoop_more {tz : Zone} {start stop : Int} (fuel : Nat) {more : Nat} (hmore : fuel ≤ more)
    (cursor assigned : Int) (chunks : List (Int × Int))
    (h : splitLoop tz start stop fuel cursor assigned = .ok chunks) :
    splitLoop tz start stop more cursor assigned = .ok chunks := by
  induction fuel generalizing more cursor assigned chunks with
  | zero => cases h
  | succ fuel ih =>
      obtain ⟨more, rfl⟩ : ∃ n, more = n + 1 := ⟨more - 1, by omega⟩
      rw [splitLoop] at h ⊢
      split at h
      next hcursor =>
        rw [if_pos hcursor]
        simp only [bind, Except.bind] at h ⊢
        split at h
        · cases h
        split at h
        · cases h
        split at h
        · cases h
        split at h
        · cases h
        next rest hrest =>
          rw [ih (by omega) _ _ rest hrest]
          exact h
      next hcursor =>
        rw [if_neg hcursor]
        exact h

/-- The loop ends and gives away exactly the rounded length of the interval, on
days in their order, as long as the day after each of them has a date. -/
theorem split_conserves (tz : Zone) (hmono : Monotone tz.date) {start stop : Int} (horder : start < stop)
    (hstart : 0 ≤ start) (hfirst : 0 ≤ tz.date start) (hlast : tz.date (stop - 1) < lastDate) :
    ∃ enough chunks, (∀ fuel, enough ≤ fuel → splitIntervalByLocalDays tz fuel start stop = .ok chunks) ∧
      (∀ chunk ∈ chunks, 0 < chunk.2) ∧ (chunks.Pairwise fun a b => a.1 < b.1) ∧
      (chunks.map Prod.snd).sum = roundEven (totalSeconds (stop - start)) := by
  have hzero : (0 : Int) = roundEven (totalSeconds (start - start)) := by rw [sub_self, roundedSeconds_zero]
  obtain ⟨chunks, hloop, hsplits⟩ := splitLoop_splits hmono hlast ((tz.date (stop - 1) - tz.date start).toNat + 2) start
    le_rfl hstart hfirst horder.le 0 hzero (by omega) (by omega)
  refine ⟨(tz.date (stop - 1) - tz.date start).toNat + 2, chunks, ?_, hsplits.positive, hsplits.ordered, ?_⟩
  · intro fuel hfuel
    rw [splitIntervalByLocalDays, if_neg horder.not_ge]
    exact splitLoop_more _ hfuel start 0 chunks hloop
  · rw [hsplits.sum, sub_zero]

/-- An hour is left out at the midnight that opens the tenth day. -/
def skippedMidnight : Zone where
  utcoffset t := if t < 10 * day then 0 else 3600000000
  toUtc wall := if wall < 10 * day + 3600000000 then wall else wall - 3600000000
  bounded t := by
    split <;> decide
  fold0 wall := by
    by_cases hgap : 10 * day ≤ wall ∧ wall < 10 * day + 3600000000
    · right
      refine ⟨?_, 10 * day, ?_, ?_, ?_⟩
      · intro t
        split <;> omega
      all_goals
        rw [day] at *
        simp
        omega
    · left
      constructor
      · split <;> split <;> omega
      · intro t
        split <;> split <;> omega

theorem skippedMidnight_monotone : Monotone skippedMidnight.date := by
  intro t u htu
  apply Int.ediv_le_ediv day_pos
  simp only [Zone.wall, skippedMidnight]
  split <;> split <;> omega

theorem split_conserves_skipped :
    ∃ enough chunks, (∀ fuel, enough ≤ fuel →
        splitIntervalByLocalDays skippedMidnight fuel (9 * day) (11 * day) = .ok chunks) ∧
      (∀ chunk ∈ chunks, 0 < chunk.2) ∧ (chunks.Pairwise fun a b => a.1 < b.1) ∧
      (chunks.map Prod.snd).sum = roundEven (totalSeconds (11 * day - 9 * day)) :=
  split_conserves skippedMidnight skippedMidnight_monotone (by decide) (by decide) (by decide) (by decide)

def utc : Zone where
  utcoffset _ := 0
  toUtc wall := wall
  bounded _ := by decide
  fold0 wall := .inl ⟨add_zero wall, fun t ht => by omega⟩

/-- The last day that has a date has none after it. -/
theorem last_date_overflows :
    Monotone utc.date ∧ ∀ fuel, splitIntervalByLocalDays utc (fuel + 1) (lastDate * day) (lastDate * day + 3600000000) =
      .error .overflowError := by
  constructor
  · intro t u htu
    apply Int.ediv_le_ediv day_pos
    simpa [Zone.wall, utc] using htu
  · intro fuel
    rfl

end EtranProcessing.Metering.LocalDays
