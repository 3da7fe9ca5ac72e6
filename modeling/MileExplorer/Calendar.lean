import Mathlib.Algebra.Order.Ring.Int
import Mathlib.Data.Nat.Find
import Mathlib.Tactic.Ring

/-!
# The Gregorian calendar

Days are numbered from the first day of the year 0, before which years and
days go on with negative numbers.  A year begins after the years before it and
a month after the months before it, so the date of a day is found by looking
for the last year and then the last month that has begun.
-/

namespace MileExplorer

namespace Calendar

/-- The last of the places up to `bound` that begins no later than `day`. -/
def locate (start : Nat → Int) (bound : Nat) (day : Int) : Nat :=
  Nat.findGreatest (fun place => start place ≤ day) bound

theorem locate_spec {start : Nat → Int} {bound : Nat} {day : Int} (first : start 0 ≤ day)
    (last : day < start (bound + 1)) :
    locate start bound day ≤ bound ∧ start (locate start bound day) ≤ day ∧
      day < start (locate start bound day + 1) := by
  have le : locate start bound day ≤ bound := Nat.findGreatest_le bound
  have begun : start (locate start bound day) ≤ day :=
    Nat.findGreatest_spec (P := fun place => start place ≤ day) (Nat.zero_le bound) first
  refine ⟨le, begun, ?_⟩
  rcases eq_or_lt_of_le le with atEnd | before
  · rw [atEnd]
    exact last
  · exact not_le.mp (Nat.findGreatest_is_greatest (Nat.lt_succ_self _) before)

/-! ## Years -/

def isLeap (year : Int) : Bool :=
  (year % 4 = 0 && year % 100 ≠ 0) || year % 400 = 0

def yearLength (year : Int) : Int := if isLeap year then 366 else 365

/-- The first day of a year.  There is a leap day in the year 0. -/
def yearStart (year : Int) : Int :=
  365 * year + (year + 3) / 4 - (year + 99) / 100 + (year + 399) / 400

theorem yearStart_succ (year : Int) : yearStart (year + 1) = yearStart year + yearLength year := by
  unfold yearStart yearLength isLeap
  by_cases fourth : year % 4 = 0
  · by_cases hundredth : year % 100 = 0
    · by_cases fourHundredth : year % 400 = 0
      · simp only [fourHundredth, decide_true, Bool.or_true, if_true]
        omega
      · simp only [hundredth, fourHundredth, ne_eq, not_true_eq_false, decide_false,
          Bool.and_false, Bool.or_false, Bool.false_eq_true, if_false]
        omega
    · simp only [fourth, hundredth, ne_eq, not_false_eq_true, decide_true, Bool.and_true,
        Bool.true_or, if_true]
      omega
  · have notFourHundredth : ¬ year % 400 = 0 := by omega
    simp only [fourth, notFourHundredth, decide_false, Bool.false_and, Bool.or_false,
      Bool.false_eq_true, if_false]
    omega

theorem yearStart_mono {first second : Int} (before : first ≤ second) :
    yearStart first ≤ yearStart second := by
  unfold yearStart
  omega

theorem yearStart_era (era year : Int) :
    yearStart (400 * era + year) = 146097 * era + yearStart year := by
  unfold yearStart
  omega

/-! ## Months -/

def monthLength (leap : Bool) : Nat → Int
  | 1 => if leap then 29 else 28
  | 3 | 5 | 8 | 10 => 30
  | _ => 31

def monthStart (leap : Bool) : Nat → Int
  | 0 => 0
  | month + 1 => monthStart leap month + monthLength leap month

theorem monthStart_year (year : Int) : monthStart (isLeap year) 12 = yearLength year := by
  unfold yearLength
  cases isLeap year <;> rfl

theorem monthLength_le (leap : Bool) (month : Nat) : monthLength leap month ≤ 31 := by
  unfold monthLength
  split
  · cases leap <;> decide
  all_goals decide

/-! ## Dates -/

/-- A year, a month counted from 0 and a day counted from 1. -/
structure Date where
  year : Int
  month : Nat
  day : Int
  deriving DecidableEq, Repr

def Date.number (date : Date) : Int :=
  yearStart date.year + monthStart (isLeap date.year) date.month + (date.day - 1)

/-- The year of a day, by eras of four hundred years. -/
def yearOf (day : Int) : Int :=
  400 * (day / 146097) + locate (fun year => yearStart year) 399 (day % 146097)

def monthOf (day : Int) : Nat :=
  locate (monthStart (isLeap (yearOf day))) 11 (day - yearStart (yearOf day))

def dateOf (day : Int) : Date :=
  ⟨yearOf day, monthOf day,
    day - yearStart (yearOf day) - monthStart (isLeap (yearOf day)) (monthOf day) + 1⟩

theorem yearOf_spec (day : Int) :
    yearStart (yearOf day) ≤ day ∧ day < yearStart (yearOf day + 1) := by
  have first : yearStart ((0 : Nat) : Int) ≤ day % 146097 := by
    have start : yearStart ((0 : Nat) : Int) = 0 := by decide
    omega
  have last : day % 146097 < yearStart ((399 + 1 : Nat) : Int) := by
    have ending : yearStart ((399 + 1 : Nat) : Int) = 146097 := by decide
    omega
  obtain ⟨-, begun, notOver⟩ :=
    @locate_spec (fun year => yearStart year) 399 (day % 146097) first last
  have split := Int.mul_ediv_add_emod day 146097
  constructor
  · rw [yearOf, yearStart_era]
    omega
  · rw [yearOf, add_assoc, yearStart_era]
    push_cast at notOver
    omega

theorem monthOf_spec (day : Int) :
    monthOf day ≤ 11 ∧
      monthStart (isLeap (yearOf day)) (monthOf day) ≤ day - yearStart (yearOf day) ∧
      day - yearStart (yearOf day) < monthStart (isLeap (yearOf day)) (monthOf day + 1) := by
  obtain ⟨begun, notOver⟩ := yearOf_spec day
  apply locate_spec
  · change (0 : Int) ≤ _
    omega
  · rw [monthStart_year]
    rw [yearStart_succ] at notOver
    omega

theorem number_dateOf (day : Int) : (dateOf day).number = day := by
  unfold dateOf Date.number
  ring

theorem dateOf_month_le (day : Int) : (dateOf day).month ≤ 11 := (monthOf_spec day).1

theorem dateOf_day_bounds (day : Int) : 1 ≤ (dateOf day).day ∧ (dateOf day).day ≤ 31 := by
  obtain ⟨-, begun, notOver⟩ := monthOf_spec day
  have short := monthLength_le (isLeap (yearOf day)) (monthOf day)
  rw [monthStart] at notOver
  unfold dateOf
  dsimp only
  omega

theorem dateOf_year_bounds {first last day : Int} (after : yearStart first ≤ day)
    (before : day < yearStart last) : first ≤ (dateOf day).year ∧ (dateOf day).year < last := by
  obtain ⟨begun, notOver⟩ := yearOf_spec day
  constructor
  · by_contra early
    have mono := @yearStart_mono (yearOf day + 1) first (not_le.mp early)
    omega
  · by_contra late
    have mono := @yearStart_mono last (yearOf day) (not_lt.mp late)
    omega

end Calendar

end MileExplorer
