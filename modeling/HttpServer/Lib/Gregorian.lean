import Mathlib.Data.Int.Notation

/-!
The proleptic Gregorian calendar, with years counted by all the integers and
months from 0. Days are numbered from the first day of year 0. Four centuries
have the same number of days as any other four, so a day is an era and a day of
it, and a year that starts in March has its leap day at its end.
-/
namespace Gregorian

def isLeap (year : Int) : Bool := year % 4 = 0 && (year % 100 ≠ 0 || year % 400 = 0)

def monthLength (leap : Bool) : Nat → Nat
  | 1 => if leap then 29 else 28
  | 3 | 5 | 8 | 10 => 30
  | _ => 31

theorem monthLength_le (leap : Bool) (month : Nat) : monthLength leap month ≤ 31 := by
  unfold monthLength
  split
  · cases leap <;> decide
  all_goals decide

def daysBeforeMonth (leap : Bool) : Nat → Nat
  | 0 => 0
  | month + 1 => daysBeforeMonth leap month + monthLength leap month

/-- The days from the first day of year 0 to the first day of `year`. -/
def daysBeforeYear (year : Int) : Int :=
  365 * year + (year + 3) / 4 - (year + 99) / 100 + (year + 399) / 400

def leapDays (year : Int) : Int := if isLeap year then 1 else 0

theorem leapDays_cases (year : Int) :
    isLeap year = true ∧ leapDays year = 1 ∧
        year % 4 = 0 ∧ (year % 100 ≠ 0 ∨ year % 400 = 0) ∨
      isLeap year = false ∧ leapDays year = 0 ∧
        (year % 4 ≠ 0 ∨ year % 100 = 0 ∧ year % 400 ≠ 0) := by
  by_cases leap : isLeap year = true
  · refine Or.inl ⟨leap, if_pos leap, ?_⟩
    simpa [isLeap] using leap
  · refine Or.inr ⟨by simpa using leap, if_neg leap, ?_⟩
    simp only [isLeap, Bool.and_eq_true, Bool.or_eq_true, decide_eq_true_eq] at leap
    omega

theorem daysBeforeYear_succ (year : Int) :
    daysBeforeYear (year + 1) = daysBeforeYear year + 365 + leapDays year := by
  unfold daysBeforeYear
  rcases leapDays_cases year with ⟨-, leap, rule⟩ | ⟨-, leap, rule⟩ <;> rw [leap] <;> omega

def dayNumber (year : Int) (month day : Nat) : Int :=
  daysBeforeYear year + daysBeforeMonth (isLeap year) month + day - 1

structure Moment where
  year : Int
  month : Nat
  day : Nat
  hour : Nat
  minute : Nat
  second : Nat
  deriving DecidableEq, Repr

namespace Moment

structure Valid (m : Moment) : Prop where
  month : m.month < 12
  first : 1 ≤ m.day
  last : m.day ≤ monthLength (isLeap m.year) m.month
  hour : m.hour < 24
  minute : m.minute < 60
  second : m.second < 60

def epochDay (m : Moment) : Int := dayNumber m.year m.month m.day - 719528

def instant (m : Moment) : Int :=
  86400 * m.epochDay + 3600 * m.hour + 60 * m.minute + m.second

/-- The days of the week from Sunday; the first day of 1970 was a Thursday. -/
def weekday (m : Moment) : Nat := ((m.epochDay + 4) % 7).toNat

example : dayNumber 1970 0 1 = 719528 := by decide

end Moment

theorem day_lt_yearLength {year : Int} {month day : Nat} (within : month < 12)
    (last : day ≤ monthLength (isLeap year) month) :
    (daysBeforeMonth (isLeap year) month + day : Int) ≤ 365 + leapDays year := by
  have months : ∀ leap : Bool, ∀ m < 12,
      daysBeforeMonth leap m + monthLength leap m ≤ 365 + leap.toNat := by decide
  have bound := months (isLeap year) month within
  rcases leapDays_cases year with ⟨leap, days, -⟩ | ⟨leap, days, -⟩
  · rw [days]
    rw [leap] at bound last ⊢
    simp only [Bool.toNat_true] at bound
    omega
  · rw [days]
    rw [leap] at bound last ⊢
    simp only [Bool.toNat_false] at bound
    omega

namespace Moment.Valid
variable {m : Moment} (valid : m.Valid)
include valid

theorem dayNumber_bounds :
    daysBeforeYear m.year ≤ dayNumber m.year m.month m.day ∧
      dayNumber m.year m.month m.day < daysBeforeYear (m.year + 1) := by
  have within := day_lt_yearLength valid.month valid.last
  have next := daysBeforeYear_succ m.year
  have first := valid.first
  unfold dayNumber
  omega

theorem instant_bounds :
    86400 * (daysBeforeYear m.year - 719528) ≤ m.instant ∧
      m.instant < 86400 * (daysBeforeYear (m.year + 1) - 719528) := by
  have bounds := valid.dayNumber_bounds
  have hour := valid.hour
  have minute := valid.minute
  have second := valid.second
  unfold instant epochDay
  omega

end Moment.Valid

/-- The day as a century, four years, a year and a day of the year; the leap day
    is the last day of its year. -/
structure EraDay (doe cent quad year day : Int) : Prop where
  sum : doe = 36524 * cent + 1461 * quad + 365 * year + day
  cents : 0 ≤ cent ∧ cent ≤ 3
  quads : 0 ≤ quad ∧ quad ≤ 24
  years : 0 ≤ year ∧ year ≤ 3
  start : 0 ≤ day
  last : day ≤ 364 ∨ day = 365 ∧ year = 3 ∧ (quad < 24 ∨ cent = 3)

theorem exists_eraDay {doe : Int} (low : 0 ≤ doe) (high : doe < 146097) :
    ∃ cent quad year day, EraDay doe cent quad year day := by
  have centuries : ∃ cent rest, doe = 36524 * cent + rest ∧ 0 ≤ cent ∧ cent ≤ 3 ∧ 0 ≤ rest ∧
      (rest ≤ 36523 ∨ cent = 3 ∧ rest = 36524) := by
    by_cases last : doe = 146096
    · exact ⟨3, 36524, by omega⟩
    · exact ⟨doe / 36524, doe % 36524, by omega⟩
  obtain ⟨cent, rest, sum, bounds⟩ := centuries
  have years : ∃ year day, rest % 1461 = 365 * year + day ∧ 0 ≤ year ∧ year ≤ 3 ∧ 0 ≤ day ∧
      (day ≤ 364 ∨ day = 365 ∧ year = 3) := by
    by_cases last : rest % 1461 = 1460
    · exact ⟨3, 365, by omega⟩
    · exact ⟨rest % 1461 / 365, rest % 1461 % 365, by omega⟩
  obtain ⟨year, day, part, within⟩ := years
  refine ⟨cent, rest / 1461, year, day, ?_, ?_, ?_, ?_, ?_, ?_⟩ <;> omega

namespace EraDay
variable {doe cent quad year day : Int} (era : EraDay doe cent quad year day)
include era

/-- The year by divisions: each takes away the leap days that came before. -/
theorem yearOfEra :
    (doe - doe / 1460 + doe / 36524 - doe / 146096) / 365 = 100 * cent + 4 * quad + year := by
  obtain ⟨sum, cents, quads, years, low, last⟩ := era
  have centuries : doe / 36524 - doe / 146096 = cent := by
    obtain ⟨rest, part⟩ : ∃ rest, rest = 1461 * quad + 365 * year + day := ⟨_, rfl⟩
    have whole : doe = 36524 * cent + rest := by omega
    have bounds : 0 ≤ rest ∧ (rest ≤ 36523 ∨ cent = 3 ∧ rest = 36524) := by omega
    clear sum part last
    omega
  have fours : doe / 1460 = 25 * cent + quad ∧ day ≤ 364 ∨
      doe / 1460 = 25 * cent + quad + 1 ∧ 1 ≤ day := by omega
  omega

theorem dayOfYear :
    doe - (365 * (100 * cent + 4 * quad + year) + (100 * cent + 4 * quad + year) / 4 -
      (100 * cent + 4 * quad + year) / 100) = day := by
  obtain ⟨sum, cents, quads, years, -, -⟩ := era
  omega

theorem leap_of_last (leapDay : day = 365) : isLeap (100 * cent + 4 * quad + year + 1) = true := by
  obtain ⟨-, cents, quads, years, -, last⟩ := era
  rcases leapDays_cases (100 * cent + 4 * quad + year + 1) with ⟨leap, -⟩ | ⟨-, -, rule⟩
  · exact leap
  · omega

end EraDay

theorem isLeap_era (era year : Int) : isLeap (year + era * 400) = isLeap year := by
  have four : (year + era * 400) % 4 = year % 4 := by omega
  have hundred : (year + era * 400) % 100 = year % 100 := by omega
  have whole : (year + era * 400) % 400 = year % 400 := by omega
  unfold isLeap
  rw [four, hundred, whole]

theorem daysBeforeYear_add_leapDays (year : Int) :
    daysBeforeYear year + leapDays year = 365 * year + year / 4 - year / 100 + year / 400 + 1 := by
  unfold daysBeforeYear
  rcases leapDays_cases year with ⟨-, leap, rule⟩ | ⟨-, leap, rule⟩ <;> rw [leap] <;> omega

theorem daysBeforeMonth_march (leap : Bool) : ∀ k < 10,
    daysBeforeMonth leap (k + 2) = 59 + leap.toNat + (153 * k + 2) / 5 ∧
      (153 * k + 2) / 5 + monthLength leap (k + 2) = (153 * (k + 1) + 2) / 5 := by
  cases leap <;> decide

theorem leapDays_eq_toNat (year : Int) : leapDays year = (isLeap year).toNat := by
  rcases leapDays_cases year with ⟨leap, days, -⟩ | ⟨leap, days, -⟩ <;> rw [leap, days] <;> rfl

structure Names (year : Int) (month day : Nat) (n : Int) : Prop where
  within : month < 12
  first : 1 ≤ day
  last : day ≤ monthLength (isLeap year) month
  number : dayNumber year month day = n

namespace EraDay
variable {doe cent quad year day : Int} (march : EraDay doe cent quad year day) (era : Int)
include march

theorem day_le : day ≤ 365 := by
  have last := march.last
  omega

theorem daysBeforeMarch :
    daysBeforeYear (100 * cent + 4 * quad + year + era * 400) +
      leapDays (100 * cent + 4 * quad + year + era * 400) = 146097 * era + doe - day + 1 := by
  rw [daysBeforeYear_add_leapDays]
  have part := march.dayOfYear
  obtain ⟨-, cents, quads, years, -, -⟩ := march
  omega

theorem names_march {k : Nat} (month : (5 * day + 2) / 153 = k) (early : k < 10) :
    Names (100 * cent + 4 * quad + year + era * 400) (k + 2)
      (day - (153 * k + 2) / 5 + 1).toNat (146097 * era + doe + 60) := by
  have before := march.daysBeforeMarch era
  generalize 100 * cent + 4 * quad + year + era * 400 = Y at before ⊢
  obtain ⟨months, length⟩ := daysBeforeMonth_march (isLeap Y) k early
  rw [leapDays_eq_toNat] at before
  have start : (153 * k + 2 : Int) / 5 = ((153 * k + 2) / 5 : Nat) := by omega
  have first : (((153 * k + 2) / 5 : Nat) : Int) ≤ day := by omega
  have last : day < ((153 * (k + 1) + 2) / 5 : Nat) := by omega
  rw [start]
  refine ⟨by omega, by omega, by omega, ?_⟩
  unfold dayNumber
  rw [months]
  omega

theorem names_january {k : Nat} (month : (5 * day + 2) / 153 = k) (late : 10 ≤ k) :
    Names (100 * cent + 4 * quad + year + era * 400 + 1) (k - 10)
      (day - (153 * k + 2) / 5 + 1).toNat (146097 * era + doe + 60) := by
  have leapYear : day = 365 →
      isLeap (100 * cent + 4 * quad + year + era * 400 + 1) = true := by
    intro last
    rw [Int.add_right_comm, isLeap_era]
    exact march.leap_of_last last
  have before := march.daysBeforeMarch era
  have start := march.start
  have short := march.day_le
  clear march
  generalize 100 * cent + 4 * quad + year + era * 400 = Y at before leapYear ⊢
  have next := daysBeforeYear_succ Y
  have months : k = 10 ∨ k = 11 := by omega
  rcases months with rfl | rfl
  · have none_ : daysBeforeMonth (isLeap (Y + 1)) 0 = 0 := rfl
    have january : monthLength (isLeap (Y + 1)) 0 = 31 := rfl
    refine ⟨by omega, by omega, ?_, ?_⟩
    · rw [Nat.sub_self, january]
      omega
    · unfold dayNumber
      rw [Nat.sub_self, none_]
      omega
  · have one : daysBeforeMonth (isLeap (Y + 1)) 1 = 31 := rfl
    have february : monthLength (isLeap (Y + 1)) 1 = if isLeap (Y + 1) then 29 else 28 := rfl
    refine ⟨by omega, by omega, ?_, ?_⟩
    · change _ ≤ monthLength (isLeap (Y + 1)) 1
      rw [february]
      split
      · omega
      · rename_i plain
        have shorter : day ≠ 365 := fun last => plain (leapYear last)
        omega
    · change daysBeforeYear (Y + 1) + (daysBeforeMonth (isLeap (Y + 1)) 1 : Nat) + _ - 1 = _
      rw [one]
      omega

end EraDay
end Gregorian
