import AgentArchivist.Auth.ReceiptKeys

/-! # Civil dates and day numbers

`civilFromDays` names the date of a day number and `daysFromCivil` counts the days back. A
day of an era of 400 years is placed by its century, its leap cycle and its year, and within
the year by its distance from the first of March. -/
namespace AgentArchivist.Auth.CivilDays
open Auth.Authority Auth.ReceiptKeys

def isLeap (year : Int) : Prop := year % 4 = 0 ∧ (year % 100 ≠ 0 ∨ year % 400 = 0)

instance (year : Int) : Decidable (isLeap year) := inferInstanceAs (Decidable (_ ∧ _))

/-- How many days a month has. -/
def monthLength (year month : Int) : Int :=
  if month = 2 then if isLeap year then 29 else 28
  else if month = 4 ∨ month = 6 ∨ month = 9 ∨ month = 11 then 30 else 31

/-- A day of an era: the century, the leap cycle of the century, the year of the cycle and the
day of a year that begins in March. Only a leap year has a last day, numbered 365. -/
structure EraDay where
  century : Int
  cycle : Int
  rest : Int
  dayOfYear : Int
  century_range : 0 ≤ century ∧ century ≤ 3
  cycle_range : 0 ≤ cycle ∧ cycle ≤ 24
  rest_range : 0 ≤ rest ∧ rest ≤ 3
  day_range : 0 ≤ dayOfYear ∧ dayOfYear ≤ 365
  last_day : dayOfYear = 365 → rest = 3 ∧ (cycle < 24 ∨ century = 3)

namespace EraDay

def number (d : EraDay) : Int := 36524 * d.century + 1461 * d.cycle + 365 * d.rest + d.dayOfYear

def year (d : EraDay) : Int := 100 * d.century + 4 * d.cycle + d.rest

theorem exists_number (n : Int) (hlow : 0 ≤ n) (hhigh : n < 146097) : ∃ d : EraDay, d.number = n := by
  -- the last century and the last year of a cycle take the day that is left over
  obtain ⟨c, r, hc, hr, hlast, hn⟩ : ∃ c r : Int, (0 ≤ c ∧ c ≤ 3) ∧ (0 ≤ r ∧ r ≤ 36524) ∧
      (r = 36524 → c = 3) ∧ n = 36524 * c + r :=
    ⟨min (n / 36524) 3, n - 36524 * min (n / 36524) 3, by omega⟩
  obtain ⟨k, t, hk, ht, hleft, hcycle⟩ : ∃ k t : Int, (0 ≤ k ∧ k ≤ 3) ∧ (0 ≤ t ∧ t ≤ 365) ∧
      (t = 365 → k = 3) ∧ r % 1461 = 365 * k + t :=
    ⟨min (r % 1461 / 365) 3, r % 1461 - 365 * min (r % 1461 / 365) 3, by omega⟩
  exact ⟨⟨c, r / 1461, k, t, hc, by omega, hk, ht, by omega⟩, by simp only [number]; omega⟩

variable (d : EraDay)

theorem number_range : 0 ≤ d.number ∧ d.number < 146097 := by
  have := d.century_range
  have := d.cycle_range
  have := d.rest_range
  have := d.day_range
  unfold number
  omega

/-- The source's estimate of the year is exact. -/
theorem estimate_eq : (d.number - d.number / 1460 + d.number / 36524 - d.number / 146096) / 365 =
    d.year := by
  obtain ⟨c, q, k, t, hc, hq, hk, ht, hlast⟩ := d
  simp only [number, year]
  have hcentury : (36524 * c + 1461 * q + 365 * k + t) / 36524 -
      (36524 * c + 1461 * q + 365 * k + t) / 146096 = c := by
    have hrest : 0 ≤ 1461 * q + 365 * k + t ∧ 1461 * q + 365 * k + t ≤ 36524 ∧
        (1461 * q + 365 * k + t = 36524 → c = 3) := by omega
    omega
  -- so many whole years of 1460 days in four, and one more near the end of a cycle
  let early : Int := if 1460 ≤ 24 * c + q + 365 * k + t then 1 else 0
  omega

theorem start_eq : 365 * d.year + d.year / 4 - d.year / 100 + d.dayOfYear = d.number := by
  have := d.cycle_range
  have := d.rest_range
  unfold number year
  omega

theorem year_range : 0 ≤ d.year ∧ d.year ≤ 399 := by
  have := d.century_range
  have := d.cycle_range
  have := d.rest_range
  unfold year
  omega

/-- The months from March on, in runs of five that have 153 days. -/
def monthPart : Int := (5 * d.dayOfYear + 2) / 153

def day : Int := d.dayOfYear - (153 * d.monthPart + 2) / 5 + 1

def month : Int := d.monthPart + if d.monthPart < 10 then 3 else -9

/-- The year that a calendar gives: January and February are of the next one. -/
def civilYear (era : Int) : Int := d.year + era * 400 + if d.month ≤ 2 then 1 else 0

theorem monthPart_range : 0 ≤ d.monthPart ∧ d.monthPart ≤ 11 := by
  have := d.day_range
  unfold monthPart
  omega

theorem month_range : 1 ≤ d.month ∧ d.month ≤ 12 := by
  have := d.monthPart_range
  unfold month
  split <;> omega

theorem leap_of_last (h : d.dayOfYear = 365) (era : Int) : isLeap (d.year + era * 400 + 1) := by
  have := d.cycle_range
  have := d.last_day h
  unfold isLeap year
  omega

theorem day_le (era : Int) : 1 ≤ d.day ∧ d.day ≤ monthLength (d.civilYear era) d.month := by
  have hrange := d.day_range
  have hday : d.monthPart = (5 * d.dayOfYear + 2) / 153 := rfl
  by_cases hlast : d.dayOfYear = 365
  · -- the twenty-ninth of February
    have hleap := d.leap_of_last hlast era
    have hmonth : d.month = 2 := by
      unfold month
      split <;> omega
    have hyear : d.civilYear era = d.year + era * 400 + 1 := by
      rw [civilYear, hmonth]
      rfl
    rw [monthLength, if_pos hmonth, hyear, if_pos hleap, day]
    omega
  · constructor
    · unfold day
      omega
    · unfold monthLength month day
      split <;> split <;> omega

end EraDay

/-- A day number, taken apart as the source does. -/
theorem civilFromDays_eq (days : Int) : ∃ (era : Int) (d : EraDay),
    days + 719468 = era * 146097 + d.number ∧
      civilFromDays days = (d.civilYear era, d.month, d.day) := by
  obtain ⟨d, hd⟩ := EraDay.exists_number ((days + 719468) % 146097) (by omega) (by omega)
  refine ⟨(days + 719468) / 146097, d, by omega, ?_⟩
  have hera : (if days + 719468 ≥ 0 then days + 719468 else days + 719468 - 146096).tdiv 146097 =
      (days + 719468) / 146097 := by
    split
    · exact Int.tdiv_eq_ediv_of_nonneg (by omega)
    · rw [← Int.neg_neg (days + 719468 - 146096), Int.neg_tdiv, Int.tdiv_eq_ediv_of_nonneg (by omega)]
      omega
  have hdiv {n : Int} (m : Int) (h : 0 ≤ n) : n.tdiv m = n / m := Int.tdiv_eq_ediv_of_nonneg h
  have hnumber : days + 719468 - (days + 719468) / 146097 * 146097 = d.number := by omega
  have hrange := d.number_range
  have hyear := d.year_range
  have hday := d.day_range
  have hstart : d.number - (365 * d.year + d.year / 4 - d.year / 100) = d.dayOfYear := by
    have := d.start_eq
    omega
  simp only [civilFromDays]
  rw [hera, hnumber, hdiv 1460 hrange.1, hdiv 36524 hrange.1, hdiv 146096 hrange.1,
    hdiv 365 (by omega), d.estimate_eq, hdiv 4 hyear.1, hdiv 100 hyear.1, hstart,
    hdiv 153 (by omega)]
  have hmonth : (153 * ((5 * d.dayOfYear + 2) / 153) + 2).tdiv 5 = (153 * d.monthPart + 2) / 5 :=
    hdiv 5 (by omega)
  rw [hmonth]
  rfl

/-- The date of a day is a date of the calendar, and it is counted back to the day. -/
theorem civilFromDays_spec {days year month day} (h : civilFromDays days = (year, month, day)) :
    daysFromCivil year month day = days ∧ (1 ≤ month ∧ month ≤ 12) ∧
      1 ≤ day ∧ day ≤ monthLength year month := by
  obtain ⟨era, d, hdays, hcivil⟩ := civilFromDays_eq days
  rw [h] at hcivil
  obtain ⟨rfl, hrest⟩ := Prod.mk.inj hcivil
  obtain ⟨rfl, rfl⟩ := Prod.mk.inj hrest
  refine ⟨?_, d.month_range, d.day_le era⟩
  have hyear := d.year_range
  have hpart := d.monthPart_range
  have hstart := d.start_eq
  have hback : d.civilYear era - (if d.month ≤ 2 then 1 else 0) = d.year + era * 400 := by
    unfold EraDay.civilYear
    omega
  have hera : (if d.year + era * 400 ≥ 0 then d.year + era * 400
      else d.year + era * 400 - 399).tdiv 400 = era := by
    split
    · rw [Int.tdiv_eq_ediv_of_nonneg (by omega)]
      omega
    · rw [← Int.neg_neg (d.year + era * 400 - 399), Int.neg_tdiv, Int.tdiv_eq_ediv_of_nonneg (by omega)]
      omega
  have hmonth : d.month + (if d.month > 2 then -3 else 9) = d.monthPart := by
    unfold EraDay.month
    split <;> split <;> omega
  have hdiv {n : Int} (m : Int) (h : 0 ≤ n) : n.tdiv m = n / m := Int.tdiv_eq_ediv_of_nonneg h
  simp only [daysFromCivil]
  rw [hback, hera, hmonth, hdiv 5 (by omega),
    show d.year + era * 400 - era * 400 = d.year by omega, hdiv 4 hyear.1, hdiv 100 hyear.1]
  unfold EraDay.day
  omega

end AgentArchivist.Auth.CivilDays
