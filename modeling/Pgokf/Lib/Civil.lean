import Mathlib.Tactic.Common

/-! # Days of the proleptic Gregorian calendar

Years are counted from March on, such that a leap day ends its year, and in eras of 400 years. -/

namespace Pgokf.Lib.Civil

/-- The days from the first of March of the year 0 to the first of March of a year. -/
def yearStart (year : Int) : Int := 365 * year + year / 4 - year / 100 + year / 400

/-- The days from the first of March to the first of a month, where March is month 0. -/
def monthStart (month : Int) : Int := (153 * month + 2) / 5

/-- The March from which the months of a date's year are counted. -/
def marchYear (year : Int) (month : Nat) : Int := if month ≤ 2 then year - 1 else year

def marchMonth (month : Nat) : Int := if 2 < month then (month : Int) - 3 else month + 9

/-- The days from the first of March of the year 0 to a date. -/
def dayNumber (year : Int) (month day : Nat) : Int :=
  yearStart (marchYear year month) + monthStart (marchMonth month) + day - 1

def yearOfEra (day : Int) : Int := (day - day / 1460 + day / 36524 - day / 146096) / 365

def monthOfYear (day : Int) : Int := (5 * day + 2) / 153

/-- The March year of a day, the month of that year and the day of that month. -/
structure MarchDate where
  year : Int
  month : Int
  day : Int

def marchDate (day : Int) : MarchDate :=
  let dayOfEra := day % 146097
  let dayOfYear := dayOfEra - yearStart (yearOfEra dayOfEra)
  let month := monthOfYear dayOfYear
  ⟨yearOfEra dayOfEra + day / 146097 * 400, month, dayOfYear - monthStart month + 1⟩

theorem yearStart_add_era (year era : Int) :
    yearStart (year + era * 400) = era * 146097 + yearStart year := by
  rw [yearStart, yearStart]
  omega

variable {year : Int}

theorem yearStart_era (era : Int) (hlo : 0 ≤ year) (hhi : year < 400) :
    yearStart (year + era * 400) = era * 146097 + (365 * year + year / 4 - year / 100) := by
  rw [yearStart]
  omega

theorem yearStart_succ (year : Int) :
    yearStart (year + 1) = yearStart year + if 4 ∣ year + 1 ∧
      (100 ∣ year + 1 → 400 ∣ year + 1) then 366 else 365 := by
  rw [yearStart, yearStart]
  split
  · omega
  · omega

variable {day : Int}

/- A day of an era lies in a century, a cycle of four years and a year; the last of each has the day
more, unless the century ends without one. -/
theorem day_split (hlo : 0 ≤ day) (hhi : day < 146097) :
    ∃ century cycle year rest : Int, day = 36524 * century + 1461 * cycle + 365 * year + rest ∧
      (0 ≤ century ∧ century ≤ 3) ∧ (0 ≤ cycle ∧ cycle ≤ 24) ∧ (0 ≤ year ∧ year ≤ 3) ∧
        (0 ≤ rest ∧ rest ≤ 365) ∧
      (rest = 365 → year = 3 ∧ (cycle = 24 → century = 3)) := by
  obtain ⟨century, inCentury, hcentury, hinCentury, hlastCentury, hday⟩ : ∃ century inCentury : Int,
      (0 ≤ century ∧ century ≤ 3) ∧ (0 ≤ inCentury ∧ inCentury ≤ 36524) ∧
        (inCentury = 36524 → century = 3) ∧
        day = 36524 * century + inCentury :=
    ⟨min (day / 36524) 3, day - 36524 * min (day / 36524) 3, by omega, by omega, by omega, by omega⟩
  obtain ⟨cycle, inCycle, hcycle, hinCycle, hcenturyDay⟩ : ∃ cycle inCycle : Int,
      (0 ≤ cycle ∧ cycle ≤ 24) ∧ (0 ≤ inCycle ∧ inCycle ≤ 1460) ∧ inCentury = 1461 * cycle + inCycle :=
    ⟨inCentury / 1461, inCentury % 1461, by omega, by omega, by omega⟩
  obtain ⟨year, rest, hyear, hrest, hlastYear, hcycleDay⟩ : ∃ year rest : Int,
      (0 ≤ year ∧ year ≤ 3) ∧ (0 ≤ rest ∧ rest ≤ 365) ∧ (rest = 365 → year = 3) ∧
        inCycle = 365 * year + rest :=
    ⟨min (inCycle / 365) 3, inCycle - 365 * min (inCycle / 365) 3, by omega, by omega, by omega,
      by omega⟩
  exact ⟨century, cycle, year, rest, by omega, hcentury, hcycle, hyear, hrest, by omega⟩

theorem yearOfEra_split {century cycle rest : Int}
    (hday : day = 36524 * century + 1461 * cycle + 365 * year + rest)
    (hcentury : 0 ≤ century ∧ century ≤ 3) (hcycle : 0 ≤ cycle ∧ cycle ≤ 24)
    (hyear : 0 ≤ year ∧ year ≤ 3)
    (hrest : 0 ≤ rest ∧ rest ≤ 365) (hlast : rest = 365 → year = 3 ∧ (cycle = 24 → century = 3)) :
    yearOfEra day = 100 * century + 4 * cycle + year := by
  -- The last day of the era is the only one that is not in the century the division gives.
  have hcenturies : day / 36524 - day / 146096 = century := by
    rcases (by omega : 1461 * cycle + 365 * year + rest < 36524 ∨ day = 146096 ∧
      century = 3) with hin | ⟨rfl, rfl⟩
    · have hfirst : day / 36524 = century := by omega
      have hsecond : day / 146096 = 0 := by omega
      omega
    · decide
  have hcycles : day / 1460 = 25 * century + cycle +
    (24 * century + cycle + 365 * year + rest) / 1460 := by omega
  rw [yearOfEra]
  omega

theorem yearOfEra_spec (hlo : 0 ≤ day) (hhi : day < 146097) :
    0 ≤ yearOfEra day ∧ yearOfEra day < 400 ∧ yearStart (yearOfEra day) ≤ day ∧
      day < yearStart (yearOfEra day + 1) := by
  obtain ⟨century, cycle, year, rest, hday, hcentury, hcycle, hyear, hrest, hlast⟩ := day_split hlo hhi
  have hstart : yearStart (100 * century + 4 * cycle + year) = 36524 * century + 1461 * cycle +
    365 * year := by
    have hquarter : (100 * century + 4 * cycle + year) / 4 = 25 * century + cycle := by omega
    have hcenturies : (100 * century + 4 * cycle + year) / 100 = century := by omega
    have hera : (100 * century + 4 * cycle + year) / 400 = 0 := by omega
    rw [yearStart, hquarter, hcenturies, hera]
    omega
  rw [yearOfEra_split hday hcentury hcycle hyear hrest hlast, yearStart_succ, hstart]
  split
  · omega
  · omega

theorem monthOfYear_spec (day : Int) (hlo : 0 ≤ day) (hhi : day ≤ 365) :
    0 ≤ monthOfYear day ∧ monthOfYear day ≤ 11 ∧ monthStart (monthOfYear day) ≤ day ∧
      day < monthStart (monthOfYear day + 1) := by
  rw [monthStart, monthStart, monthOfYear]
  omega

structure IsMarchDate (day : Int) (date : MarchDate) : Prop where
  month_nonneg : 0 ≤ date.month
  month_le : date.month ≤ 11
  day_pos : 1 ≤ date.day
  in_month : date.day ≤ monthStart (date.month + 1) - monthStart date.month
  in_year : monthStart date.month + date.day ≤ yearStart (date.year + 1) - yearStart date.year
  day_eq : yearStart date.year + monthStart date.month + date.day - 1 = day

theorem marchDate_spec (day : Int) : IsMarchDate day (marchDate day) := by
  rw [marchDate]
  have hera : 0 ≤ day % 146097 ∧ day % 146097 < 146097 := by omega
  have hday : day = day / 146097 * 146097 + day % 146097 := by omega
  generalize day % 146097 = dayOfEra at *
  obtain ⟨hyearLo, hyearHi, hstart, hnext⟩ := yearOfEra_spec hera.1 hera.2
  generalize yearOfEra dayOfEra = year at *
  have hlength : yearStart (year + 1) ≤ yearStart year + 366 := by
    rw [yearStart_succ]
    split <;> omega
  obtain ⟨hmonthLo, hmonthHi, hmonth, hmonthNext⟩ :=
    monthOfYear_spec (dayOfEra - yearStart year) (by omega) (by omega)
  refine ⟨hmonthLo, hmonthHi, ?_, ?_, ?_, ?_⟩ <;> dsimp only
  · omega
  · omega
  · rw [show year + day / 146097 * 400 + 1 = year + 1 + day / 146097 * 400 by omega, yearStart_add_era,
      yearStart_add_era]
    omega
  · rw [yearStart_add_era]
    omega

theorem exists_month (year : Int) {month : Int} (hlo : 0 ≤ month) (hhi : month ≤ 11) :
    ∃ (y : Int) (m : Nat), (if month < 10 then month + 3 else month - 9) = (m : Int) ∧
      (if (m : Int) ≤ 2 then year + 1 else year) = y ∧ 1 ≤ m ∧ m ≤ 12 ∧ marchYear y m = year ∧
        marchMonth m = month := by
  by_cases h : month < 10
  · refine ⟨year, (month + 3).toNat, ?_, if_neg (by omega), by omega, by omega, if_neg (by omega), ?_⟩
    · rw [if_pos h]
      omega
    · rw [marchMonth, if_pos (by omega)]
      omega
  · refine ⟨year + 1, (month - 9).toNat, ?_, if_pos (by omega), by omega, by omega, ?_, ?_⟩
    · rw [if_neg h]
      omega
    · rw [marchYear, if_pos (by omega)]
      omega
    · rw [marchMonth, if_neg (by omega)]
      omega

end Pgokf.Lib.Civil
