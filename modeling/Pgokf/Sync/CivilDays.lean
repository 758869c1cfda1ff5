import Mathlib.Tactic.IntervalCases
import Pgokf.Sync.TimestampGrammar

/-! # The day numbers of the calendar (`catalog/iso8601.rs`) -/

namespace Pgokf.Sync

open Lib Lib.Guarded

structure CivilDate where
  year : Int
  month : Nat
  day : Nat
  month_pos : 1 ≤ month
  day_pos : 1 ≤ day
  real : ∃ days, (monthLengths year)[month - 1]? = some days ∧ day ≤ days

namespace CivilDate

variable {month : Nat}

theorem monthLengths_some (year : Int) (hlo : 1 ≤ month) (hhi : month ≤ 12) :
    ∃ days, (monthLengths year)[month - 1]? = some days ∧ 28 ≤ days ∧ days ≤ 31 := by
  have hfebruary : 28 ≤ (if 4 ∣ year ∧ (100 ∣ year → 400 ∣ year) then 29 else 28) ∧
      (if 4 ∣ year ∧ (100 ∣ year → 400 ∣ year) then 29 else 28) ≤ 31 := by
    split <;> decide
  interval_cases month
  case «2» => exact ⟨_, rfl, hfebruary⟩
  all_goals exact ⟨_, rfl, by decide, by decide⟩

theorem month_le (d : CivilDate) : d.month ≤ 12 := by
  obtain ⟨days, hdays, -⟩ := d.real
  have hindex : d.month - 1 < (monthLengths d.year).length := (List.getElem?_eq_some_iff.mp hdays).1
  have hlength : (monthLengths d.year).length = 12 := rfl
  omega

theorem day_le (d : CivilDate) : d.day ≤ 31 := by
  obtain ⟨days, hdays, hle⟩ := d.real
  obtain ⟨days', hdays', -, hbound⟩ := monthLengths_some d.year d.month_pos d.month_le
  obtain rfl := Option.some.inj (hdays.symm.trans hdays')
  omega

def monthLength (year : Int) (month : Nat) : Nat := (monthLengths year)[month - 1]?.getD 0

theorem day_le_monthLength (d : CivilDate) : d.day ≤ monthLength d.year d.month := by
  obtain ⟨days, hdays, hle⟩ := d.real
  rwa [monthLength, hdays]

def first (year : Int) (month : Nat) (hlo : 1 ≤ month) (hhi : month ≤ 12) : CivilDate :=
  ⟨year, month, 1, hlo, Nat.le_refl 1, by
    obtain ⟨days, hdays, hle, -⟩ := monthLengths_some year hlo hhi
    exact ⟨days, hdays, by omega⟩⟩

def next (d : CivilDate) : CivilDate :=
  if h : d.day < monthLength d.year d.month then
    { d with
      day := d.day + 1
      day_pos := by omega
      real := by
        obtain ⟨days, hdays, -⟩ := d.real
        rw [monthLength, hdays] at h
        exact ⟨days, hdays, h⟩ }
  else if hmonth : d.month < 12 then first d.year (d.month + 1) (by omega) (by omega)
  else first (d.year + 1) 1 (by omega) (by omega)

/- February takes what is left of the year that began in March. -/
theorem monthLength_eq (year : Int) (hlo : 1 ≤ month) (hhi : month ≤ 12) :
    (monthLength year month : Int) =
      if month = 2 then Civil.yearStart year - Civil.yearStart (year - 1) - Civil.monthStart 11
      else Civil.monthStart (Civil.marchMonth month + 1) - Civil.monthStart
        (Civil.marchMonth month) := by
  have hyear := Civil.yearStart_succ (year - 1)
  rw [Int.sub_add_cancel] at hyear
  interval_cases month
  case «2» =>
    simp only [monthLength, monthLengths, if_true, hyear, Civil.monthStart]
    split <;> simp
  all_goals rfl

theorem dayNumber_next (d : CivilDate) :
    Civil.dayNumber d.next.year d.next.month d.next.day = Civil.dayNumber d.year d.month d.day + 1 := by
  have hlength := monthLength_eq d.year d.month_pos d.month_le
  have hle := d.day_le_monthLength
  rw [next]
  split
  next h =>
    simp only [Civil.dayNumber]
    omega
  next h =>
    have hday : d.day = monthLength d.year d.month := by omega
    have hlo := d.month_pos
    have hhi := d.month_le
    rw [hday]
    split
    next hmonth =>
      simp only [first, Civil.dayNumber, hlength]
      generalize d.year = year at *
      generalize d.month = month at *
      interval_cases month <;> simp [Civil.marchYear, Civil.marchMonth, Civil.monthStart] <;> omega
    next hmonth =>
      have hdecember : d.month = 12 := by omega
      have hdays : monthLength d.year 12 = 31 := rfl
      rw [hdecember, hdays]
      simp [first, Civil.dayNumber, Civil.marchYear, Civil.marchMonth, Civil.monthStart]
      omega

end CivilDate

variable {year : Int} {month : Nat}

theorem daysFromCivil_eq {day : Nat} (hlo : -9999 ≤ year) (hhi : year ≤ 10000) (hmonth : month ≤ 12)
    (hday : day ≤ 31) :
    daysFromCivil year month day = .value (Civil.dayNumber year month day - 719468) := by
  obtain ⟨days, hdays, rfl, -⟩ := daysFromCivil_yields hlo hhi hmonth hday
  exact hdays

theorem CivilDate.next_year (d : CivilDate) : d.year ≤ d.next.year ∧ d.next.year ≤ d.year + 1 := by
  rw [next]
  split
  · exact ⟨Int.le_refl _, by simp⟩
  · split
    · exact ⟨Int.le_refl _, by simp [first]⟩
    · simp [first]

theorem daysFromCivil_next (d : CivilDate) (hlo : 0 ≤ d.year) (hhi : d.year ≤ 9999) :
    ∃ n, daysFromCivil d.year d.month d.day = .value n ∧
      daysFromCivil d.next.year d.next.month d.next.day = .value (n + 1) := by
  have hyear := d.next_year
  refine ⟨_, daysFromCivil_eq (by omega) (by omega) d.month_le d.day_le, ?_⟩
  rw [daysFromCivil_eq (by omega) (by omega) d.next.month_le d.next.day_le, d.dayNumber_next]
  congr 1
  omega

theorem DateFields.civilDate {yearText monthText dayText : Text} {day : Nat}
    (h : DateFields yearText monthText dayText year month day) :
    ∃ d : CivilDate, d.year = year ∧ d.month = month ∧ d.day = day := by
  obtain ⟨days, hdays, hle⟩ := h.real
  exact ⟨⟨year, month, day, (daysInMonth_some hdays).1, h.day_pos, days,
    monthLengths_of_daysInMonth hdays, hle⟩,
    rfl, rfl, rfl⟩

structure ReadsAs (value : Text) (date : CivilDate) (clock : ClockTime) : Prop where
  date_eq : parseCivilDate (trim value) = .value (date.year, date.month, date.day)
  clock_eq : (sliceFrom (trim value) 10 >>= parseTimeSection) = .value clock

/- The seconds are in the range where double precision is exact. -/
theorem epoch_eq {value : Text} {epoch : Epoch} (h : parseIso8601Epoch value = .value epoch) :
    ∃ date clock n, ReadsAs value date clock ∧ daysFromCivil date.year date.month date.day = .value n ∧
      epoch.fraction = clock.fraction ∧
      epoch.seconds = 86400 * n + (3600 * clock.hour + 60 * clock.minute + clock.second) - clock.offset ∧
      -9007199254740992 ≤ epoch.seconds ∧ epoch.seconds ≤ 9007199254740992 := by
  simp only [parseIso8601Epoch, bind_eq_value, pure_eq_value] at h
  obtain ⟨⟨year, month, day⟩, hdate, rest, hrest, clock, hclock, n, hn, seconds, hseconds, rfl⟩ := h
  obtain ⟨yearText, monthText, dayText, after, -, hfields⟩ := parseCivilDate_eq_value.mp hdate
  obtain ⟨hlo, hhi, hmonth, hday⟩ := hfields.bounds
  obtain ⟨date, rfl, rfl, rfl⟩ := hfields.civilDate
  obtain ⟨n', hn', -, hnlo, hnhi⟩ := daysFromCivil_yields hlo (by omega) hmonth hday
  obtain rfl := Guarded.value.inj (hn'.symm.trans hn)
  obtain ⟨hrange, hoffset⟩ := parseTimeSection_bounds hclock
  obtain ⟨seconds', hseconds', hvalue, hbounds⟩ := epochSeconds_yields hnlo hnhi hrange hoffset
  obtain rfl := Guarded.value.inj (hseconds'.symm.trans hseconds)
  have hexact : -9007199254740992 ≤ seconds' ∧ seconds' ≤ 9007199254740992 := by omega
  refine ⟨date, clock, n', ⟨hdate, ?_⟩, hn, rfl, hvalue, hexact⟩
  rw [hrest]
  exact hclock

end Pgokf.Sync
