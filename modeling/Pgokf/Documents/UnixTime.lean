import Pgokf.Lib.Decimal
import Pgokf.Sync.CivilDays

/-! # Timestamps of the workflow (`iso_from_unix` of `documents.rs`), as the catalog reads them -/

namespace Pgokf.Documents

open Pgokf.Lib Pgokf.Sync Guarded

/-- A number in a format of fixed width, such as `02`: zeros go between the sign and the digits. -/
def zeroPadded (width : Nat) (n : Int) : Text :=
  let digits := Nat.toDigits 10 n.natAbs
  if n < 0 then '-' :: (List.replicate (width - 1 - digits.length) '0' ++ digits)
  else List.replicate (width - digits.length) '0' ++ digits

def civilFromDays (days : Int) : Int × Int × Int :=
  let z := days + 719468
  let era := z / 146097
  let doe := z % 146097
  let yoe := (doe - doe.tdiv 1460 + doe.tdiv 36524 - doe.tdiv 146096).tdiv 365
  let y := yoe + era * 400
  let doy := doe - (365 * yoe + yoe.tdiv 4 - yoe.tdiv 100)
  let mp := (5 * doy + 2).tdiv 153
  let d := doy - (153 * mp + 2).tdiv 5 + 1
  let m := if mp < 10 then mp + 3 else mp - 9
  let y := if m ≤ 2 then y + 1 else y
  (y, m, d)

def isoFromUnix (secs : Nat) : Text :=
  let days : Int := min (secs / 86400) (i64Bound - 1)
  let rem := secs % 86400
  let (y, m, d) := civilFromDays days
  zeroPadded 4 y ++ '-' ::
    (zeroPadded 2 m ++ '-' :: (zeroPadded 2 d ++ 'T' :: (zeroPadded 2 (rem / 3600 : Nat) ++
    ':' :: (zeroPadded 2 (rem % 3600 / 60 : Nat) ++ ':' :: (zeroPadded 2 (rem % 60 : Nat) ++ ['Z'])))))

/- The divisions are those of the calendar: nothing that is divided is negative. -/
theorem civilFromDays_eq (days : Int) :
    civilFromDays days =
      (if (if (Civil.marchDate (days + 719468)).month <
        10 then (Civil.marchDate (days + 719468)).month + 3
          else (Civil.marchDate (days + 719468)).month - 9) ≤
            2 then (Civil.marchDate (days + 719468)).year + 1
        else (Civil.marchDate (days + 719468)).year,
        if (Civil.marchDate (days + 719468)).month < 10 then (Civil.marchDate (days + 719468)).month + 3
        else (Civil.marchDate (days + 719468)).month - 9,
        (Civil.marchDate (days + 719468)).day) := by
  have hdate := Civil.marchDate_spec (days + 719468)
  have hdoe : 0 ≤ (days + 719468) % 146097 ∧ (days + 719468) % 146097 < 146097 := by omega
  rw [civilFromDays]
  rw [Civil.marchDate] at hdate ⊢
  generalize (days + 719468) % 146097 = doe at *
  have hyoe : (doe - doe.tdiv 1460 + doe.tdiv 36524 - doe.tdiv 146096).tdiv 365 =
    Civil.yearOfEra doe := by
    simp only [Int.tdiv_eq_ediv_of_nonneg hdoe.1]
    rw [Int.tdiv_eq_ediv_of_nonneg (by omega), Civil.yearOfEra]
  obtain ⟨hyearLo, hyearHi, hstart, -⟩ := Civil.yearOfEra_spec hdoe.1 hdoe.2
  have hyear : 365 * Civil.yearOfEra doe + (Civil.yearOfEra doe).tdiv 4 -
    (Civil.yearOfEra doe).tdiv 100 =
      Civil.yearStart (Civil.yearOfEra doe) := by
    rw [Int.tdiv_eq_ediv_of_nonneg hyearLo, Int.tdiv_eq_ediv_of_nonneg hyearLo]
    simpa using (Civil.yearStart_era 0 hyearLo hyearHi).symm
  have hmp : (5 * (doe - Civil.yearStart (Civil.yearOfEra doe)) + 2).tdiv 153 =
      Civil.monthOfYear (doe - Civil.yearStart (Civil.yearOfEra doe)) :=
    Int.tdiv_eq_ediv_of_nonneg (by omega)
  have hmonth : (153 * Civil.monthOfYear (doe - Civil.yearStart (Civil.yearOfEra doe)) + 2).tdiv 5 =
      Civil.monthStart (Civil.monthOfYear (doe - Civil.yearStart (Civil.yearOfEra doe))) := by
    have hnonneg : 0 ≤ Civil.monthOfYear (doe - Civil.yearStart (Civil.yearOfEra doe)) :=
      hdate.month_nonneg
    exact Int.tdiv_eq_ediv_of_nonneg (by omega)
  simp only [hyoe, hyear, hmp, hmonth]

theorem civilFromDays_date (days : Int) :
    ∃ (year : Int) (month day : Nat), civilFromDays days = (year, (month : Int), (day : Int)) ∧
      1 ≤ month ∧ month ≤ 12 ∧ 1 ≤ day ∧ day ≤ CivilDate.monthLength year month ∧
      Civil.dayNumber year month day = days + 719468 := by
  have hdate := Civil.marchDate_spec (days + 719468)
  rw [civilFromDays_eq]
  generalize Civil.marchDate (days + 719468) = date at *
  obtain ⟨hmonthLo, hmonthHi, hday, hinMonth, hinYear, hvalue⟩ := hdate
  obtain ⟨year, month, hm, hy, hmlo, hmhi, hmarchYear, hmarchMonth⟩ :=
    Civil.exists_month date.year hmonthLo hmonthHi
  rw [hm, hy]
  refine ⟨year, month, date.day.toNat, ?_, hmlo, hmhi, by omega, ?_, ?_⟩
  · rw [Int.toNat_of_nonneg (by omega)]
  · have hlength := CivilDate.monthLength_eq year hmlo hmhi
    rw [hmarchMonth] at hlength
    split at hlength
    next hfebruary =>
      -- The year that began in March ends with this month.
      have hyear : year - 1 = date.year := by
        rw [← hmarchYear, Civil.marchYear, if_pos (by omega)]
      have hlast : 11 = date.month := by
        rw [← hmarchMonth, hfebruary]
        rfl
      have hnextYear : year = date.year + 1 := by omega
      rw [hyear, hlast] at hlength
      rw [← hnextYear] at hinYear
      omega
    next => omega
  · rw [Civil.dayNumber, hmarchYear, hmarchMonth]
    omega

section Padded

variable {width n : Nat}

theorem zeroPadded_nat (width n : Nat) :
    zeroPadded width n = List.replicate (width - (Nat.toDigits 10 n).length) '0' ++
      Nat.toDigits 10 n := by
  rw [zeroPadded, if_neg (by omega)]
  rfl

theorem zeroPadded_digits : (zeroPadded width n).all isDigit = true := by
  rw [zeroPadded_nat, List.all_eq_true]
  intro c hc
  rcases List.mem_append.mp hc with hzero | hdigit
  · rw [List.eq_of_mem_replicate hzero]
    decide
  · exact Nat.isDigit_of_mem_toDigits (by decide) (by decide) hdigit

theorem digitsValue_zeroPadded : digitsValue (zeroPadded width n) = n := by
  rw [zeroPadded_nat, digitsValue, List.foldl_append]
  have hzeros : ∀ k : Nat, (List.replicate k '0').foldl (fun n c => 10 * n + digitValue c) 0 = 0 := by
    intro k
    induction k with
    | zero => rfl
    | succ k ih => exact ih
  rw [hzeros]
  exact Nat.ofDigitChars_ten_toDigits

theorem length_zeroPadded (hwidth : 0 < width) (h : n < 10 ^ width) :
    (zeroPadded width n).length = width := by
  have hdigits := (Nat.length_toDigits_le_iff (b := 10) (by decide) hwidth).mpr h
  rw [zeroPadded_nat, List.length_append, List.length_replicate]
  omega

theorem zeroPadded_ne_nil (hwidth : 0 < width) (h : n < 10 ^ width) : zeroPadded width n ≠ [] := by
  intro hnil
  have hlength := length_zeroPadded hwidth h
  rw [hnil, List.length_nil] at hlength
  omega

theorem parseI64_zeroPadded (hwidth : 0 < width) (h : n < 10 ^ width) (hbound : n < i64Bound) :
    parseI64 (zeroPadded width n) = some (n : Int) := by
  have hvalue : digitsValue (zeroPadded width n) = n := digitsValue_zeroPadded
  rw [parseI64_of_digits (zeroPadded_ne_nil hwidth h) zeroPadded_digits (by rwa [hvalue]), hvalue]

theorem parseUnsigned_zeroPadded {bound : Nat} (hwidth : 0 < width) (h : n < 10 ^ width)
    (hbound : n < bound) :
    parseUnsigned bound (zeroPadded width n) = some n := by
  have hvalue : digitsValue (zeroPadded width n) = n := digitsValue_zeroPadded
  rw [parseUnsigned_of_digits (zeroPadded_ne_nil hwidth h) zeroPadded_digits (by rwa [hvalue]), hvalue]

theorem mem_zeroPadded {c : Char} (hc : c ∈ zeroPadded width n) : 48 ≤ c.toNat ∧ c.toNat ≤ 57 :=
  isDigit_bounds (List.all_eq_true.mp zeroPadded_digits c hc)

end Padded

variable {month : Nat}

/- The years of the days from the epoch to the year 10000 have four digits. -/
theorem year_bounds {year : Int} {day : Nat} (hmlo : 1 ≤ month) (hmhi : month ≤ 12)
    (hday : 1 ≤ day ∧ day ≤ 31)
    (hlo : 719468 ≤ Civil.dayNumber year month day) (hhi : Civil.dayNumber year month day < 3652365) :
    0 ≤ year ∧ year ≤ 9999 := by
  simp only [Civil.dayNumber, Civil.yearStart, Civil.monthStart, Civil.marchYear,
    Civil.marchMonth] at hlo hhi
  by_cases hmonth : month ≤ 2
  · rw [if_pos hmonth, if_neg (by omega)] at hlo hhi
    omega
  · rw [if_neg hmonth, if_pos (by omega)] at hlo hhi
    omega

theorem daysInMonth_eq (year : Int) (hlo : 1 ≤ month) (hhi : month ≤ 12) :
    daysInMonth year month = some (CivilDate.monthLength year month) := by
  cases hdays : daysInMonth year month with
  | some days => rw [CivilDate.monthLength, monthLengths_of_daysInMonth hdays, Option.getD_some]
  | none => interval_cases month <;> cases hdays

theorem dateFields_zeroPadded {year day : Nat} (hyear : year ≤ 9999) (hmlo : 1 ≤ month)
    (hmhi : month ≤ 12)
    (hday : 1 ≤ day ∧ day ≤ 31) (hreal : day ≤ CivilDate.monthLength year month) :
    DateFields (zeroPadded 4 year) (zeroPadded 2 month) (zeroPadded 2 day) year month day where
  year_length := length_zeroPadded (by decide) (by omega)
  month_length := length_zeroPadded (by decide) (by omega)
  day_length := length_zeroPadded (by decide) (by omega)
  year_eq := parseI64_zeroPadded (by decide) (by omega) (by rw [i64Bound]; omega)
  month_eq := parseUnsigned_zeroPadded (by decide) (by omega) (by rw [u32Bound]; omega)
  day_eq := parseUnsigned_zeroPadded (by decide) (by omega) (by rw [u32Bound]; omega)
  day_pos := hday.1
  real := ⟨_, daysInMonth_eq year hmlo hmhi, hreal⟩

variable {c : Char}

theorem notMem_zeroPadded {width n : Nat} (hc : c.toNat < 48 ∨ 57 < c.toNat) :
    c ∉ zeroPadded width n := by
  intro hmem
  have hdigit := mem_zeroPadded hmem
  omega

def clockText (hour minute second : Nat) : Text :=
  zeroPadded 2 hour ++ ':' :: (zeroPadded 2 minute ++ ':' :: zeroPadded 2 second)

variable {hour minute second : Nat}

theorem mem_clockText (hc : c ∈ clockText hour minute second) :
    48 ≤ c.toNat ∧ c.toNat ≤ 58 := by
  simp only [clockText, List.mem_append, List.mem_cons] at hc
  rcases hc with h | rfl | h | rfl | h
  · have hdigit := mem_zeroPadded h
    omega
  · decide
  · have hdigit := mem_zeroPadded h
    omega
  · decide
  · have hdigit := mem_zeroPadded h
    omega

theorem parseClockFields_clockText (hhour : hour ≤ 23) (hminute : minute ≤ 59) (hsecond : second ≤ 59) :
    parseClockFields ((clockText hour minute second).splitOn ':') =
      some ⟨hour, minute, second, [], 0⟩ := by
  have hcolon : ∀ n : Nat, (zeroPadded 2 n).splitOn ':' = [zeroPadded 2 n] := fun n =>
    splitOn_of_notMem (notMem_zeroPadded (by decide))
  have hpoint : splitOnce '.' (zeroPadded 2 second) = none :=
    splitOnce_none.mpr (notMem_zeroPadded (by decide))
  have hread : ∀ n : Nat, n ≤ 59 → parseI64 (zeroPadded 2 n) = some (n : Int) := fun n hn =>
    parseI64_zeroPadded (by decide) (by omega) (by rw [i64Bound]; omega)
  rw [clockText, splitOn_append_sep, splitOn_append_sep, hcolon, hcolon, hcolon]
  simp only [List.cons_append, List.nil_append, parseClockFields, parseSecondsField, hpoint,
    hread hour (by omega),
    hread minute hminute, hread second hsecond]
  rfl

theorem clock_inRange (hhour : hour ≤ 23) (hminute : minute ≤ 59) (hsecond : second ≤ 59) :
    ClockTime.inRange ⟨hour, minute, second, [], 0⟩ = true := by
  rw [ClockTime.inRange, decide_eq_true_eq]
  dsimp only
  omega

theorem parseClockTime_clockText (hhour : hour ≤ 23) (hminute : minute ≤ 59) (hsecond : second ≤ 59) :
    parseClockTime (clockText hour minute second ++ ['Z']) = .value ⟨hour, minute, second, [], 0⟩ := by
  have hmarkers : ∀ c ∈ clockText hour minute second, !isZoneMarker c := by
    intro c hc
    have hbounds := mem_clockText hc
    rw [Bool.not_eq_true', isZoneMarker, decide_eq_false_iff_not]
    intro hmarker
    simp only [List.mem_cons, List.not_mem_nil, or_false] at hmarker
    rcases hmarker with rfl | rfl | rfl | rfl <;> simp at hbounds
  rw [parseClockTime, splitTimeZone_eq, takeWhile_marker hmarkers (by decide),
    dropWhile_marker hmarkers (by decide)]
  simp only [bind_value, parseClockFields_clockText hhour hminute hsecond, ofOption,
    clock_inRange hhour hminute hsecond, demand, if_true]
  rfl

variable {secs : Nat}

theorem isoFromUnix_eq (h : secs < 253402300800) :
    ∃ year month day : Nat, year ≤ 9999 ∧
      DateFields (zeroPadded 4 year) (zeroPadded 2 month) (zeroPadded 2 day) year month day ∧
      Civil.dayNumber year month day = (secs / 86400 : Nat) + 719468 ∧
      isoFromUnix secs = zeroPadded 4 year ++ '-' :: (zeroPadded 2 month ++ '-' :: (zeroPadded 2 day ++
        'T' :: (clockText (secs % 86400 / 3600) (secs % 86400 % 3600 / 60) (secs % 86400 % 60) ++
          ['Z']))) := by
  obtain ⟨year, month, day, hcivil, hmlo, hmhi, hdlo, hdhi, hnumber⟩ :=
    civilFromDays_date (secs / 86400 : Nat)
  have hday : day ≤ 31 := by
    obtain ⟨days, hdays, -, hle⟩ := CivilDate.monthLengths_some year hmlo hmhi
    rw [CivilDate.monthLength, hdays, Option.getD_some] at hdhi
    omega
  have hyear : 0 ≤ year ∧ year ≤ 9999 := year_bounds hmlo hmhi ⟨hdlo, hday⟩ (by omega) (by omega)
  obtain ⟨year, rfl⟩ := Int.eq_ofNat_of_zero_le hyear.1
  have hdays : min ((secs : Int) / 86400) (i64Bound - 1) = (secs / 86400 : Nat) := by
    rw [i64Bound]
    omega
  refine ⟨year, month, day, by omega, dateFields_zeroPadded (by omega) hmlo hmhi ⟨hdlo, hday⟩ hdhi,
    hnumber, ?_⟩
  rw [isoFromUnix]
  simp only [hdays, hcivil, clockText, List.append_assoc, List.cons_append]

theorem trim_isoFromUnix (h : secs < 253402300800) : trim (isoFromUnix secs) = isoFromUnix secs := by
  obtain ⟨year, month, day, -, -, -, heq⟩ := isoFromUnix_eq h
  refine trim_of_no_whitespace fun c hc => ?_
  have hbounds : 45 ≤ c.toNat ∧ c.toNat ≤ 90 := by
    simp only [heq, List.mem_append, List.mem_cons, List.not_mem_nil, or_false] at hc
    rcases hc with h | rfl | h | rfl | h | rfl | h | rfl
    · have hdigit := mem_zeroPadded h
      omega
    · decide
    · have hdigit := mem_zeroPadded h
      omega
    · decide
    · have hdigit := mem_zeroPadded h
      omega
    · decide
    · have hclock := mem_clockText h
      omega
    · decide
  simp only [isWhitespace, Bool.or_eq_false_iff, Bool.and_eq_false_iff, decide_eq_false_iff_not,
    beq_eq_false_iff_ne]
  omega

theorem parse_isoFromUnix (h : secs < 253402300800) :
    parseIso8601Epoch (isoFromUnix secs) = .value ⟨secs, []⟩ := by
  obtain ⟨year, month, day, hyear, hfields, hnumber, heq⟩ := isoFromUnix_eq h
  obtain ⟨-, -, hmonth, hday⟩ := hfields.bounds
  have hclock : parseClockTime
      (clockText (secs % 86400 / 3600) (secs % 86400 % 3600 / 60) (secs % 86400 % 60) ++ ['Z']) =
        .value _ :=
    parseClockTime_clockText (by omega) (by omega) (by omega)
  rw [parseIso8601Epoch_of_fields ((trim_isoFromUnix h).trans heq) hfields,
    parseTimeSection_of_separator _ (by decide), hclock, bind_value,
    daysFromCivil_eq (by omega) (by omega) hmonth hday, bind_value, hnumber]
  have hrange := clock_inRange (show secs % 86400 / 3600 ≤ 23 by omega)
    (show secs % 86400 % 3600 / 60 ≤ 59 by omega)
    (show secs % 86400 % 60 ≤ 59 by omega)
  obtain ⟨seconds, hseconds, hvalue, -⟩ :=
    epochSeconds_yields (show -10000000000 ≤ ((secs / 86400 : Nat) : Int) +
      719468 - 719468 by omega) (by omega) hrange
      (show (-86400 : Int) ≤ 0 ∧ (0 : Int) ≤ 86400 by decide)
  have hsum : seconds = (secs : Int) := by
    rw [hvalue]
    dsimp only
    omega
  rw [hseconds, bind_value, hsum]
  rfl

/-- The day numbers count the days from the epoch on, the seconds of a timestamp are counted from
them, and a timestamp of the workflow is read as the instant it was written for. -/
theorem civil_day_arithmetic :
    (∀ d : CivilDate, 0 ≤ d.year → d.year ≤ 9999 →
      ∃ n, daysFromCivil d.year d.month d.day = .value n ∧
        daysFromCivil d.next.year d.next.month d.next.day = .value (n + 1)) ∧
    daysFromCivil 1970 1 1 = .value 0 ∧
    (∀ value epoch, parseIso8601Epoch value = .value epoch → epoch.fraction = [] →
      ∃ date clock n, ReadsAs value date clock ∧ clock.fraction = [] ∧
        daysFromCivil date.year date.month date.day = .value n ∧
        epoch.seconds = 86400 * n +
          (3600 * clock.hour + 60 * clock.minute + clock.second) - clock.offset ∧
        -9007199254740992 ≤ epoch.seconds ∧ epoch.seconds ≤ 9007199254740992) ∧
    (∀ (secs : Nat) (n : Int), daysFromCivil 10000 1 1 = .value n → (secs : Int) < 86400 * n →
      parseIso8601Epoch (isoFromUnix secs) = .value ⟨secs, []⟩) := by
  refine ⟨daysFromCivil_next, by decide +kernel, ?_, ?_⟩
  · intro value epoch hvalue hfraction
    obtain ⟨date, clock, n, hreads, hn, hsame, hseconds, hexact⟩ := epoch_eq hvalue
    exact ⟨date, clock, n, hreads, hsame.symm.trans hfraction, hn, hseconds, hexact⟩
  · intro secs n hn hsecs
    have hyear : daysFromCivil 10000 1 1 = .value 2932897 := by decide +kernel
    obtain rfl := Guarded.value.inj (hyear.symm.trans hn)
    exact parse_isoFromUnix (by omega)

theorem civil_day_arithmetic_leap_day :
    (∃ n, daysFromCivil 2024 2 28 = .value n ∧ daysFromCivil 2024 2 29 = .value (n + 1)) ∧
    parseIso8601Epoch (isoFromUnix 1709210096) = .value ⟨1709210096, []⟩ ∧
    isoFromUnix 1709210096 = "2024-02-29T12:34:56Z" := by
  refine ⟨?_, ?_, by decide +kernel⟩
  · obtain ⟨n, hn, hnext⟩ := civil_day_arithmetic.1
      ⟨2024, 2, 28, by decide, by decide, 29, by decide, by decide⟩ (by decide) (by decide)
    exact ⟨n, hn, hnext⟩
  · exact civil_day_arithmetic.2.2.2 1709210096 2932897 (by decide +kernel) (by decide)

end Pgokf.Documents
