import Pgokf.Sync.Iso8601

/-! # The grammar of timestamps (`catalog/iso8601.rs`)

A date, or a date with a time and an optional zone. What stands in the number fields is a parameter:
the parser of integers takes more than the documented digits. -/

namespace Pgokf.Sync

open Lib Lib.Guarded

abbrev NumberField := Nat → Text → Int → Prop

def Reads : NumberField := fun _ text value => parseI64 text = some value

def Digits : NumberField := fun width text value => text.length = width ∧ text.all isDigit ∧
    value = digitsValue text

def monthLengths (year : Int) : List Nat :=
  [31, if 4 ∣ year ∧ (100 ∣ year → 400 ∣ year) then 29 else 28, 31, 30, 31, 30, 31, 31, 30, 31, 30, 31]

section Grammar

variable (Number : NumberField)

inductive IsCivilDate : Text → Prop
  | intro {yearText monthText dayText : Text} {year : Int} {month day days : Nat}
    (hyear : Number 4 yearText year)
    (hmonth : Number 2 monthText month) (hday : Number 2 dayText day) (yearLength : yearText.length = 4)
    (monthLength : monthText.length = 2) (dayLength : dayText.length = 2) (hpos : 1 ≤ month ∧ 1 ≤ day)
    (hreal : (monthLengths year)[month - 1]? = some days ∧ day ≤ days) :
      IsCivilDate (yearText ++ '-' :: (monthText ++ '-' :: dayText))

def UpTo (bound : Int) (text : Text) : Prop := ∃ value, Number 2 text value ∧ 0 ≤ value ∧ value ≤ bound

inductive IsTime : Text → Prop
  | minutes {hour minute : Text} : UpTo Number 23 hour → UpTo Number 59 minute →
    IsTime (hour ++ ':' :: minute)
  | seconds {hour minute second : Text} : UpTo Number 23 hour → UpTo Number 59 minute →
    UpTo Number 60 second →
      IsTime (hour ++ ':' :: (minute ++ ':' :: second))
  | fraction {hour minute second digits : Text} : UpTo Number 23 hour → UpTo Number 59 minute →
    UpTo Number 60 second →
      digits ≠ [] → digits.all isDigit →
        IsTime (hour ++ ':' :: (minute ++ ':' :: (second ++ '.' :: digits)))

inductive IsZone : Text → Prop
  | naive : IsZone []
  | utc {letter : Char} : letter ∈ ['Z', 'z'] → IsZone [letter]
  | hours {sign : Char} {hour : Text} : sign ∈ ['+', '-'] → hour.length = 2 → UpTo Number 23 hour →
    IsZone (sign :: hour)
  | compact {sign : Char} {hour minute : Text} : sign ∈ ['+', '-'] → hour.length = 2 →
    minute.length = 2 →
      UpTo Number 23 hour → UpTo Number 59 minute → IsZone (sign :: (hour ++ minute))
  | colon {sign : Char} {hour minute : Text} : sign ∈ ['+', '-'] → UpTo Number 23 hour →
    UpTo Number 59 minute →
      IsZone (sign :: (hour ++ ':' :: minute))

inductive IsTimestamp : Text → Prop
  | date {date : Text} : IsCivilDate Number date → IsTimestamp date
  | instant {date time zone : Text} {separator : Char} : IsCivilDate Number date →
    separator ∈ ['T', 't', ' '] →
      IsTime Number time → IsZone Number zone → IsTimestamp (date ++ separator :: (time ++ zone))

end Grammar

/- The number fields of a text with their widths, by their places. -/
def zoneNumbers : Text → List (Nat × Text)
  | [] => []
  | sign :: body =>
    if sign = '+' ∨ sign = '-' then
      match splitOnce ':' body with
      | some (hours, minutes) => [(2, hours), (2, minutes)]
      | none => if body.length = 2 then [(2, body)] else [(2, body.take 2), (2, body.drop 2)]
    else []

def timeNumbers : Text → List (Nat × Text)
  | [] => []
  | _ :: timeAndZone =>
    (((timeAndZone.takeWhile fun c => !isZoneMarker c).splitOn ':').map fun field =>
      (2, field.takeWhile (· ≠ '.'))) ++
      zoneNumbers (timeAndZone.dropWhile fun c => !isZoneMarker c)

def numberFields (text : Text) : List (Nat × Text) :=
  [(4, text.take 4), (2, (text.drop 5).take 2), (2, (text.drop 8).take 2)] ++ timeNumbers (text.drop 10)

def PlainNumbers (text : Text) : Prop := ∀ field ∈ numberFields text, field.2.length = field.1 ∧
    field.2.all isDigit

/-! ### What the parsers accept -/

section Mono

variable {M N : NumberField}

variable {t : Text}

theorem UpTo.mono (h : ∀ w t v, M w t v → N w t v) {bound : Int} (ht : UpTo M bound t) :
    UpTo N bound t := by
  obtain ⟨value, hvalue, hrange⟩ := ht
  exact ⟨value, h _ _ _ hvalue, hrange⟩

theorem IsCivilDate.mono (h : ∀ w t v, M w t v → N w t v) (ht : IsCivilDate M t) : IsCivilDate N t := by
  cases ht with
  | intro hyear hmonth hday yearLength monthLength dayLength hpos hreal =>
    exact .intro (h _ _ _ hyear) (h _ _ _ hmonth)
      (h _ _ _ hday) yearLength monthLength dayLength hpos hreal

theorem IsTime.mono (h : ∀ w t v, M w t v → N w t v) (ht : IsTime M t) : IsTime N t := by
  cases ht with
  | minutes hhour hminute => exact .minutes (hhour.mono h) (hminute.mono h)
  | seconds hhour hminute hsecond => exact .seconds (hhour.mono h) (hminute.mono h) (hsecond.mono h)
  | fraction hhour hminute hsecond hne hall =>
    exact .fraction (hhour.mono h) (hminute.mono h) (hsecond.mono h) hne hall

theorem IsZone.mono (h : ∀ w t v, M w t v → N w t v) (ht : IsZone M t) : IsZone N t := by
  cases ht with
  | naive => exact .naive
  | utc hletter => exact .utc hletter
  | hours hsign hlength hhour => exact .hours hsign hlength (hhour.mono h)
  | compact hsign hlength hlength' hhour hminute =>
    exact .compact hsign hlength hlength' (hhour.mono h) (hminute.mono h)
  | colon hsign hhour hminute => exact .colon hsign (hhour.mono h) (hminute.mono h)

theorem IsTimestamp.mono (h : ∀ w t v, M w t v → N w t v) (ht : IsTimestamp M t) : IsTimestamp N t := by
  cases ht with
  | date hdate => exact .date (hdate.mono h)
  | instant hdate hseparator htime hzone =>
    exact .instant (hdate.mono h) hseparator (htime.mono h) (hzone.mono h)

end Mono

/- The numbers the parser reads from fields of a list. -/
def ReadsFrom (fields : List (Nat × Text)) : NumberField := fun width text value =>
  parseI64 text = some value ∧ (width, text) ∈ fields

variable {text : Text} {value : Int}

theorem upTo_readsFrom {fields : List (Nat × Text)} {bound : Int} (h : parseI64 text = some value)
    (hmem : (2, text) ∈ fields) (hlo : 0 ≤ value) (hhi : value ≤ bound) :
      UpTo (ReadsFrom fields) bound text :=
  ⟨value, ⟨h, hmem⟩, hlo, hhi⟩

theorem monthLengths_of_daysInMonth {year : Int} {month days : Nat}
    (h : daysInMonth year month = some days) :
    (monthLengths year)[month - 1]? = some days := by
  have hleap : isLeapYear year = decide (4 ∣ year ∧ (100 ∣ year → 400 ∣ year)) := by
    rw [isLeapYear, Bool.eq_iff_iff]
    simp only [Bool.or_eq_true, Bool.and_eq_true, beq_iff_eq, bne_iff_ne, ne_eq, decide_eq_true_eq,
      ← Int.dvd_iff_tmod_eq_zero]
    omega
  unfold daysInMonth at h
  split at h <;> cases h
  case h_12 =>
    simp only [hleap, decide_eq_true_eq]
    rfl
  all_goals rfl

section Accepted

variable {fields : List (Nat × Text)}

theorem isCivilDate_of_fields {yearText monthText dayText : Text} {year : Int} {month day : Nat}
    (h : DateFields yearText monthText dayText year month day) (hyear : (4, yearText) ∈ fields)
    (hmonth : (2, monthText) ∈ fields) (hday : (2, dayText) ∈ fields) :
    IsCivilDate (ReadsFrom fields) (yearText ++ '-' :: (monthText ++ '-' :: dayText)) := by
  obtain ⟨-, -, hmonthLe, hdayLe⟩ := h.bounds
  obtain ⟨days, hdays, hle⟩ := h.real
  have hbound : i64Bound = 9223372036854775808 := rfl
  have hmonthRead := parseI64_of_parseUnsigned h.month_eq (by omega)
  have hdayRead := parseI64_of_parseUnsigned h.day_eq (by omega)
  exact .intro ⟨h.year_eq, hyear⟩ ⟨hmonthRead, hmonth⟩ ⟨hdayRead, hday⟩ h.year_length h.month_length
    h.day_length
    ⟨(daysInMonth_some hdays).1, h.day_pos⟩ ⟨monthLengths_of_daysInMonth hdays, hle⟩

/- The four bytes of an offset without a colon are two and two ASCII characters once both halves are
numbers. -/
theorem compact_lengths {body hours minutes : Text} {h m : Int} (hfour : (utf8Bytes body).length = 4)
    (hto : sliceTo body 2 = .value hours) (hfrom : sliceFrom body 2 = .value minutes)
    (hh : parseI64 hours = some h)
    (hm : parseI64 minutes = some m) : body = hours ++ minutes ∧ hours.length = 2 ∧
      minutes.length = 2 := by
  obtain ⟨y, rfl, hhours⟩ := sliceTo_eq_value.mp hto
  obtain ⟨x, hsplit, hx⟩ := sliceFrom_eq_value.mp hfrom
  obtain ⟨rfl, rfl⟩ := utf8Bytes_append_inj hsplit (hhours.trans hx.symm)
  rw [utf8Bytes_append, List.length_append, length_utf8Bytes_of_ascii (parseI64_ascii hh),
    length_utf8Bytes_of_ascii (parseI64_ascii hm)] at hfour
  rw [length_utf8Bytes_of_ascii (parseI64_ascii hh)] at hhours
  exact ⟨rfl, hhours, by omega⟩

theorem isZone_of_value {zone : Text} {offset : Int} (h : parseZoneOffsetSecs zone = .value offset)
    (hfields : zoneNumbers zone ⊆ fields) : IsZone (ReadsFrom fields) zone := by
  cases zone with
  | nil => exact .naive
  | cons sign body =>
    by_cases hsign : sign = '+' ∨ sign = '-'
    · have hmem : sign ∈ ['+', '-'] := by simpa using hsign
      rw [parseZone_of_sign hsign, parseZoneBody] at h
      simp only [bind_eq_value, ofOption_eq_value, demand_eq_value, decide_eq_true_eq] at h
      obtain ⟨⟨hours, minutes⟩, hbody, h, hh, m, hm, -, ⟨hh0, hh23, hm0, hm59⟩, -⟩ := h
      rw [zoneNumbers, if_pos hsign] at hfields
      rw [splitZoneBody] at hbody
      cases hsplit : splitOnce ':' body with
      | some pair =>
        obtain ⟨rfl, -⟩ := splitOnce_some.mp hsplit
        simp only [hsplit, pure_eq_value] at hbody hfields
        subst hbody
        exact .colon hmem (upTo_readsFrom hh (hfields (by simp)) hh0 hh23)
          (upTo_readsFrom hm (hfields (by simp)) hm0 hm59)
      | none =>
        simp only [hsplit] at hbody hfields
        by_cases hfour : (utf8Bytes body).length = 4
        · simp only [if_pos hfour, bind_eq_value, pure_eq_value, Prod.mk.injEq] at hbody
          obtain ⟨hourText, hto, minuteText, hfrom, rfl, rfl⟩ := hbody
          obtain ⟨rfl, hhours, hminutes⟩ := compact_lengths hfour hto hfrom hh hm
          have hlength : ¬(hourText ++ minuteText).length = 2 := by
            rw [List.length_append, hhours, hminutes]
            decide
          rw [if_neg hlength, List.take_left' hhours, List.drop_left' hhours] at hfields
          exact .compact hmem hhours hminutes (upTo_readsFrom hh (hfields (by simp)) hh0 hh23)
            (upTo_readsFrom hm (hfields (by simp)) hm0 hm59)
        · by_cases htwo : (utf8Bytes body).length = 2
          · simp only [if_neg hfour, if_pos htwo, pure_eq_value, Prod.mk.injEq] at hbody
            obtain ⟨rfl, -⟩ := hbody
            rw [length_utf8Bytes_of_ascii (parseI64_ascii hh)] at htwo
            rw [if_pos htwo] at hfields
            exact .hours hmem htwo (upTo_readsFrom hh (hfields (by simp)) hh0 hh23)
          · simp [hfour, htwo] at hbody
    · rw [parseZone_of_other hsign] at h
      split at h
      next hutc =>
        rcases hutc with hutc | hutc <;>
          (rw [hutc]; exact .utc (by simp))
      next => cases h

theorem parseI64_no_point {t : Text} {n : Int} (h : parseI64 t = some n) :
    t.takeWhile (· ≠ '.') = t := by
  obtain ⟨digits, ht, -, hall, -⟩ := parseI64_digits h
  have hdigits : ∀ c ∈ digits, c ≠ '.' := by
    rintro c hc rfl
    exact absurd (List.all_eq_true.mp hall '.' hc) (by decide)
  refine List.takeWhile_eq_self_iff.mpr fun c hc => decide_eq_true ?_
  rcases ht with rfl | rfl | rfl
  · exact hdigits c hc
  · rcases List.mem_cons.mp hc with rfl | hc
    · decide
    · exact hdigits c hc
  · rcases List.mem_cons.mp hc with rfl | hc
    · decide
    · exact hdigits c hc

theorem isTime_of_fields {time : Text} {clock : ClockTime}
    (h : parseClockFields (time.splitOn ':') = some clock) (hrange : clock.inRange)
    (hfields : ((time.splitOn ':').map fun field => (2, field.takeWhile (· ≠ '.'))) ⊆ fields) :
    IsTime (ReadsFrom fields) time := by
  have htime : [':'].intercalate (time.splitOn ':') = time := List.intercalate_splitOn ':'
  rw [ClockTime.inRange, decide_eq_true_eq] at hrange
  generalize time.splitOn ':' = texts at h hfields htime
  unfold parseClockFields at h
  split at h
  next hour minute =>
    simp only [Option.bind_eq_bind, Option.bind_eq_some_iff, Option.pure_def, Option.some.injEq] at h
    obtain ⟨h, hh, m, hm, rfl⟩ := h
    obtain rfl : hour ++ ':' :: minute = time := by simpa [List.intercalate] using htime
    simp only [List.map_cons, List.map_nil, parseI64_no_point hh, parseI64_no_point hm] at hfields
    exact .minutes (upTo_readsFrom hh (hfields (by simp)) hrange.1 hrange.2.1)
      (upTo_readsFrom hm (hfields (by simp)) hrange.2.2.1 hrange.2.2.2.1)
  next hour minute second =>
    simp only [Option.bind_eq_bind, Option.bind_eq_some_iff, Option.pure_def, Option.some.injEq] at h
    obtain ⟨h, hh, m, hm, ⟨s, fraction⟩, hs, rfl⟩ := h
    obtain rfl : hour ++ ':' :: (minute ++ ':' :: second) = time :=
      by simpa [List.intercalate] using htime
    simp only [List.map_cons, List.map_nil, parseI64_no_point hh, parseI64_no_point hm] at hfields
    have hhour := upTo_readsFrom hh (hfields (by simp)) hrange.1 hrange.2.1
    have hminute := upTo_readsFrom hm (hfields (by simp)) hrange.2.2.1 hrange.2.2.2.1
    have hsecond : (2, second.takeWhile (· ≠ '.')) ∈ fields := hfields (by simp)
    rw [parseSecondsField] at hs
    cases hsplit : splitOnce '.' second with
    | none =>
      simp only [hsplit, Option.map_eq_some_iff, Prod.mk.injEq] at hs
      obtain ⟨n, hn, rfl, rfl⟩ := hs
      rw [parseI64_no_point hn] at hsecond
      exact .seconds hhour hminute (upTo_readsFrom hn hsecond hrange.2.2.2.2.1 hrange.2.2.2.2.2)
    | some pair =>
      obtain ⟨whole, frac⟩ := pair
      obtain ⟨rfl, hwhole⟩ := splitOnce_some.mp hsplit
      simp only [hsplit] at hs
      by_cases hfrac : frac = [] ∨ !frac.all isDigit
      · rw [if_pos hfrac] at hs
        cases hs
      · rw [if_neg hfrac, Option.map_eq_some_iff] at hs
        obtain ⟨n, hn, hpair⟩ := hs
        obtain ⟨rfl, rfl⟩ := Prod.mk.inj hpair
        have hbefore : ∀ c ∈ whole, decide (c ≠ '.') = true := by
          intro c hc
          refine decide_eq_true ?_
          rintro rfl
          exact hwhole hc
        have htake : (whole ++ '.' :: frac).takeWhile (· ≠ '.') = whole := by
          rw [List.takeWhile_append_of_pos hbefore]
          simp
        rw [htake] at hsecond
        rw [not_or, Bool.not_eq_true', Bool.not_eq_false] at hfrac
        exact .fraction hhour hminute
          (upTo_readsFrom hn hsecond hrange.2.2.2.2.1 hrange.2.2.2.2.2) hfrac.1 hfrac.2
  next => cases h

end Accepted

theorem numberFields_eq {yearText monthText dayText : Text} (rest : Text) (hyear : yearText.length = 4)
    (hmonth : monthText.length = 2) (hday : dayText.length = 2) :
    numberFields (yearText ++ '-' :: (monthText ++ '-' :: (dayText ++ rest))) =
      [(4, yearText), (2, monthText), (2, dayText)] ++ timeNumbers rest := by
  have hfive : (yearText ++ ['-']).length = 5 := by
    rw [List.length_append, hyear]
    rfl
  have height : (yearText ++ ['-'] ++ monthText ++ ['-']).length = 8 := by
    rw [List.length_append, List.length_append, hfive, hmonth]
    rfl
  have hten : (yearText ++ ['-'] ++ monthText ++ ['-'] ++ dayText).length = 10 := by
    rw [List.length_append, height, hday]
  have hdropFive : (yearText ++ '-' :: (monthText ++ '-' :: (dayText ++ rest))).drop 5 =
      monthText ++ '-' :: (dayText ++ rest) :=
    (congrArg (List.drop 5) (by simp)).trans (List.drop_left' hfive)
  have hdropEight : (yearText ++ '-' :: (monthText ++ '-' :: (dayText ++ rest))).drop 8 =
    dayText ++ rest :=
    (congrArg (List.drop 8) (by simp)).trans (List.drop_left' height)
  have hdropTen : (yearText ++ '-' :: (monthText ++ '-' :: (dayText ++ rest))).drop 10 = rest :=
    (congrArg (List.drop 10) (by simp)).trans (List.drop_left' hten)
  rw [numberFields, hdropFive, hdropEight, hdropTen, List.take_left' hyear, List.take_left' hmonth,
    List.take_left' hday]

/- Every accepted text has a documented form, with numbers the integer parser reads at the places of
the fields. -/
theorem isTimestamp_of_value {value : Text} {epoch : Epoch}
    (h : parseIso8601Epoch value = .value epoch) :
    IsTimestamp (ReadsFrom (numberFields (trim value))) (trim value) := by
  have hdate : ∃ date, parseCivilDate (trim value) = .value date := by
    rw [parseIso8601Epoch, bind_eq_value] at h
    obtain ⟨date, hdate, -⟩ := h
    exact ⟨date, hdate⟩
  obtain ⟨⟨year, month, day⟩, hdate⟩ := hdate
  obtain ⟨yearText, monthText, dayText, rest, hvalue, hfields⟩ := parseCivilDate_eq_value.mp hdate
  rw [parseIso8601Epoch_of_fields hvalue hfields, bind_eq_value] at h
  obtain ⟨clock, hclock, -⟩ := h
  have hnumbers := numberFields_eq rest hfields.year_length hfields.month_length hfields.day_length
  rw [hvalue, hnumbers]
  have hcivil : IsCivilDate
    (ReadsFrom ([(4, yearText), (2, monthText), (2, dayText)] ++ timeNumbers rest))
      (yearText ++ '-' :: (monthText ++ '-' :: dayText)) :=
    isCivilDate_of_fields hfields (by simp) (by simp) (by simp)
  cases rest with
  | nil =>
    rw [List.append_nil]
    exact .date hcivil
  | cons separator timeAndZone =>
    by_cases hseparator : separator ∈ ['T', 't', ' ']
    · rw [parseTimeSection_of_separator _ hseparator, parseClockTime, splitTimeZone_eq] at hclock
      simp only [bind_value, bind_eq_value, ofOption_eq_value, demand_eq_value] at hclock
      obtain ⟨parsed, hparsed, -, hrange, offset, hoffset, -⟩ := hclock
      have hshape : yearText ++ '-' :: (monthText ++ '-' :: (dayText ++ separator :: timeAndZone)) =
          yearText ++ '-' :: (monthText ++ '-' :: dayText) ++ separator ::
            (timeAndZone.takeWhile (fun c => !isZoneMarker c) ++ timeAndZone.dropWhile fun c =>
              !isZoneMarker c) := by
        rw [List.takeWhile_append_dropWhile]
        simp
      rw [hshape]
      refine .instant hcivil hseparator (isTime_of_fields hparsed hrange ?_) (isZone_of_value hoffset ?_)
      · intro field hfield
        exact List.mem_append_right _ (List.mem_append_left _ hfield)
      · intro field hfield
        exact List.mem_append_right _ (List.mem_append_right _ hfield)
    · rw [parseTimeSection_of_other _ hseparator] at hclock
      cases hclock

theorem digits_of_reads {width : Nat} (h : parseI64 text = some value) (hlength : text.length = width)
    (hall : text.all isDigit) : Digits width text value := by
  refine ⟨hlength, hall, ?_⟩
  unfold parseI64 at h
  split at h
  next rest => exact absurd (List.all_eq_true.mp hall '-' List.mem_cons_self) (by decide)
  next rest => exact absurd (List.all_eq_true.mp hall '+' List.mem_cons_self) (by decide)
  next =>
    simp only [Option.map_eq_some_iff, Option.filter_eq_some_iff, parseDigits_eq_some] at h
    obtain ⟨n, ⟨⟨-, -, rfl⟩, -⟩, rfl⟩ := h
    rfl

theorem accepted_timestamp_form (value : Text) (epoch : Epoch)
    (h : parseIso8601Epoch value = .value epoch) :
    IsTimestamp Reads (trim value) ∧ (PlainNumbers (trim value) → IsTimestamp Digits (trim value)) := by
  have hform := isTimestamp_of_value h
  refine ⟨hform.mono fun _ _ _ hread => hread.1, fun hplain =>
    hform.mono fun width text number hread => ?_⟩
  obtain ⟨hlength, hall⟩ := hplain _ hread.2
  exact digits_of_reads hread.1 hlength hall

theorem accepted_timestamp_form_offset :
    parseIso8601Epoch " 2024-02-29t23:59:60.25+05:30 " = .value ⟨1709231400, "25"⟩ ∧
      IsTimestamp Digits "2024-02-29t23:59:60.25+05:30" := by
  have hvalue : parseIso8601Epoch " 2024-02-29t23:59:60.25+05:30 " = .value ⟨1709231400, "25"⟩ := by
    decide +kernel
  have htrim : trim " 2024-02-29t23:59:60.25+05:30 " = "2024-02-29t23:59:60.25+05:30" := by
    decide +kernel
  have hplain : PlainNumbers "2024-02-29t23:59:60.25+05:30" := by
    unfold PlainNumbers
    decide +kernel
  have hform := accepted_timestamp_form _ _ hvalue
  rw [htrim] at hform
  exact ⟨hvalue, hform.2 hplain⟩

theorem IsTimestamp.head_isDigit {t : Text} (h : IsTimestamp Digits t) : ∃ c rest, t = c :: rest ∧
    isDigit c := by
  have hcivil : ∀ {date : Text}, IsCivilDate Digits date → ∃ c rest, date = c :: rest ∧ isDigit c := by
    intro date hdate
    cases hdate with
    | @intro yearText _ _ _ _ _ _ hyear =>
      cases yearText with
      | nil => exact absurd hyear.1 (by decide)
      | cons c rest => exact ⟨c, _, rfl, List.all_eq_true.mp hyear.2.1 c List.mem_cons_self⟩
  cases h with
  | date hdate => exact hcivil hdate
  | instant hdate =>
    obtain ⟨c, rest, rfl, hc⟩ := hcivil hdate
    exact ⟨c, _, rfl, hc⟩

theorem surrounding_blank_accepted :
    parseIso8601Epoch " 2026-01-01" = .value ⟨1767225600, []⟩ ∧ ¬IsTimestamp Digits " 2026-01-01" := by
  refine ⟨by decide +kernel, fun h => ?_⟩
  obtain ⟨c, rest, hcons, hc⟩ := h.head_isDigit
  obtain ⟨rfl, -⟩ := List.cons.inj hcons
  exact absurd hc (by decide)

end Pgokf.Sync
