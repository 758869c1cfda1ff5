import Mathlib.Data.List.TakeWhile
import Pgokf.Lib.Civil
import Pgokf.Lib.Path
import Pgokf.Lib.Utf8
import Pgokf.ParseInt

/-! # Timestamps of producers (`catalog/iso8601.rs`)

The epoch of a timestamp is computed without the database, such that a malformed one gives no value.
-/

namespace Pgokf.Sync

open Lib Lib.Guarded

def isLeapYear (year : Int) : Bool := (year.tmod 4 == 0 && year.tmod 100 != 0) || year.tmod 400 == 0

def daysInMonth (year : Int) (month : Nat) : Option Nat :=
  match month with
  | 1 | 3 | 5 | 7 | 8 | 10 | 12 => some 31
  | 4 | 6 | 9 | 11 => some 30
  | 2 => some (if isLeapYear year then 29 else 28)
  | _ => none

/- Every intermediate result of an expression goes through here. -/
def i64 (n : Int) : Guarded Int := if -i64Bound ≤ n ∧ n < i64Bound then .value n else .fault .overflow

def daysFromCivil (year : Int) (month day : Nat) : Guarded Int := do
  let year ← i64 (if month ≤ 2 then year - 1 else year)
  let shifted ← i64 (if 0 ≤ year then year else year - 399)
  let era ← i64 (shifted.tdiv 400)
  let eraStart ← i64 (era * 400)
  let yearOfEra ← i64 (year - eraStart)
  let marchMonth ← i64 (if 2 < month then (month : Int) - 3 else month + 9)
  let monthDays ← i64 (153 * marchMonth)
  let monthDays ← i64 (monthDays + 2)
  let dayOfYear ← i64 (monthDays.tdiv 5 + day)
  let dayOfYear ← i64 (dayOfYear - 1)
  let dayOfEra ← i64 (yearOfEra * 365)
  let dayOfEra ← i64 (dayOfEra + yearOfEra.tdiv 4)
  let dayOfEra ← i64 (dayOfEra - yearOfEra.tdiv 100)
  let dayOfEra ← i64 (dayOfEra + dayOfYear)
  let eraDays ← i64 (era * 146097)
  let days ← i64 (eraDays + dayOfEra)
  i64 (days - 719468)

variable {n : Int}

theorem i64_yields (bound : Int) (hlo : -bound ≤ n) (hhi : n ≤ bound) (hbound : bound < i64Bound) :
    Yields (i64 n) (fun m => m = n ∧ -bound ≤ m ∧ m ≤ bound) := by
  refine ⟨n, if_pos ⟨?_, ?_⟩, rfl, hlo, hhi⟩
  · omega
  · omega

theorem tdiv_bounds {bound : Int} (k : Int) (hlo : -bound ≤ n) (hhi : n ≤ bound) :
    -bound ≤ n.tdiv k ∧ n.tdiv k ≤ bound := by
  have habs : (n.tdiv k).natAbs ≤ n.natAbs := by
    rw [Int.natAbs_tdiv]
    exact Nat.div_le_self _ _
  omega

theorem era_eq (year : Int) : (if 0 ≤ year then year else year - 399).tdiv 400 = year / 400 := by
  split
  next h => exact Int.tdiv_eq_ediv_of_nonneg h
  next h =>
    have hneg : (year - 399).tdiv 400 = -((399 - year) / 400) := by
      rw [← Int.neg_neg (year - 399), Int.neg_tdiv, Int.neg_sub, Int.tdiv_eq_ediv_of_nonneg (by omega)]
    rw [hneg]
    omega

variable {year : Int} {month day : Nat}

/- The bounds are coarse: the years have four characters, and nothing comes near the range of the
type. -/
theorem daysFromCivil_yields (hlo : -9999 ≤ year) (hhi : year ≤ 10000) (hmonth : month ≤ 12)
    (hday : day ≤ 31) :
    Yields (daysFromCivil year month day) fun days =>
      days = Civil.dayNumber year month day - 719468 ∧ -10000000000 ≤ days ∧ days ≤ 10000000000 := by
  have hbound : (i64Bound : Int) = 9223372036854775808 := rfl
  rw [daysFromCivil]
  refine .bind (i64_yields 10000 (by split <;> omega) (by split <;> omega) (by omega)) fun y hy => ?_
  refine .bind (i64_yields 20000 (by split <;> omega) (by split <;> omega) (by omega))
    fun shifted hshifted => ?_
  have heraBounds := tdiv_bounds 400 hshifted.2.1 hshifted.2.2
  refine .bind (i64_yields 20000 heraBounds.1 heraBounds.2 (by omega)) fun era hera => ?_
  have hera' : era = y / 400 := by rw [hera.1, hshifted.1, era_eq]
  refine .bind (i64_yields 8000000 (by omega) (by omega) (by omega)) fun eraStart heraStart => ?_
  refine .bind (i64_yields 9000000 (by omega) (by omega) (by omega)) fun yearOfEra hyearOfEra => ?_
  have hnonneg : 0 ≤ yearOfEra ∧ yearOfEra < 400 := by omega
  refine .bind (i64_yields 21 (by split <;> omega) (by split <;> omega) (by omega))
    fun marchMonth hmarchMonth => ?_
  have hmonthNonneg : 0 ≤ marchMonth := by
    rw [hmarchMonth.1]
    split <;> omega
  refine .bind (i64_yields 4000 (by omega) (by omega) (by omega)) fun scaled hscaled => ?_
  refine .bind (i64_yields 4002 (by omega) (by omega) (by omega)) fun monthDays hmonthDays => ?_
  rw [Int.tdiv_eq_ediv_of_nonneg (by omega), Int.tdiv_eq_ediv_of_nonneg hnonneg.1,
    Int.tdiv_eq_ediv_of_nonneg hnonneg.1]
  refine .bind (i64_yields 5000 (by omega) (by omega) (by omega)) fun dayOfYear hdayOfYear => ?_
  refine .bind (i64_yields 5001 (by omega) (by omega) (by omega)) fun dayOfYear' hdayOfYear' => ?_
  refine .bind (i64_yields 4000000000 (by omega) (by omega) (by omega)) fun d1 hd1 => ?_
  refine .bind (i64_yields 4100000000 (by omega) (by omega) (by omega)) fun d2 hd2 => ?_
  refine .bind (i64_yields 4200000000 (by omega) (by omega) (by omega)) fun d3 hd3 => ?_
  refine .bind (i64_yields 4300000000 (by omega) (by omega) (by omega)) fun dayOfEra hdayOfEra => ?_
  refine .bind (i64_yields 4000000000 (by omega) (by omega) (by omega)) fun eraDays heraDays => ?_
  refine .bind (i64_yields 9000000000 (by omega) (by omega) (by omega)) fun days hdays => ?_
  obtain ⟨n, hn, hvalue, hbounds⟩ :=
    i64_yields (n := days - 719468) 10000000000 (by omega) (by omega) (by omega)
  refine ⟨n, hn, ?_, hbounds⟩
  have hyear : Civil.marchYear year month = yearOfEra + era * 400 := by
    rw [Civil.marchYear, ← hy.1]
    omega
  have hmonthStart : Civil.monthStart (Civil.marchMonth month) = monthDays / 5 := by
    rw [Civil.monthStart, Civil.marchMonth, ← hmarchMonth.1, hmonthDays.1, hscaled.1]
  rw [Civil.dayNumber, hyear, Civil.yearStart_era era hnonneg.1 hnonneg.2, hmonthStart]
  omega

/-! ### The zone -/

def isZoneMarker (c : Char) : Bool := c ∈ ['Z', 'z', '+', '-']

def splitTimeZone (remainder : Text) : Guarded (Text × Text) :=
  match findByte isZoneMarker remainder with
  | some index => do
    let time ← sliceTo remainder index
    let zone ← sliceFrom remainder index
    pure (time, zone)
  | none => pure (remainder, [])

def splitZoneBody (body : Text) : Guarded (Text × Text) :=
  match splitOnce ':' body with
  | some fields => pure fields
  | none =>
    if (utf8Bytes body).length = 4 then do
      let hours ← sliceTo body 2
      let minutes ← sliceFrom body 2
      pure (hours, minutes)
    else if (utf8Bytes body).length = 2 then pure (body, "0")
    else .rejected

def zoneSign (first : UInt8) : Option Int :=
  if first = '+'.toUInt8 then some 1 else if first = '-'.toUInt8 then some (-1) else none

def offsetSecs (sign hours minutes : Int) : Guarded Int := do
  let hourSecs ← i64 (hours * 3600)
  let minuteSecs ← i64 (minutes * 60)
  let secs ← i64 (hourSecs + minuteSecs)
  i64 (sign * secs)

/-- The offset behind its sign. -/
def parseZoneBody (sign : Int) (body : Text) : Guarded Int := do
  let fields ← splitZoneBody body
  let hours ← ofOption (parseI64 fields.1)
  let minutes ← ofOption (parseI64 fields.2)
  demand (0 ≤ hours ∧ hours ≤ 23 ∧ 0 ≤ minutes ∧ minutes ≤ 59)
  offsetSecs sign hours minutes

def parseZoneOffsetSecs (zone : Text) : Guarded Int :=
  if zone = [] ∨ zone = ['Z'] ∨ zone = ['z'] then pure 0
  else do
    let first ← byteAt zone 0
    let sign ← ofOption (zoneSign first)
    let body ← sliceFrom zone 1
    parseZoneBody sign body

theorem splitTimeZone_eq (remainder : Text) :
    splitTimeZone remainder =
      .value (remainder.takeWhile fun c => !isZoneMarker c, remainder.dropWhile fun c =>
        !isZoneMarker c) := by
  rw [splitTimeZone]
  cases hfind : findByte isZoneMarker remainder with
  | none =>
    have hnone : ∀ c ∈ remainder, !isZoneMarker c := by
      intro c hc
      by_contra hmarker
      have hany : remainder.any isZoneMarker := List.any_eq_true.mpr ⟨c, hc, by simpa using hmarker⟩
      rw [findByte, if_pos hany] at hfind
      cases hfind
    rw [List.takeWhile_eq_self_iff.mpr hnone, List.dropWhile_eq_nil_iff.mpr hnone]
    rfl
  | some index =>
    obtain ⟨-, rfl⟩ := findByte_eq_some.mp hfind
    have hto := sliceTo_append (x := remainder.takeWhile fun c => !isZoneMarker c)
      (y := remainder.dropWhile fun c => !isZoneMarker c)
    have hfrom := sliceFrom_append (x := remainder.takeWhile fun c => !isZoneMarker c)
      (y := remainder.dropWhile fun c => !isZoneMarker c)
    rw [List.takeWhile_append_dropWhile] at hto hfrom
    simp only [hto, hfrom]
    rfl

variable {time zone : Text} {marker : Char}

theorem takeWhile_marker (htime : ∀ c ∈ time, !isZoneMarker c) (hmarker : isZoneMarker marker) :
    (time ++ marker :: zone).takeWhile (fun c => !isZoneMarker c) = time := by
  rw [List.takeWhile_append_of_pos htime, List.takeWhile_cons]
  simp [hmarker]

theorem dropWhile_marker (htime : ∀ c ∈ time, !isZoneMarker c) (hmarker : isZoneMarker marker) :
    (time ++ marker :: zone).dropWhile (fun c => !isZoneMarker c) = marker :: zone := by
  rw [List.dropWhile_append_of_pos htime, List.dropWhile_cons]
  simp [hmarker]

/-- An offset of four bytes that has no character boundary between its hours and its minutes. -/
def TornOffset (body : Text) : Prop := ':' ∉ body ∧ (utf8Bytes body).length = 4 ∧ cutAt body 2 = none

instance (body : Text) : Decidable (TornOffset body) := inferInstanceAs (Decidable (_ ∧ _))

variable {body : Text} {f : Fault}

theorem splitZoneBody_eq_fault :
    splitZoneBody body = .fault f ↔ TornOffset body ∧ f = .boundary := by
  rw [splitZoneBody, TornOffset]
  cases hsplit : splitOnce ':' body with
  | some fields =>
    obtain ⟨rfl, -⟩ := splitOnce_some.mp hsplit
    simp
  | none =>
    rw [splitOnce_none] at hsplit
    by_cases hfour : (utf8Bytes body).length = 4
    · simp only [if_pos hfour, bind_eq_fault, sliceTo_eq_fault, sliceTo_eq_value,
        sliceFrom_eq_fault, pure_ne_fault,
        and_false, exists_false, or_false]
      constructor
      · rintro (⟨hcut, rfl⟩ | ⟨x, -, hcut, rfl⟩)
        · exact ⟨⟨hsplit, hfour, hcut⟩, rfl⟩
        · exact ⟨⟨hsplit, hfour, hcut⟩, rfl⟩
      · rintro ⟨⟨-, -, hcut⟩, rfl⟩
        exact .inl ⟨hcut, rfl⟩
    · by_cases htwo : (utf8Bytes body).length = 2
      · simp [htwo]
      · simp [hfour, htwo]

theorem offsetSecs_yields {sign hours minutes : Int} (hsign : sign = 1 ∨ sign = -1)
    (hh : 0 ≤ hours ∧ hours ≤ 23) (hm : 0 ≤ minutes ∧ minutes ≤ 59) :
    Yields (offsetSecs sign hours minutes) fun secs => -86400 ≤ secs ∧ secs ≤ 86400 := by
  have hbound : (i64Bound : Int) = 9223372036854775808 := rfl
  rw [offsetSecs]
  refine .bind (i64_yields 82800 (by omega) (by omega) (by omega)) fun hourSecs hhour => ?_
  refine .bind (i64_yields 3540 (by omega) (by omega) (by omega)) fun minuteSecs hminute => ?_
  refine .bind (i64_yields 86400 (by omega) (by omega) (by omega)) fun secs hsecs => ?_
  rcases hsign with rfl | rfl
  · obtain ⟨n, hn, -, hbounds⟩ := i64_yields (n := 1 * secs) 86400 (by omega) (by omega) (by omega)
    exact ⟨n, hn, hbounds⟩
  · obtain ⟨n, hn, -, hbounds⟩ := i64_yields (n := -1 * secs) 86400 (by omega) (by omega) (by omega)
    exact ⟨n, hn, hbounds⟩

/- The zone behind a sign, as the text and not by its first byte. -/
theorem parseZone_of_sign {sign : Char} (hsign : sign = '+' ∨ sign = '-') :
    parseZoneOffsetSecs (sign :: body) = parseZoneBody (if sign = '+' then 1 else -1) body := by
  have hascii : sign.toNat < 128 := by rcases hsign with rfl | rfl <;> decide
  have hbyte : byteAt (sign :: body) 0 = .value sign.toUInt8 := (byteAt_zero_eq hascii).mpr ⟨body, rfl⟩
  have hzone : ¬(sign :: body = [] ∨ sign :: body = ['Z'] ∨ sign :: body = ['z']) := by
    rcases hsign with rfl | rfl <;> simp
  have hparsed : zoneSign sign.toUInt8 = some (if sign = '+' then 1 else -1) := by
    rcases hsign with rfl | rfl <;> decide
  rw [parseZoneOffsetSecs, if_neg hzone]
  simp only [hbyte, bind_value, hparsed, ofOption, sliceFrom_one hascii]

theorem parseZone_of_other {first : Char} (hsign : ¬(first = '+' ∨ first = '-')) :
    parseZoneOffsetSecs (first :: body) =
      if first :: body = ['Z'] ∨ first :: body = ['z'] then .value 0 else .rejected := by
  rw [parseZoneOffsetSecs]
  by_cases hutc : first :: body = ['Z'] ∨ first :: body = ['z']
  · rw [if_pos hutc, if_pos (.inr hutc)]
    rfl
  · have hnil : ¬(first :: body = [] ∨ first :: body = ['Z'] ∨ first :: body = ['z']) := by
      rintro (h | h)
      · cases h
      · exact hutc h
    rw [if_neg hutc, if_neg hnil]
    obtain ⟨b, hbyte, heq⟩ := byteAt_cons first body
    have hplus : b ≠ '+'.toUInt8 := fun hb => hsign (.inl ((heq '+' (by decide)).mp hb))
    have hminus : b ≠ '-'.toUInt8 := fun hb => hsign (.inr ((heq '-' (by decide)).mp hb))
    simp only [hbyte, bind_value, zoneSign, if_neg hplus, if_neg hminus]
    rfl

theorem parseZone_eq_fault :
    parseZoneOffsetSecs zone = .fault f ↔
      ∃ sign body, zone = sign :: body ∧ (sign = '+' ∨ sign = '-') ∧ TornOffset body ∧
        f = .boundary := by
  cases zone with
  | nil => simp [parseZoneOffsetSecs]
  | cons sign body =>
    by_cases hsign : sign = '+' ∨ sign = '-'
    · rw [parseZone_of_sign hsign, parseZoneBody]
      simp only [bind_eq_fault, splitZoneBody_eq_fault, ofOption_ne_fault, ofOption_eq_value,
        demand_ne_fault,
        demand_eq_value, false_or, decide_eq_true_eq]
      constructor
      · rintro (htorn | ⟨fields, -, hours, -, minutes, -, -, hrange, hsecs⟩)
        · exact ⟨sign, body, rfl, hsign, htorn⟩
        · have hunit : (if sign = '+' then (1 : Int) else -1) = 1 ∨
            (if sign = '+' then (1 : Int) else -1) = -1 := by
            split <;> simp
          exact absurd hsecs (offsetSecs_yields hunit ⟨hrange.1, hrange.2.1⟩ hrange.2.2).ne_fault
      · rintro ⟨sign', body', hzone, -, htorn⟩
        obtain ⟨rfl, rfl⟩ := List.cons.inj hzone
        exact .inl htorn
    · rw [parseZone_of_other hsign]
      constructor
      · intro h
        split at h <;> cases h
      · rintro ⟨sign', body', hzone, hsign', -⟩
        obtain ⟨rfl, -⟩ := List.cons.inj hzone
        exact absurd hsign' hsign

theorem parseZone_bounds {offset : Int} (h : parseZoneOffsetSecs zone = .value offset) :
    -86400 ≤ offset ∧ offset ≤ 86400 := by
  cases zone with
  | nil =>
    obtain rfl : 0 = offset := by simpa [parseZoneOffsetSecs] using h
    decide
  | cons sign body =>
    by_cases hsign : sign = '+' ∨ sign = '-'
    · rw [parseZone_of_sign hsign, parseZoneBody] at h
      simp only [bind_eq_value, demand_eq_value, decide_eq_true_eq] at h
      obtain ⟨fields, -, hours, -, minutes, -, -, hrange, hsecs⟩ := h
      have hunit : (if sign = '+' then (1 : Int) else -1) = 1 ∨
        (if sign = '+' then (1 : Int) else -1) = -1 := by
        split <;> simp
      obtain ⟨secs, hvalue, hbounds⟩ := offsetSecs_yields hunit ⟨hrange.1, hrange.2.1⟩ hrange.2.2
      obtain rfl : secs = offset := Guarded.value.inj (hvalue.symm.trans hsecs)
      exact hbounds
    · rw [parseZone_of_other hsign] at h
      split at h
      · obtain rfl := Guarded.value.inj h
        decide
      · cases h

/- The fraction is kept as its digits; making a float of them cannot fail. -/
structure ClockTime where
  hour : Int
  minute : Int
  second : Int
  fraction : Text
  offset : Int
  deriving DecidableEq

def parseSecondsField (field : Text) : Option (Int × Text) :=
  match splitOnce '.' field with
  | some (whole, frac) => if frac = [] ∨
    !frac.all isDigit then none else (parseI64 whole).map fun n => (n, frac)
  | none => (parseI64 field).map fun n => (n, [])

def parseClockFields : List Text → Option ClockTime
  | [hour, minute] => do
    let hour ← parseI64 hour
    let minute ← parseI64 minute
    pure ⟨hour, minute, 0, [], 0⟩
  | [hour, minute, seconds] => do
    let hour ← parseI64 hour
    let minute ← parseI64 minute
    let (second, fraction) ← parseSecondsField seconds
    pure ⟨hour, minute, second, fraction, 0⟩
  | _ => none

def ClockTime.inRange (clock : ClockTime) : Bool :=
  0 ≤ clock.hour ∧ clock.hour ≤ 23 ∧ 0 ≤ clock.minute ∧ clock.minute ≤ 59 ∧ 0 ≤ clock.second ∧
    clock.second ≤ 60

def parseClockTime (timeAndZone : Text) : Guarded ClockTime := do
  let (time, zone) ← splitTimeZone timeAndZone
  let clock ← ofOption (parseClockFields (time.splitOn ':'))
  demand clock.inRange
  let offset ← parseZoneOffsetSecs zone
  pure { clock with offset }

def parseTimeSection (rest : Text) : Guarded ClockTime :=
  if rest = [] then pure ⟨0, 0, 0, [], 0⟩
  else do
    let separator ← byteAt rest 0
    demand (separator ∈ ['T'.toUInt8, 't'.toUInt8, ' '.toUInt8])
    let timeAndZone ← sliceFrom rest 1
    parseClockTime timeAndZone

variable {separator : Char}

theorem parseTimeSection_of_separator (timeAndZone : Text) (h : separator ∈ ['T', 't', ' ']) :
    parseTimeSection (separator :: timeAndZone) = parseClockTime timeAndZone := by
  have hascii : separator.toNat < 128 := by
    have hall : ∀ c ∈ ['T', 't', ' '], c.toNat < 128 := by simp
    exact hall separator h
  have hbyte : byteAt (separator :: timeAndZone) 0 = .value separator.toUInt8 :=
    (byteAt_zero_eq hascii).mpr ⟨timeAndZone, rfl⟩
  have hmem : separator.toUInt8 ∈ ['T'.toUInt8, 't'.toUInt8, ' '.toUInt8] :=
    List.mem_map_of_mem (f := Char.toUInt8) h
  rw [parseTimeSection, if_neg (List.cons_ne_nil _ _)]
  simp only [hbyte, bind_value, hmem, demand, decide_true, if_true, sliceFrom_one hascii]

theorem parseTimeSection_of_other (timeAndZone : Text) (h : separator ∉ ['T', 't', ' ']) :
    parseTimeSection (separator :: timeAndZone) = .rejected := by
  obtain ⟨b, hbyte, heq⟩ := byteAt_cons separator timeAndZone
  have hnot : b ∉ ['T'.toUInt8, 't'.toUInt8, ' '.toUInt8] := by
    simp only [List.mem_cons, List.not_mem_nil, or_false, not_or] at h ⊢
    exact ⟨fun hb => h.1 ((heq 'T' (by decide)).mp hb), fun hb => h.2.1 ((heq 't' (by decide)).mp hb),
      fun hb => h.2.2 ((heq ' ' (by decide)).mp hb)⟩
  rw [parseTimeSection, if_neg (List.cons_ne_nil _ _)]
  simp only [hbyte, bind_value, hnot, demand, decide_false]
  rfl

def IsClock (time : Text) : Prop :=
  (∀ c ∈ time, !isZoneMarker c) ∧ ∃ clock, parseClockFields (time.splitOn ':') = some clock ∧
    clock.inRange

variable {timeAndZone : Text}

theorem parseClockTime_eq_fault :
    parseClockTime timeAndZone = .fault f ↔
      ∃ time sign body, timeAndZone = time ++ sign :: body ∧ IsClock time ∧ (sign = '+' ∨ sign = '-') ∧
        TornOffset body ∧ f = .boundary := by
  rw [parseClockTime, splitTimeZone_eq]
  simp only [bind_value, bind_eq_fault, ofOption_ne_fault, ofOption_eq_value, demand_ne_fault,
    demand_eq_value, false_or,
    parseZone_eq_fault, pure_ne_fault, and_false, exists_false, or_false]
  constructor
  · rintro ⟨clock, hfields, -, hrange, sign, body, hzone, hsign, htorn⟩
    refine ⟨_, sign, body, ?_, ⟨fun c hc => ?_, clock, hfields, hrange⟩, hsign, htorn⟩
    · rw [← hzone, List.takeWhile_append_dropWhile]
    · exact List.mem_takeWhile_imp (p := fun c => !isZoneMarker c) hc
  · rintro ⟨time, sign, body, rfl, ⟨hmarkers, clock, hfields, hrange⟩, hsign, htorn⟩
    have hmarker : isZoneMarker sign := by
      rcases hsign with rfl | rfl <;> decide
    rw [takeWhile_marker hmarkers hmarker, dropWhile_marker hmarkers hmarker]
    exact ⟨clock, hfields, (), hrange, sign, body, rfl, hsign, htorn⟩

variable {clock : ClockTime}

theorem parseClockTime_bounds (h : parseClockTime timeAndZone = .value clock) :
    clock.inRange ∧ -86400 ≤ clock.offset ∧ clock.offset ≤ 86400 := by
  rw [parseClockTime, splitTimeZone_eq] at h
  simp only [bind_value, bind_eq_value, demand_eq_value, pure_eq_value] at h
  obtain ⟨clock, -, -, hrange, offset, hoffset, rfl⟩ := h
  exact ⟨hrange, parseZone_bounds hoffset⟩

variable {rest : Text}

theorem parseTimeSection_bounds (h : parseTimeSection rest = .value clock) :
    clock.inRange ∧ -86400 ≤ clock.offset ∧ clock.offset ≤ 86400 := by
  cases rest with
  | nil =>
    obtain rfl : ⟨0, 0, 0, [], 0⟩ = clock := by simpa [parseTimeSection] using h
    decide
  | cons separator timeAndZone =>
    by_cases hseparator : separator ∈ ['T', 't', ' ']
    · rw [parseTimeSection_of_separator _ hseparator] at h
      exact parseClockTime_bounds h
    · rw [parseTimeSection_of_other _ hseparator] at h
      cases h

/-! ### The timestamp -/

def u32Bound : Nat := 4294967296

def parseCivilDate (text : Text) : Guarded (Int × Nat × Nat) :=
  if (utf8Bytes text).length < 10 then .rejected
  else do
    let fourth ← byteAt text 4
    let seventh ← byteAt text 7
    demand (fourth = '-'.toUInt8 ∧ seventh = '-'.toUInt8)
    let year ← ofOption ((getSlice text 0 4).bind parseI64)
    let month ← ofOption ((getSlice text 5 7).bind (parseUnsigned u32Bound))
    let day ← ofOption ((getSlice text 8 10).bind (parseUnsigned u32Bound))
    demand (1 ≤ month ∧ month ≤ 12 ∧ 1 ≤ day)
    let days ← ofOption (daysInMonth year month)
    demand (day ≤ days)
    pure (year, month, day)

structure Epoch where
  seconds : Int
  fraction : Text
  deriving DecidableEq

def epochSeconds (days : Int) (clock : ClockTime) : Guarded Int := do
  let daySecs ← i64 (days * 86400)
  let hourSecs ← i64 (clock.hour * 3600)
  let secs ← i64 (daySecs + hourSecs)
  let minuteSecs ← i64 (clock.minute * 60)
  let secs ← i64 (secs + minuteSecs)
  let secs ← i64 (secs + clock.second)
  i64 (secs - clock.offset)

def parseIso8601Epoch (value : Text) : Guarded Epoch := do
  let text := trim value
  let (year, month, day) ← parseCivilDate text
  let rest ← sliceFrom text 10
  let clock ← parseTimeSection rest
  let days ← daysFromCivil year month day
  let seconds ← epochSeconds days clock
  pure ⟨seconds, clock.fraction⟩

theorem epochSeconds_yields {days : Int} (hlo : -10000000000 ≤ days) (hhi : days ≤ 10000000000)
    (hrange : clock.inRange) (hoffset : -86400 ≤ clock.offset ∧ clock.offset ≤ 86400) :
    Yields (epochSeconds days clock) fun seconds =>
      seconds = 86400 * days + (3600 * clock.hour + 60 * clock.minute + clock.second) - clock.offset ∧
        -900000000000000 ≤ seconds ∧ seconds ≤ 900000000000000 := by
  have hbound : (i64Bound : Int) = 9223372036854775808 := rfl
  rw [ClockTime.inRange, decide_eq_true_eq] at hrange
  rw [epochSeconds]
  refine .bind (i64_yields 864000000000000 (by omega) (by omega) (by omega)) fun daySecs hdays => ?_
  refine .bind (i64_yields 86400 (by omega) (by omega) (by omega)) fun hourSecs hhours => ?_
  refine .bind (i64_yields 864000000086400 (by omega) (by omega) (by omega)) fun toHour htoHour => ?_
  refine .bind (i64_yields 3600 (by omega) (by omega) (by omega)) fun minuteSecs hminutes => ?_
  refine .bind (i64_yields 864000000090000 (by omega) (by omega) (by omega)) fun toMinute htoMinute => ?_
  refine .bind (i64_yields 864000000090060 (by omega) (by omega) (by omega)) fun secs hsecs => ?_
  obtain ⟨n, hn, hvalue, hbounds⟩ :=
    i64_yields (n := secs - clock.offset) 900000000000000 (by omega) (by omega) (by omega)
  exact ⟨n, hn, by omega, hbounds⟩

structure DateFields (yearText monthText dayText : Text) (year : Int) (month day : Nat) : Prop where
  year_length : yearText.length = 4
  month_length : monthText.length = 2
  day_length : dayText.length = 2
  year_eq : parseI64 yearText = some year
  month_eq : parseUnsigned u32Bound monthText = some month
  day_eq : parseUnsigned u32Bound dayText = some day
  day_pos : 1 ≤ day
  real : ∃ days, daysInMonth year month = some days ∧ day ≤ days

theorem daysInMonth_some {days : Nat} (h : daysInMonth year month = some days) :
    1 ≤ month ∧ month ≤ 12 ∧ days ≤ 31 := by
  have hleap : (if isLeapYear year then 29 else 28) ≤ 31 := by
    split <;> decide
  unfold daysInMonth at h
  split at h <;> cases h <;> omega

namespace DateFields

variable {yearText monthText dayText : Text} {year : Int} {month day : Nat}

theorem year_bytes (h : DateFields yearText monthText dayText year month day) :
    (utf8Bytes yearText).length = 4 :=
  (length_utf8Bytes_of_ascii (parseI64_ascii h.year_eq)).trans h.year_length

theorem month_bytes (h : DateFields yearText monthText dayText year month day) :
    (utf8Bytes monthText).length = 2 :=
  (length_utf8Bytes_of_ascii (parseUnsigned_ascii h.month_eq)).trans h.month_length

theorem day_bytes (h : DateFields yearText monthText dayText year month day) :
    (utf8Bytes dayText).length = 2 :=
  (length_utf8Bytes_of_ascii (parseUnsigned_ascii h.day_eq)).trans h.day_length

theorem bounds (h : DateFields yearText monthText dayText year month day) :
    -9999 ≤ year ∧ year ≤ 9999 ∧ month ≤ 12 ∧ day ≤ 31 := by
  obtain ⟨digits, htext, -, hall, habs⟩ := parseI64_digits h.year_eq
  have hlength : digits.length ≤ 4 := by
    have hfour := h.year_length
    rcases htext with rfl | rfl | rfl
    · omega
    · rw [List.length_cons] at hfour
      omega
    · rw [List.length_cons] at hfour
      omega
  have hvalue := digitsValue_le_of_four hall hlength
  obtain ⟨days, hdays, hle⟩ := h.real
  have hmonth := daysInMonth_some hdays
  omega

theorem date_bytes (h : DateFields yearText monthText dayText year month day) :
    (utf8Bytes (yearText ++ '-' :: (monthText ++ '-' :: dayText))).length = 10 := by
  rw [utf8Bytes_append, List.length_append, length_utf8Bytes_cons, utf8Bytes_append, List.length_append,
    length_utf8Bytes_cons, h.year_bytes, h.month_bytes, h.day_bytes]
  rfl

end DateFields

theorem parseCivilDate_ne_fault (text : Text) (f : Fault) : parseCivilDate text ≠ .fault f := by
  rw [parseCivilDate]
  split
  next => simp
  next hlength =>
    simp only [ne_eq, bind_eq_fault, byteAt_eq_fault, demand_ne_fault, ofOption_ne_fault,
      pure_ne_fault, and_false,
      exists_false, or_false]
    omega

variable {yearText monthText dayText : Text}

theorem parseCivilDate_of_fields (rest : Text)
    (h : DateFields yearText monthText dayText year month day) :
    parseCivilDate (yearText ++ '-' :: (monthText ++ '-' :: (dayText ++ rest))) = .value
      (year, month, day) := by
  have hdash : '-'.toNat < 128 := by decide
  have hyear := h.year_bytes
  have hmonth := h.month_bytes
  obtain ⟨days, hdays, hle⟩ := h.real
  have hbounds := daysInMonth_some hdays
  have hlength : ¬(utf8Bytes (yearText ++ '-' :: (monthText ++ '-' :: (dayText ++ rest)))).length <
    10 := by
    have hten := h.date_bytes
    rw [utf8Bytes_append, List.length_append, length_utf8Bytes_cons, utf8Bytes_append,
      List.length_append,
      length_utf8Bytes_cons] at hten ⊢
    rw [utf8Bytes_append, List.length_append]
    omega
  -- What stands before each of the byte offsets.
  have hbeforeMonth : (utf8Bytes (yearText ++ ['-'])).length = 5 := by
    rw [utf8Bytes_append, List.length_append, hyear]
    rfl
  have hbeforeSecond : (utf8Bytes (yearText ++ ['-'] ++ monthText)).length = 7 := by
    rw [utf8Bytes_append, List.length_append, hbeforeMonth, hmonth]
  have hbeforeDay : (utf8Bytes (yearText ++ ['-'] ++ monthText ++ ['-'])).length = 8 := by
    rw [utf8Bytes_append, List.length_append, hbeforeSecond]
    rfl
  have hfourth : byteAt (yearText ++ '-' :: (monthText ++ '-' :: (dayText ++ rest))) 4 =
    .value '-'.toUInt8 := by
    rw [show 4 = (utf8Bytes yearText).length + 0 by omega, byteAt_append]
    exact (byteAt_zero_eq hdash).mpr ⟨_, rfl⟩
  have hseventh : byteAt (yearText ++ '-' :: (monthText ++ '-' :: (dayText ++ rest))) 7 =
    .value '-'.toUInt8 := by
    have hassoc : yearText ++ '-' :: (monthText ++ '-' :: (dayText ++ rest)) =
        yearText ++ ['-'] ++ monthText ++ '-' :: (dayText ++ rest) := by simp
    rw [hassoc, show 7 = (utf8Bytes (yearText ++ ['-'] ++ monthText)).length + 0 by omega, byteAt_append]
    exact (byteAt_zero_eq hdash).mpr ⟨_, rfl⟩
  have hyearSlice : getSlice (yearText ++ '-' :: (monthText ++ '-' :: (dayText ++ rest))) 0 4 =
    some yearText :=
    getSlice_eq_some.mpr ⟨[], _, rfl, rfl, hyear⟩
  have hmonthSlice : getSlice (yearText ++ '-' :: (monthText ++ '-' :: (dayText ++ rest))) 5 7 =
    some monthText :=
    getSlice_eq_some.mpr ⟨yearText ++ ['-'], '-' :: (dayText ++ rest), by simp, hbeforeMonth, hmonth⟩
  have hdaySlice : getSlice (yearText ++ '-' :: (monthText ++ '-' :: (dayText ++ rest))) 8 10 =
    some dayText :=
    getSlice_eq_some.mpr
      ⟨yearText ++ ['-'] ++ monthText ++ ['-'], rest, by simp, hbeforeDay, h.day_bytes⟩
  rw [parseCivilDate, if_neg hlength]
  simp only [hfourth, hseventh, hyearSlice, hmonthSlice, hdaySlice, bind_value, Option.bind_some,
    h.year_eq, h.month_eq,
    h.day_eq, ofOption, hdays, demand, hbounds, h.day_pos, hle, and_self, decide_true, if_true]
  rfl

theorem parseCivilDate_eq_value {text : Text} :
    parseCivilDate text = .value (year, month, day) ↔
      ∃ yearText monthText dayText rest,
        text = yearText ++ '-' :: (monthText ++ '-' :: (dayText ++ rest)) ∧
        DateFields yearText monthText dayText year month day := by
  have hdash : '-'.toNat < 128 := by decide
  constructor
  · intro h
    rw [parseCivilDate] at h
    split at h
    next => cases h
    next =>
      simp only [bind_eq_value, demand_eq_value, ofOption_eq_value, Option.bind_eq_some_iff,
        getSlice_eq_some,
        pure_eq_value, decide_eq_true_eq, Prod.mk.injEq] at h
      obtain ⟨_, hfourth, _, hseventh, -, ⟨rfl, rfl⟩, year,
        ⟨yearText, ⟨x0, r0, htext, hx0, hyearBytes⟩, hyear⟩, month,
        ⟨monthText, ⟨x1, r1, htext1, hx1, hmonthBytes⟩, hmonth⟩, day,
          ⟨dayText, ⟨x2, r2, htext2, hx2, hdayBytes⟩, hday⟩,
        -, hpos, days, hdays, -, hle, rfl, rfl, rfl⟩ := h
      obtain rfl := utf8Bytes_eq_nil.mp hx0
      rw [List.nil_append] at htext
      -- The byte behind the year is the first one of the rest, and so on.
      have hsplit0 : ∃ s0, r0 = '-' :: s0 := by
        rw [htext, show 4 = (utf8Bytes yearText).length + 0 by omega, byteAt_append] at hfourth
        exact (byteAt_zero_eq hdash).mp hfourth
      obtain ⟨s0, rfl⟩ := hsplit0
      have hmonthAt : yearText ++ ['-'] = x1 ∧ s0 = monthText ++ r1 := by
        refine utf8Bytes_append_inj ?_ ?_
        · rw [← htext1, htext, List.append_assoc]
          rfl
        · rw [utf8Bytes_append, List.length_append, hx1, hyearBytes]
          rfl
      obtain ⟨rfl, rfl⟩ := hmonthAt
      have hsplit1 : ∃ s1, r1 = '-' :: s1 := by
        have hseven : 7 = (utf8Bytes (yearText ++ ['-'] ++ monthText)).length + 0 := by
          rw [utf8Bytes_append, List.length_append, hx1, hmonthBytes]
        rw [htext1, ← List.append_assoc, hseven, byteAt_append] at hseventh
        exact (byteAt_zero_eq hdash).mp hseventh
      obtain ⟨s1, rfl⟩ := hsplit1
      have hdayAt : yearText ++ ['-'] ++ monthText ++ ['-'] = x2 ∧ s1 = dayText ++ r2 := by
        refine utf8Bytes_append_inj ?_ ?_
        · rw [← htext2, htext]
          simp
        · rw [utf8Bytes_append, List.length_append, utf8Bytes_append, List.length_append, hx1, hx2,
            hmonthBytes]
          rfl
      obtain ⟨-, rfl⟩ := hdayAt
      refine ⟨yearText, monthText, dayText, r2, htext, ?_, ?_, ?_, hyear, hmonth, hday, hpos.2.2,
        days, hdays, hle⟩
      · rw [← length_utf8Bytes_of_ascii (parseI64_ascii hyear), hyearBytes]
      · rw [← length_utf8Bytes_of_ascii (parseUnsigned_ascii hmonth), hmonthBytes]
      · rw [← length_utf8Bytes_of_ascii (parseUnsigned_ascii hday), hdayBytes]
  · rintro ⟨yearText, monthText, dayText, rest, rfl, hfields⟩
    exact parseCivilDate_of_fields rest hfields

def IsDate (date : Text) : Prop :=
  ∃ yearText monthText dayText year month day,
    date = yearText ++ '-' :: (monthText ++ '-' :: dayText) ∧
      DateFields yearText monthText dayText year month day

/- A timestamp that stops the program: everything before the offset is accepted, and the offset is
torn. -/
def StopsAtOffset (text : Text) : Prop :=
  ∃ date separator time sign body, text = date ++ separator :: (time ++ sign :: body) ∧ IsDate date ∧
    separator ∈ ['T', 't', ' '] ∧ IsClock time ∧ (sign = '+' ∨ sign = '-') ∧ TornOffset body

theorem parseIso8601Epoch_of_fields {value : Text}
    (hvalue : trim value = yearText ++ '-' :: (monthText ++ '-' :: (dayText ++ rest)))
    (hfields : DateFields yearText monthText dayText year month day) :
    parseIso8601Epoch value = (do
      let clock ← parseTimeSection rest
      let days ← daysFromCivil year month day
      let seconds ← epochSeconds days clock
      pure ⟨seconds, clock.fraction⟩) := by
  have hdate : parseCivilDate (trim value) = .value (year, month, day) :=
    parseCivilDate_eq_value.mpr ⟨yearText, monthText, dayText, rest, hvalue, hfields⟩
  have hrest : sliceFrom (trim value) 10 = .value rest := by
    refine sliceFrom_eq_value.mpr
      ⟨yearText ++ '-' :: (monthText ++ '-' :: dayText), by rw [hvalue]; simp, ?_⟩
    exact hfields.date_bytes
  rw [parseIso8601Epoch]
  simp only [hdate, hrest, bind_value]

/-- A timestamp gives a value or none, unless it stops the program at its offset. -/
theorem timestamp_never_aborts_iff (value : Text) :
    (∀ f, parseIso8601Epoch value ≠ .fault f) ↔ ¬StopsAtOffset (trim value) := by
  constructor
  · rintro h ⟨date, separator, time, sign, body, htext,
      ⟨yearText, monthText, dayText, year, month, day, rfl, hfields⟩,
      hseparator, hclock, hsign, htorn⟩
    have hvalue : trim value =
        yearText ++ '-' :: (monthText ++ '-' :: (dayText ++ separator :: (time ++ sign :: body))) := by
      rw [htext]
      simp
    refine h .boundary ?_
    rw [parseIso8601Epoch_of_fields hvalue hfields, parseTimeSection_of_separator _ hseparator,
      bind_eq_fault]
    exact .inl (parseClockTime_eq_fault.mpr ⟨time, sign, body, rfl, hclock, hsign, htorn, rfl⟩)
  · intro h f hfault
    cases hdate : parseCivilDate (trim value) with
    | rejected => simp [parseIso8601Epoch, hdate, Bind.bind, Guarded.bind] at hfault
    | fault g => exact parseCivilDate_ne_fault _ _ hdate
    | value date =>
      obtain ⟨year, month, day⟩ := date
      obtain ⟨yearText, monthText, dayText, rest, hvalue, hfields⟩ := parseCivilDate_eq_value.mp hdate
      rw [parseIso8601Epoch_of_fields hvalue hfields] at hfault
      simp only [bind_eq_fault, pure_ne_fault, and_false, exists_false, or_false] at hfault
      rcases hfault with hsection | ⟨clock, hsection, hcivil | ⟨days, hcivil, hseconds⟩⟩
      · cases rest with
        | nil => simp [parseTimeSection] at hsection
        | cons separator timeAndZone =>
          by_cases hseparator : separator ∈ ['T', 't', ' ']
          · rw [parseTimeSection_of_separator _ hseparator, parseClockTime_eq_fault] at hsection
            obtain ⟨time, sign, body, rfl, hclock, hsign, htorn, -⟩ := hsection
            refine h ⟨_, separator, time, sign, body, ?_,
              ⟨yearText, monthText, dayText, year, month, day, rfl, hfields⟩,
              hseparator, hclock, hsign, htorn⟩
            rw [hvalue]
            simp
          · rw [parseTimeSection_of_other _ hseparator] at hsection
            cases hsection
      · obtain ⟨hlo, hhi, hmonth, hday⟩ := hfields.bounds
        exact (daysFromCivil_yields hlo (by omega) hmonth hday).ne_fault hcivil
      · obtain ⟨hlo, hhi, hmonth, hday⟩ := hfields.bounds
        obtain ⟨days', hdays, -, hbounds⟩ := daysFromCivil_yields hlo (by omega) hmonth hday
        obtain rfl : days' = days := Guarded.value.inj (hdays.symm.trans hcivil)
        obtain ⟨hrange, hoffset⟩ := parseTimeSection_bounds hsection
        exact (epochSeconds_yields hbounds.1 hbounds.2 hrange hoffset).ne_fault hseconds

theorem torn_offset_aborts : parseIso8601Epoch "2026-01-01T00:00+1é2" = .fault .boundary := by
  decide +kernel

end Pgokf.Sync
