import Mathlib.Tactic.Linarith
import OpenTfMirror.CertificateValidity
import OpenTfMirror.Gregorian

/-!
# Certificate times

`parse_certificate_time` against the calendar: a UTCTime or a GeneralizedTime is
accepted just when its fields name a moment that exists, and then its seconds
since the Unix epoch are returned.
-/

namespace OpenTfMirror.CertificateTimes

open FileStore Metadata CertificateValidity Gregorian

section Days

theorem checked_of_bounds {value : ℤ} (hlow : -2 ^ 63 ≤ value) (hhigh : value ≤ i64Max) :
    checked value = some value := if_pos ⟨hlow, hhigh⟩

theorem isLeapYear_eq (year : ℕ) : isLeapYear year = isLeap year := by
  have h4 : ((year : ℤ).tmod 4 = 0) ↔ year % 4 = 0 := by
    rw [Int.tmod_eq_emod_of_nonneg (Int.natCast_nonneg year)]
    omega
  have h100 : ((year : ℤ).tmod 100 = 0) ↔ year % 100 = 0 := by
    rw [Int.tmod_eq_emod_of_nonneg (Int.natCast_nonneg year)]
    omega
  have h400 : ((year : ℤ).tmod 400 = 0) ↔ year % 400 = 0 := by
    rw [Int.tmod_eq_emod_of_nonneg (Int.natCast_nonneg year)]
    omega
  simp only [isLeapYear, isLeap, ne_eq, h4, h100, h400]

theorem daysInMonth_eq (year month : ℕ) : daysInMonth year month = monthLength year month := by
  have hcast : ∀ n : ℕ, ((month : ℤ) = n) ↔ month = n := fun n => Int.natCast_inj
  have h2 := hcast 2
  have h4 := hcast 4
  have h6 := hcast 6
  have h9 := hcast 9
  have h11 := hcast 11
  simp only [Nat.cast_ofNat] at h2 h4 h6 h9 h11
  rw [daysInMonth, monthLength, isLeapYear_eq]
  simp only [h2, h4, h6, h9, h11, Bool.or_eq_true, decide_eq_true_eq, or_assoc]
  split
  · split
    · rfl
    · rfl
  · split
    · rfl
    · rfl

/-- The era of a year from -1 on is the quotient, rounded down. -/
theorem era_eq {year : ℤ} (h : -1 ≤ year) :
    (if 0 ≤ year then year.tdiv 400 else (year - 399).tdiv 400) = year / 400 := by
  split
  · next hpos => exact Int.tdiv_eq_ediv_of_nonneg hpos
  · next hneg =>
      have hyear : year = -1 := by omega
      subst hyear
      decide

/-- The leap days of the years before, with this year's own. -/
theorem leapDays_eq (year : ℕ) :
    (((year + 3) / 4 : ℕ) : ℤ) - ((year + 99) / 100 : ℕ) + ((year + 399) / 400 : ℕ) +
      monthLength year 2 = (year : ℤ) / 4 - (year : ℤ) / 100 + (year : ℤ) / 400 + 29 := by
  have hleap : isLeap year = true ↔ year % 4 = 0 ∧ (year % 100 ≠ 0 ∨ year % 400 = 0) := by
    simp [isLeap]
  rw [monthLength, if_pos rfl]
  split
  · next h =>
      have hrules := hleap.mp h
      omega
  · next h =>
      rw [hleap] at h
      omega

/-- Without it, they are those of the year that began in March before. -/
theorem leapDays_before (year : ℕ) :
    (((year + 3) / 4 : ℕ) : ℤ) - ((year + 99) / 100 : ℕ) + ((year + 399) / 400 : ℕ) =
      ((year : ℤ) - 1) / 4 - ((year : ℤ) - 1) / 100 + ((year : ℤ) - 1) / 400 + 1 := by
  have h4 : (((year + 3) / 4 : ℕ) : ℤ) = ((year : ℤ) - 1) / 4 + 1 := by omega
  have h100 : (((year + 99) / 100 : ℕ) : ℤ) = ((year : ℤ) - 1) / 100 + 1 := by omega
  have h400 : (((year + 399) / 400 : ℕ) : ℤ) = ((year : ℤ) - 1) / 400 + 1 := by omega
  omega

/-- The days of a year that begins in March, by its era and the year of the era. -/
theorem eraDays_eq {year dayOfYear : ℤ} (hlow : -1 ≤ year) (hhigh : year ≤ 9999)
    (hday_low : 0 ≤ dayOfYear) (hday_high : dayOfYear ≤ 400) :
    let era := if 0 ≤ year then year.tdiv 400 else (year - 399).tdiv 400
    let yearOfEra := year - era * 400
    orBail "certificate date overflows i64" (do
      let days ← checked (era * 146097)
      let days ← checked (days +
        (yearOfEra * 365 + yearOfEra.tdiv 4 - yearOfEra.tdiv 100 + dayOfYear))
      checked (days - 719468)) =
      .ok (365 * year + year / 4 - year / 100 + year / 400 + dayOfYear - 719468) := by
  intro era yearOfEra
  have hmax : i64Max = 9223372036854775807 := rfl
  have hera : era = year / 400 := era_eq hlow
  have hyear : yearOfEra = year - year / 400 * 400 := by rw [← hera]
  have hpos : 0 ≤ yearOfEra := by omega
  rw [Int.tdiv_eq_ediv_of_nonneg hpos, Int.tdiv_eq_ediv_of_nonneg hpos, hyear, hera]
  have hdays : checked (year / 400 * 146097) = some (year / 400 * 146097) :=
    checked_of_bounds (by omega) (by omega)
  simp only [hdays, Option.bind_eq_bind, Option.bind_some]
  rw [checked_of_bounds (by omega) (by omega), Option.bind_some,
    checked_of_bounds (by omega) (by omega), orBail]
  refine congrArg Except.ok ?_
  omega

/-- The number of a date in closed form, but for its month. -/
theorem ordinal_eq (d : Date) :
    (d.ordinal : ℤ) = 365 * d.year + (((d.year + 3) / 4 : ℕ) - ((d.year + 99) / 100 : ℕ) +
      ((d.year + 399) / 400 : ℕ)) + daysBeforeMonth d.year d.month + (d.day - 1) := by
  have hyears : (daysBeforeYear d.year : ℤ) + ((d.year + 99) / 100 : ℕ) =
      365 * d.year + ((d.year + 3) / 4 : ℕ) + ((d.year + 399) / 400 : ℕ) := by
    exact_mod_cast daysBeforeYear_eq d.year
  have hday : ((d.day - 1 : ℕ) : ℤ) = d.day - 1 := Nat.cast_pred d.day_pos
  rw [Date.ordinal, Nat.cast_add, Nat.cast_add, hday]
  linarith only [hyears]

/-- The days before a month, as the code counts them. -/
theorem monthDays_early {month : ℕ} (hpos : 1 ≤ month) (h : month ≤ 2) :
    (153 * ((month : ℤ) + 9) + 2).tdiv 5 = 306 + 31 * ((month - 1 : ℕ) : ℤ) := by
  interval_cases month
  · decide
  · decide

theorem monthDays_late {month : ℕ} (h : ¬month ≤ 2) :
    (153 * ((month : ℤ) + -3) + 2).tdiv 5 = ((153 * (month - 3) + 2) / 5 : ℕ) := by
  rw [Int.tdiv_eq_ediv_of_nonneg (by omega)]
  omega

/-- The days of the code are the days since the epoch. -/
theorem daysFromCivil_eq (d : Date) (hyear : d.year ≤ 9999) :
    daysFromCivil d.year d.month d.day = .ok ((d.ordinal : ℤ) - epoch.ordinal) := by
  have hpos := d.month_pos
  have hle := d.month_le
  have hday_pos := d.day_pos
  have hday_le := d.day_le.trans (monthLength_le _ _)
  have hmonths := @daysBeforeMonth_eq d.year d.month hpos hle
  have hordinal := ordinal_eq d
  have hepoch : (epoch.ordinal : ℤ) = 719528 := by rw [epoch_ordinal]; rfl
  unfold daysFromCivil
  dsimp only
  by_cases hearly : d.month ≤ 2
  · -- January and February belong to the year before
    have hmonth : (d.month : ℤ) ≤ 2 := by omega
    have hlate : ¬2 < (d.month : ℤ) := by omega
    have hstart := monthDays_early hpos hearly
    rw [if_pos hearly] at hmonths
    rw [if_pos hmonth, if_neg hlate, hstart]
    have hleap := leapDays_before d.year
    rw [hmonths, hleap, Nat.cast_mul, Nat.cast_ofNat] at hordinal
    refine (eraDays_eq (by omega) (by omega) (by omega) (by omega)).trans (congrArg Except.ok ?_)
    linarith only [hordinal, hepoch]
  · have hmonth : ¬(d.month : ℤ) ≤ 2 := by omega
    have hlate : 2 < (d.month : ℤ) := by omega
    have hstart := monthDays_late hearly
    have hbound : (153 * (d.month - 3) + 2) / 5 ≤ 300 := by omega
    rw [if_neg hearly] at hmonths
    rw [if_neg hmonth, if_pos hlate, hstart, sub_zero]
    have hleap := leapDays_eq d.year
    rw [hmonths, Nat.cast_add, Nat.cast_add, Nat.cast_ofNat] at hordinal
    refine (eraDays_eq (by omega) (by omega) (by omega) (by omega)).trans (congrArg Except.ok ?_)
    linarith only [hordinal, hleap, hepoch]

end Days

section Encodings

/-- Two decimal digits. -/
def twoDigits (n : Fin 100) : Bytes := [UInt8.ofNat (48 + n / 10), UInt8.ofNat (48 + n % 10)]

/-- The fields behind the year, whatever they say. -/
structure Fields where
  month : Fin 100
  day : Fin 100
  hour : Fin 100
  minute : Fin 100
  second : Fin 100
  deriving DecidableEq, Repr

def Fields.encode (fields : Fields) : Bytes :=
  twoDigits fields.month ++ twoDigits fields.day ++ twoDigits fields.hour ++
    twoDigits fields.minute ++ twoDigits fields.second

/-- The digits behind the seconds, with a dot before them if there are any. -/
def encodeFraction : List (Fin 10) → Bytes
  | [] => []
  | digit :: digits => 46 :: (digit :: digits).map fun d : Fin 10 => UInt8.ofNat (48 + d)

/-- A UTCTime, with two digits of the year, or a GeneralizedTime, with four of them
and perhaps a fraction. -/
inductive TimeValue where
  | utc (year : Fin 100) (fields : Fields)
  | generalized (century year : Fin 100) (fields : Fields) (fraction : List (Fin 10))
  deriving DecidableEq, Repr

def TimeValue.tag : TimeValue → UInt8
  | .utc _ _ => 0x17
  | .generalized _ _ _ _ => 0x18

def TimeValue.encode : TimeValue → Bytes
  | .utc year fields => twoDigits year ++ fields.encode ++ [90]
  | .generalized century year fields fraction =>
    twoDigits century ++ twoDigits year ++ (fields.encode ++ encodeFraction fraction) ++ [90]

/-- The year that is meant: two digits mean 1950 to 2049. -/
def TimeValue.year : TimeValue → ℕ
  | .utc year _ => if 50 ≤ (year : ℕ) then 1900 + year else 2000 + year
  | .generalized century year _ _ => century * 100 + year

def TimeValue.fields : TimeValue → Fields
  | .utc _ fields | .generalized _ _ fields _ => fields

/-- The fields are those of the moment. -/
def TimeValue.Names (time : TimeValue) (m : Moment) : Prop :=
  m.date.year = time.year ∧ m.date.month = time.fields.month ∧ m.date.day = time.fields.day ∧
    m.hour = time.fields.hour ∧ m.minute = time.fields.minute ∧ m.second = time.fields.second

theorem TimeValue.year_le (time : TimeValue) : time.year ≤ 9999 := by
  cases time with
  | utc year fields =>
    have hyear := year.isLt
    unfold TimeValue.year
    dsimp only
    split
    · omega
    · omega
  | generalized century year fields fraction =>
    have hcentury := century.isLt
    have hyear := year.isLt
    unfold TimeValue.year
    dsimp only
    omega

theorem toNat_digit {n : ℕ} (h : n < 10) : (UInt8.ofNat (48 + n)).toNat = 48 + n := by
  rw [UInt8.toNat_ofNat']
  omega

theorem isDigitByte_digit {n : ℕ} (h : n < 10) : isDigitByte (UInt8.ofNat (48 + n)) = true := by
  have hvalue := toNat_digit h
  simp only [isDigitByte, Bool.and_eq_true, decide_eq_true_eq, UInt8.le_iff_toNat_le, hvalue]
  exact ⟨Nat.le_add_right 48 n, Nat.add_le_add_left (Nat.le_of_lt_succ h) 48⟩

theorem twoDigits_any (n : Fin 100) : (twoDigits n).any (fun byte => !isDigitByte byte) = false := by
  have htens : (n : ℕ) / 10 < 10 := by omega
  have hones : (n : ℕ) % 10 < 10 := by omega
  rw [twoDigits, List.any_cons, List.any_cons, isDigitByte_digit htens, isDigitByte_digit hones]
  rfl

/-- Two more digits of a small number. -/
theorem foldDigits_twoDigits (n : Fin 100) (rest : Bytes) {value : ℤ} (hlow : 0 ≤ value)
    (hhigh : value ≤ 99) : foldDigits (twoDigits n ++ rest) value = foldDigits rest (value * 100 + n) := by
  have htens : (n : ℕ) / 10 < 10 := by omega
  have hones : (n : ℕ) % 10 < 10 := by omega
  have hmax : i64Max = 9223372036854775807 := rfl
  simp only [twoDigits, List.cons_append, List.nil_append, foldDigits, toNat_digit htens,
    toNat_digit hones, Option.bind_eq_bind]
  rw [checked_of_bounds (by omega) (by omega), Option.bind_some,
    checked_of_bounds (by omega) (by omega), Option.bind_some,
    checked_of_bounds (by omega) (by omega), Option.bind_some,
    checked_of_bounds (by omega) (by omega), Option.bind_some]
  congr 1
  omega

theorem parseDigits_two (n : Fin 100) (label : String) : parseDigits (twoDigits n) label = .ok (n : ℤ) := by
  have hdigits := twoDigits_any n
  have hfold := foldDigits_twoDigits n [] (le_refl (0 : ℤ)) (by decide)
  rw [List.append_nil] at hfold
  unfold parseDigits
  rw [hdigits, hfold, if_neg (by simp [twoDigits])]
  simp [foldDigits, orBail]

theorem parseDigits_four (century year : Fin 100) (label : String) :
    parseDigits (twoDigits century ++ twoDigits year) label = .ok ((century : ℤ) * 100 + year) := by
  have hcentury := twoDigits_any century
  have hyear := twoDigits_any year
  have hfold := foldDigits_twoDigits century (twoDigits year) (le_refl (0 : ℤ)) (by decide)
  have hpos : (0 : ℤ) ≤ 0 * 100 + (century : ℤ) := by omega
  have hrest := foldDigits_twoDigits year [] hpos (by omega)
  rw [List.append_nil] at hrest
  unfold parseDigits
  rw [List.any_append, hcentury, hyear, hfold, hrest, if_neg (by simp [twoDigits])]
  simp [foldDigits, orBail]

theorem validFraction_encode (fraction : List (Fin 10)) : validFraction (encodeFraction fraction) = true := by
  cases fraction with
  | nil => rfl
  | cons digit digits =>
    have hall : ((digit :: digits).map fun d : Fin 10 => UInt8.ofNat (48 + d)).all isDigitByte = true := by
      rw [List.all_map, List.all_eq_true]
      exact fun d _ => isDigitByte_digit d.isLt
    unfold encodeFraction validFraction
    simp only [hall]
    rfl

end Encodings

section Times

/-- The calendar check of the code. -/
def Misnamed (year : ℤ) (fields : Fields) : Bool :=
  (fields.month : ℤ) < 1 || 12 < (fields.month : ℤ) || (fields.day : ℤ) = 0 ||
    daysInMonth year (fields.month : ℤ) < (fields.day : ℤ) || 23 < (fields.hour : ℤ) ||
    59 < (fields.minute : ℤ) || 59 < (fields.second : ℤ)

/-- The seconds of the code, after the check. -/
def seconds (label : String) (days : ℤ) (fields : Fields) : Except Report ℤ :=
  orBail ("certificate " ++ label ++ " timestamp overflows i64") (do
    let value ← checked (days * 86400)
    let value ← checked (value + (fields.hour : ℤ) * 3600)
    let value ← checked (value + (fields.minute : ℤ) * 60)
    checked (value + (fields.second : ℤ)))

/-- Behind the year a value is judged by its fields. -/
theorem parse_fields {tag : UInt8} {value : Bytes} {label : String} {year : ℤ} {fields : Fields}
    {fraction : List (Fin 10)} (hlast : value.getLast? = some 90)
    (hyear : parseYear tag value.dropLast label = .ok (year, fields.encode ++ encodeFraction fraction)) :
    parseCertificateTime tag value label =
      if Misnamed year fields then
        .error ["certificate " ++ label ++ " contains an invalid calendar value"]
      else daysFromCivil year fields.month fields.day >>= fun days => seconds label days fields := by
  have hlength : ¬(fields.encode ++ encodeFraction fraction).length < 10 := by
    simp [Fields.encode, twoDigits]
  have hmonth : (fields.encode ++ encodeFraction fraction).take 2 = twoDigits fields.month := rfl
  have hday : ((fields.encode ++ encodeFraction fraction).drop 2).take 2 = twoDigits fields.day := rfl
  have hhour : ((fields.encode ++ encodeFraction fraction).drop 4).take 2 = twoDigits fields.hour := rfl
  have hminute : ((fields.encode ++ encodeFraction fraction).drop 6).take 2 = twoDigits fields.minute := rfl
  have hsecond : ((fields.encode ++ encodeFraction fraction).drop 8).take 2 = twoDigits fields.second := rfl
  have hrest : (fields.encode ++ encodeFraction fraction).drop 10 = encodeFraction fraction := rfl
  unfold parseCertificateTime
  rw [if_neg (by rw [hlast]; exact fun h => h rfl), hyear]
  simp only [bind, Except.bind, hlength, if_false, hmonth, hday, hhour, hminute, hsecond, hrest,
    parseDigits_two, validFraction_encode, Bool.not_true, Bool.false_eq_true]
  rfl

/-- The whole value. -/
theorem parse_encode (time : TimeValue) (label : String) :
    parseCertificateTime time.tag time.encode label =
      if Misnamed time.year time.fields then
        .error ["certificate " ++ label ++ " contains an invalid calendar value"]
      else daysFromCivil time.year time.fields.month time.fields.day >>= fun days =>
        seconds label days time.fields := by
  cases time with
  | utc year fields =>
    have hlast : (TimeValue.encode (.utc year fields)).getLast? = some 90 := List.getLast?_concat ..
    have hlength : ¬(twoDigits year ++ fields.encode).length ≠ 12 := by
      simp [Fields.encode, twoDigits]
    have htake : (twoDigits year ++ fields.encode).take 2 = twoDigits year := rfl
    have hdrop : (twoDigits year ++ fields.encode).drop 2 = fields.encode ++ encodeFraction [] := rfl
    have hcast : (50 ≤ ((year : ℕ) : ℤ)) ↔ 50 ≤ (year : ℕ) := by omega
    have hyear : parseYear 0x17 (TimeValue.encode (.utc year fields)).dropLast label =
        .ok ((TimeValue.year (.utc year fields) : ℤ), fields.encode ++ encodeFraction []) := by
      unfold parseYear
      rw [TimeValue.encode, List.dropLast_concat, if_pos rfl, if_neg hlength, htake, hdrop,
        parseDigits_two]
      simp only [bind, Except.bind, pure, Except.pure, TimeValue.year, hcast]
      split
      · rfl
      · rfl
    exact parse_fields hlast hyear
  | generalized century year fields fraction =>
    have hlast : (TimeValue.encode (.generalized century year fields fraction)).getLast? = some 90 :=
      List.getLast?_concat ..
    have hlength : ¬(twoDigits century ++ twoDigits year ++
        (fields.encode ++ encodeFraction fraction)).length < 14 := by
      simp [Fields.encode, twoDigits]
    have htake : (twoDigits century ++ twoDigits year ++
        (fields.encode ++ encodeFraction fraction)).take 4 = twoDigits century ++ twoDigits year := rfl
    have hdrop : (twoDigits century ++ twoDigits year ++
        (fields.encode ++ encodeFraction fraction)).drop 4 =
          fields.encode ++ encodeFraction fraction := rfl
    have htag : ¬(0x18 : UInt8) = 0x17 := by decide
    have hyear : parseYear 0x18 (TimeValue.encode (.generalized century year fields fraction)).dropLast
        label = .ok ((TimeValue.year (.generalized century year fields fraction) : ℤ),
          fields.encode ++ encodeFraction fraction) := by
      unfold parseYear
      rw [TimeValue.encode, List.dropLast_concat, if_neg htag, if_pos rfl, if_neg hlength, htake,
        hdrop, parseDigits_four]
      simp only [bind, Except.bind, pure, Except.pure, TimeValue.year]
      rw [Nat.cast_add, Nat.cast_mul, Nat.cast_ofNat]
    exact parse_fields hlast hyear

/-- The check passes just when the fields name a moment. -/
theorem not_misnamed_iff (time : TimeValue) :
    Misnamed time.year time.fields = false ↔ ∃ m, time.Names m := by
  have hmonth := daysInMonth_eq time.year time.fields.month
  constructor
  · intro h
    simp only [Misnamed, Bool.or_eq_false_iff, decide_eq_false_iff_not, hmonth] at h
    obtain ⟨⟨⟨⟨⟨⟨hmonth_pos, hmonth_le⟩, hday_pos⟩, hday_le⟩, hhour⟩, hminute⟩, hsecond⟩ := h
    let date : Date :=
      ⟨time.year, time.fields.month, time.fields.day, by omega, by omega, by omega, by omega⟩
    exact ⟨⟨date, time.fields.hour, time.fields.minute, time.fields.second, by omega, by omega,
      by omega⟩, rfl, rfl, rfl, rfl, rfl, rfl⟩
  · rintro ⟨m, hyear, hmonth', hday, hhour, hminute, hsecond⟩
    have hmonth_pos := m.date.month_pos
    have hmonth_le := m.date.month_le
    have hday_pos := m.date.day_pos
    have hday_le := m.date.day_le
    have hhour_le := m.hour_le
    have hminute_le := m.minute_le
    have hsecond_le := m.second_le
    rw [hyear, hmonth'] at hday_le
    simp only [Misnamed, Bool.or_eq_false_iff, decide_eq_false_iff_not, hmonth]
    omega

/-- The seconds of a moment, from its days. -/
theorem seconds_eq {time : TimeValue} {m : Moment} (h : time.Names m) (label : String) :
    seconds label ((m.date.ordinal : ℤ) - epoch.ordinal) time.fields = .ok m.unix := by
  obtain ⟨hyear, -, -, hhour, hminute, hsecond⟩ := h
  have hmax : i64Max = 9223372036854775807 := rfl
  have hbound := m.date.ordinal_lt_year
  have hyears := daysBeforeYear_eq (m.date.year + 1)
  have hle := time.year_le
  have hhour_le := m.hour_le
  have hminute_le := m.minute_le
  have hsecond_le := m.second_le
  have hordinal : m.date.ordinal ≤ 4000000 := by omega
  have hepoch := epoch_ordinal
  unfold seconds
  simp only [← hhour, ← hminute, ← hsecond, Option.bind_eq_bind]
  rw [checked_of_bounds (by omega) (by omega), Option.bind_some,
    checked_of_bounds (by omega) (by omega), Option.bind_some,
    checked_of_bounds (by omega) (by omega), Option.bind_some,
    checked_of_bounds (by omega) (by omega)]
  rfl

/-- A value is accepted just when its fields name a moment, with its seconds. -/
theorem parse_iff (time : TimeValue) (label : String) (value : ℤ) :
    parseCertificateTime time.tag time.encode label = .ok value ↔
      ∃ m, time.Names m ∧ value = m.unix := by
  rw [parse_encode]
  have hparsed : ∀ m, time.Names m →
      (daysFromCivil time.year time.fields.month time.fields.day >>= fun days =>
        seconds label days time.fields) = .ok m.unix := by
    intro m hm
    obtain ⟨hyear, hmonth, hday, -, -, -⟩ := id hm
    have hle := time.year_le
    have hdays := daysFromCivil_eq m.date (by omega)
    rw [hyear, hmonth, hday] at hdays
    rw [hdays]
    simp only [bind, Except.bind]
    exact seconds_eq hm label
  cases hcheck : Misnamed time.year time.fields with
  | true =>
    refine ⟨fun h => (by cases h), fun ⟨m, hm, _⟩ => ?_⟩
    have hfalse := (not_misnamed_iff time).mpr ⟨m, hm⟩
    rw [hcheck] at hfalse
    cases hfalse
  | false =>
    obtain ⟨m, hm⟩ := (not_misnamed_iff time).mp hcheck
    rw [if_neg Bool.false_ne_true, hparsed m hm]
    constructor
    · intro h
      exact ⟨m, hm, (Except.ok.inj h).symm⟩
    · rintro ⟨m', hm', hvalue⟩
      have hsame := hparsed m' hm'
      rw [hparsed m hm] at hsame
      rw [hvalue, hsame]

end Times

end OpenTfMirror.CertificateTimes
