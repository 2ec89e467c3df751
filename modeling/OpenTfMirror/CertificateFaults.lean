import OpenTfMirror.CertificateTimes

/-!
# Certificate faults

The certificate reader once more, with every step that could go wrong: a slice or
an index out of range, an `i64` step that overflows, a shift of a length that
loses bits. On no input does one of them go wrong, so the reader without them,
which the other modules use, says all there is to say.
-/

namespace OpenTfMirror.CertificateFaults

open FileStore Metadata CertificateValidity

section Faults

/-- A result, or none where the code would panic or lose bits. -/
abbrev Faulty (α : Type) := ExceptT Report Option α

variable {α β : Type}

/-- A result without faults. -/
def lift (result : Except Report α) : Faulty α := ExceptT.mk (some result)

def bail (message : String) : Faulty α := lift (.error [message])

def fault : Faulty α := ExceptT.mk none

/-- `slice[start..]`. -/
def sliceFrom (bytes : Bytes) (start : ℕ) : Faulty Bytes :=
  if start ≤ bytes.length then pure (bytes.drop start) else fault

/-- `slice[..end]`. -/
def sliceTo (bytes : Bytes) (stop : ℕ) : Faulty Bytes :=
  if stop ≤ bytes.length then pure (bytes.take stop) else fault

/-- `slice[start..end]`. -/
def slice (bytes : Bytes) (start stop : ℕ) : Faulty Bytes :=
  if start ≤ stop ∧ stop ≤ bytes.length then pure ((bytes.drop start).take (stop - start)) else fault

/-- `slice[index]`. -/
def indexAt (bytes : Bytes) (index : ℕ) : Faulty UInt8 :=
  match bytes[index]? with
  | some byte => pure byte
  | none => fault

/-- A step of `i64` arithmetic; those of the code that are checked count too. -/
def step (value : ℤ) : Faulty ℤ :=
  match checked value with
  | some value => pure value
  | none => fault

/-- A subtraction of unsigned numbers. -/
def subtract (minuend subtrahend : ℕ) : Faulty ℕ :=
  if subtrahend ≤ minuend then pure (minuend - subtrahend) else fault

/-- A shift by an octet that keeps every bit. -/
def shiftOctet (length : ℕ) : Faulty ℕ :=
  if length * 256 < 2 ^ 64 then pure (length * 256) else fault

theorem lift_ok (value : α) : lift (.ok value) = pure value := rfl

theorem lift_bind (result : Except Report α) (f : α → Except Report β) :
    lift (result >>= f) = lift result >>= fun value => lift (f value) := by
  cases result with
  | ok value => rfl
  | error report => rfl

theorem lift_map (result : Except Report α) (f : α → β) :
    lift (result.map f) = lift result >>= fun value => pure (f value) := by
  cases result with
  | ok value => rfl
  | error report => rfl

/-- A step behind a result is judged on the values it may have. -/
theorem bind_faultless {result : Except Report α} {f : α → Faulty β} {g : α → Except Report β}
    (h : ∀ value, result = .ok value → f value = lift (g value)) :
    lift result >>= f = lift (result >>= g) := by
  cases result with
  | ok value => exact h value rfl
  | error report => rfl

theorem lift_ite (c : Prop) [Decidable c] (result result' : Except Report α) :
    lift (if c then result else result') = if c then lift result else lift result' :=
  apply_ite lift c result result'

theorem sliceFrom_of_le {bytes : Bytes} {start : ℕ} (h : start ≤ bytes.length) :
    sliceFrom bytes start = pure (bytes.drop start) := if_pos h

theorem sliceTo_of_le {bytes : Bytes} {stop : ℕ} (h : stop ≤ bytes.length) :
    sliceTo bytes stop = pure (bytes.take stop) := if_pos h

theorem slice_of_le {bytes : Bytes} {start stop : ℕ} (horder : start ≤ stop)
    (h : stop ≤ bytes.length) :
    slice bytes start stop = pure ((bytes.drop start).take (stop - start)) := if_pos ⟨horder, h⟩

theorem step_of_bounds {value : ℤ} (hlow : -2 ^ 63 ≤ value) (hhigh : value ≤ i64Max) :
    step value = pure value := by
  rw [step, CertificateTimes.checked_of_bounds hlow hhigh]

end Faults

section Der

/-- The loop over the octets of a length. -/
def derLength (label : String) : List UInt8 → ℕ → Faulty ℕ
  | [], length => pure length
  | byte :: rest, length => do
    let shifted ← shiftOctet length
    if shifted + byte.toNat < 2 ^ 64 then derLength label rest (shifted + byte.toNat)
    else bail (label ++ " DER length overflows usize")

/-- The length of a value and the input behind it. -/
def readDerLength (label : String) (first : UInt8) (input : Bytes) : Faulty (ℕ × Bytes) :=
  if first &&& 0x80 = 0 then pure (first.toNat, input)
  else
    let lengthBytes := (first &&& 0x7f).toNat
    if lengthBytes = 0 then bail (label ++ " uses an indefinite DER length")
    else if 8 < lengthBytes || input.length < lengthBytes then
      bail (label ++ " has an invalid DER length")
    else do
      let octets ← sliceTo input lengthBytes
      let length ← derLength label octets 0
      let input ← sliceFrom input lengthBytes
      return (length, input)

/-- `read_der_tlv`. -/
def readDerTlv (input : Bytes) (label : String) : Faulty (UInt8 × Bytes × Bytes) := do
  let tag ← lift (orBail (label ++ " is missing a DER tag") input.head?)
  let input ← sliceFrom input 1
  let first ← lift (orBail (label ++ " is missing a DER length") input.head?)
  let input ← sliceFrom input 1
  let (length, input) ← readDerLength label first input
  if input.length < length then bail (label ++ " is truncated")
  else
    let value ← sliceTo input length
    let remainder ← sliceFrom input length
    return (tag, value, remainder)

/-- `read_der_value`. -/
def readDerValue (input : Bytes) (expectedTag : UInt8) (label : String) : Faulty (Bytes × Bytes) := do
  let (tag, value, rest) ← readDerTlv input label
  if tag ≠ expectedTag then
    bail (label ++ " has unexpected DER tag " ++ hexByte tag ++ ", expected " ++ hexByte expectedTag)
  else pure (value, rest)

/-- Where one more octet fits, so do the ones behind it. -/
theorem octet_fits (octet : UInt8) {length rest : ℕ}
    (h : (length + 1) * 256 ^ (rest + 1) ≤ 2 ^ 64) :
    (length + 1) * 256 ≤ 2 ^ 64 ∧
      (length * 256 + octet.toNat + 1) * 256 ^ rest ≤ 2 ^ 64 := by
  have hoctet := octet.toNat_lt
  have hpow : 1 ≤ 256 ^ rest := Nat.one_le_pow _ _ (by decide)
  rw [pow_succ, mul_comm (256 ^ rest), ← mul_assoc] at h
  exact ⟨(Nat.le_mul_of_pos_right _ hpow).trans h, (Nat.mul_le_mul_right _ (by omega)).trans h⟩

/-- No bit of a length is lost: there are at most eight octets of it. -/
theorem derLength_faultless (label : String) {octets : List UInt8} {length : ℕ}
    (h : (length + 1) * 256 ^ octets.length ≤ 2 ^ 64) :
    derLength label octets length = lift (CertificateValidity.derLength label octets length) := by
  induction octets generalizing length with
  | nil => rfl
  | cons octet rest ih =>
    have hoctet := octet.toNat_lt
    obtain ⟨hwhole, hnext⟩ := octet_fits octet h
    have hkept : length * 256 % 2 ^ 64 = length * 256 := Nat.mod_eq_of_lt (by omega)
    simp only [derLength, CertificateValidity.derLength, shiftOctet, hkept]
    rw [if_pos (by omega), pure_bind, lift_ite, ih hnext]
    rfl

theorem readDerLength_faultless (label : String) (first : UInt8) (input : Bytes) :
    readDerLength label first input =
      lift (CertificateValidity.readDerLength label first input) := by
  unfold readDerLength CertificateValidity.readDerLength
  simp only [lift_ite, bail]
  split
  · rfl
  · split
    · rfl
    · split
      · rfl
      · next hlong =>
          simp only [Bool.or_eq_true, decide_eq_true_eq, not_or, not_lt] at hlong
          obtain ⟨hoctets, hinput⟩ := hlong
          have hlength : (input.take (first &&& 0x7f).toNat).length ≤ 8 := by
            rw [List.length_take]
            omega
          have hword : (0 + 1) * 256 ^ (input.take (first &&& 0x7f).toNat).length ≤ 2 ^ 64 := by
            rw [zero_add, one_mul]
            exact (Nat.pow_le_pow_right (by decide) hlength).trans (by decide)
          rw [sliceTo_of_le hinput, sliceFrom_of_le hinput, lift_map,
            ← derLength_faultless label hword]
          rfl

theorem readDerTlv_faultless (input : Bytes) (label : String) :
    readDerTlv input label = lift (CertificateValidity.readDerTlv input label) := by
  match input with
  | [] => rfl
  | [_] => rfl
  | tag :: first :: input =>
    have hbehind : readDerTlv (tag :: first :: input) label =
        readDerLength label first input >>= fun read =>
          if read.2.length < read.1 then bail (label ++ " is truncated")
          else do
            let value ← sliceTo read.2 read.1
            let remainder ← sliceFrom read.2 read.1
            return (tag, value, remainder) := rfl
    rw [hbehind, readDerLength_faultless, CertificateValidity.readDerTlv, lift_bind]
    refine congrArg (lift _ >>= ·) (funext fun read => ?_)
    rw [lift_ite]
    split
    · rfl
    · next hwhole =>
        rw [sliceTo_of_le (not_lt.mp hwhole), sliceFrom_of_le (not_lt.mp hwhole)]
        rfl

theorem readDerValue_faultless (input : Bytes) (expectedTag : UInt8) (label : String) :
    readDerValue input expectedTag label =
      lift (CertificateValidity.readDerValue input expectedTag label) := by
  rw [readDerValue, readDerTlv_faultless, CertificateValidity.readDerValue, lift_bind]
  refine congrArg (lift _ >>= ·) (funext fun read => ?_)
  rw [lift_ite]
  rfl

end Der

section Times

/-- The fold of `parse_digits`. -/
def foldDigits : Bytes → ℤ → Faulty ℤ
  | [], value => pure value
  | byte :: rest, value => do
    let digit ← subtract byte.toNat 48
    let value ← step (value * 10)
    let value ← step (value + digit)
    foldDigits rest value

/-- `parse_digits`. -/
def parseDigits (value : Bytes) (label : String) : Faulty ℤ :=
  if value = [] || value.any (fun byte => !isDigitByte byte) then
    bail ("certificate " ++ label ++ " contains non-digit time fields")
  else foldDigits value 0

/-- The year of a time and its other fields. -/
def parseYear (tag : UInt8) (value : Bytes) (label : String) : Faulty (ℤ × Bytes) :=
  if tag = 0x17 then
    if value.length ≠ 12 then bail ("certificate " ++ label ++ " has an invalid UTCTime")
    else do
      let digits ← sliceTo value 2
      let year ← parseDigits digits label
      let year ← if 50 ≤ year then step (1900 + year) else step (2000 + year)
      let fields ← sliceFrom value 2
      return (year, fields)
  else if tag = 0x18 then
    if value.length < 14 then bail ("certificate " ++ label ++ " has an invalid GeneralizedTime")
    else do
      let digits ← sliceTo value 4
      let year ← parseDigits digits label
      let fields ← sliceFrom value 4
      return (year, fields)
  else bail ("certificate " ++ label ++ " has unsupported DER time tag " ++ hexByte tag)

/-- Something other than a dot and digits follows the seconds. -/
def invalidFraction (fields : Bytes) : Faulty Bool :=
  if 10 < fields.length then do
    let dot ← indexAt fields 10
    if dot ≠ 46 then return true
    else if fields.length = 11 then return true
    else
      let digits ← sliceFrom fields 11
      return digits.any fun byte => !isDigitByte byte
  else return false

/-- The era of a year that begins in March. -/
def eraOf (adjustedYear : ℤ) : Faulty ℤ :=
  if 0 ≤ adjustedYear then return adjustedYear.tdiv 400
  else do
    let shifted ← step (adjustedYear - 399)
    return shifted.tdiv 400

/-- The day of a year that begins in March. -/
def dayOfYear (month day : ℤ) : Faulty ℤ := do
  let monthOfYear ← step (month + if 2 < month then -3 else 9)
  let monthDays ← step (153 * monthOfYear)
  let monthDays ← step (monthDays + 2)
  let days ← step (monthDays.tdiv 5 + day)
  step (days - 1)

/-- `days_from_civil`. -/
def daysFromCivil (year month day : ℤ) : Faulty ℤ := do
  let adjustedYear ← step (year - if month ≤ 2 then 1 else 0)
  let era ← eraOf adjustedYear
  let eraStart ← step (era * 400)
  let yearOfEra ← step (adjustedYear - eraStart)
  let dayOfYear ← dayOfYear month day
  let dayOfEra ← step (yearOfEra * 365)
  let dayOfEra ← step (dayOfEra + yearOfEra.tdiv 4)
  let dayOfEra ← step (dayOfEra - yearOfEra.tdiv 100)
  let dayOfEra ← step (dayOfEra + dayOfYear)
  let days ← step (era * 146097)
  let days ← step (days + dayOfEra)
  step (days - 719468)

/-- The seconds of a time from its days. -/
def seconds (days hour minute second : ℤ) : Faulty ℤ := do
  let value ← step (days * 86400)
  let hourSeconds ← step (hour * 3600)
  let value ← step (value + hourSeconds)
  let minuteSeconds ← step (minute * 60)
  let value ← step (value + minuteSeconds)
  step (value + second)

/-- `parse_certificate_time`. -/
def parseCertificateTime (tag : UInt8) (value : Bytes) (label : String) : Faulty ℤ :=
  if value.getLast? ≠ some 90 then bail ("certificate " ++ label ++ " must use UTC (Z) time")
  else do
    let stop ← subtract value.length 1
    let value ← sliceTo value stop
    let (year, fields) ← parseYear tag value label
    if fields.length < 10 then bail ("certificate " ++ label ++ " is missing time fields")
    else
      let month ← sliceTo fields 2 >>= fun digits => parseDigits digits label
      let day ← slice fields 2 4 >>= fun digits => parseDigits digits label
      let hour ← slice fields 4 6 >>= fun digits => parseDigits digits label
      let minute ← slice fields 6 8 >>= fun digits => parseDigits digits label
      let second ← slice fields 8 10 >>= fun digits => parseDigits digits label
      let invalid ← invalidFraction fields
      if invalid then bail ("certificate " ++ label ++ " has invalid fractional seconds")
      else if month < 1 || 12 < month || day = 0 || daysInMonth year month < day || 23 < hour ||
          59 < minute || 59 < second then
        bail ("certificate " ++ label ++ " contains an invalid calendar value")
      else
        let days ← daysFromCivil year month day
        seconds days hour minute second

theorem isDigitByte_bounds {byte : UInt8} (h : isDigitByte byte = true) :
    48 ≤ byte.toNat ∧ byte.toNat ≤ 57 := by
  simp only [isDigitByte, Bool.and_eq_true, decide_eq_true_eq, UInt8.le_iff_toNat_le] at h
  exact h

/-- A few digits on top of a small number stay small. -/
theorem foldDigits_faultless {digits : Bytes} (hdigits : ∀ byte ∈ digits, isDigitByte byte = true)
    {value : ℤ} (hvalue : 0 ≤ value) (hbound : (value + 1) * 10 ^ digits.length ≤ 10 ^ 18) :
    ∃ number, foldDigits digits value = pure number ∧
      CertificateValidity.foldDigits digits value = some number ∧ 0 ≤ number ∧
        number + 1 ≤ (value + 1) * 10 ^ digits.length := by
  induction digits generalizing value with
  | nil =>
    exact ⟨value, rfl, rfl, hvalue, by simp⟩
  | cons byte rest ih =>
    obtain ⟨hlow, hhigh⟩ := isDigitByte_bounds (hdigits byte (List.mem_cons_self ..))
    have hmax : i64Max = 9223372036854775807 := rfl
    have hpow : (1 : ℤ) ≤ 10 ^ rest.length := by exact_mod_cast Nat.one_le_pow _ 10 (by decide)
    rw [List.length_cons, pow_succ', ← mul_assoc] at hbound
    have hwhole : (value + 1) * 10 ≤ 10 ^ 18 :=
      (le_mul_of_one_le_right (by omega) hpow).trans hbound
    have hdigit : ((byte.toNat - 48 : ℕ) : ℤ) = byte.toNat - 48 := by omega
    have hnext : (value * 10 + (byte.toNat - 48) + 1) * 10 ^ rest.length ≤
        (value + 1) * 10 * 10 ^ rest.length :=
      mul_le_mul_of_nonneg_right (by omega) (zero_le_one.trans hpow)
    obtain ⟨number, hfold, hmodel, hpos, hle⟩ := @ih
      (fun b hb => hdigits b (List.mem_cons_of_mem _ hb)) (value * 10 + (byte.toNat - 48)) (by omega)
      (hnext.trans hbound)
    refine ⟨number, ?_, ?_, hpos, ?_⟩
    · simp only [foldDigits, subtract]
      rw [if_pos hlow, pure_bind, step_of_bounds (by omega) (by omega), pure_bind, hdigit,
        step_of_bounds (by omega) (by omega), pure_bind, hfold]
    · simp only [CertificateValidity.foldDigits, Option.bind_eq_bind]
      rw [CertificateTimes.checked_of_bounds (by omega) (by omega), Option.bind_some,
        CertificateTimes.checked_of_bounds (by omega) (by omega), Option.bind_some, hmodel]
    · rw [List.length_cons, pow_succ', ← mul_assoc]
      exact hle.trans hnext

/-- At most four digits are read at a time. -/
theorem parseDigits_faultless {value : Bytes} (hlength : value.length ≤ 4) (label : String) :
    parseDigits value label = lift (CertificateValidity.parseDigits value label) ∧
      ∀ number, CertificateValidity.parseDigits value label = .ok number →
        0 ≤ number ∧ number ≤ 9999 := by
  unfold parseDigits CertificateValidity.parseDigits
  split
  · exact ⟨rfl, fun _ h => by cases h⟩
  · next hdigits =>
      simp only [Bool.or_eq_true, decide_eq_true_eq, List.any_eq_true, Bool.not_eq_true',
        not_or, not_exists, not_and, Bool.not_eq_false] at hdigits
      have hsmall : (10 : ℤ) ^ value.length ≤ 10 ^ 4 :=
        pow_le_pow_right₀ (by decide) hlength
      have hbound : ((0 : ℤ) + 1) * 10 ^ value.length ≤ 10 ^ 18 := by
        rw [zero_add, one_mul]
        exact hsmall.trans (by decide)
      obtain ⟨number, hfold, hmodel, hpos, hle⟩ := foldDigits_faultless hdigits.2 le_rfl hbound
      rw [hfold, hmodel]
      refine ⟨rfl, fun number' h => ?_⟩
      obtain rfl : number = number' := Except.ok.inj h
      rw [zero_add, one_mul] at hle
      exact ⟨hpos, by omega⟩

theorem parseYear_faultless (tag : UInt8) (value : Bytes) (label : String) :
    parseYear tag value label = lift (CertificateValidity.parseYear tag value label) := by
  have hmax : i64Max = 9223372036854775807 := rfl
  unfold parseYear CertificateValidity.parseYear
  simp only [lift_ite, bail]
  split
  · split
    · rfl
    · next hlength =>
        have hlength : value.length = 12 := not_not.mp hlength
        have htake : (value.take 2).length ≤ 4 := (List.length_take_le 2 value).trans (by decide)
        obtain ⟨hdigits, hbounds⟩ := parseDigits_faultless htake label
        rw [sliceTo_of_le (by omega), pure_bind, hdigits]
        refine bind_faultless fun year hyear => ?_
        obtain ⟨hlow, hhigh⟩ := hbounds year hyear
        rw [step_of_bounds (by omega) (by omega), step_of_bounds (by omega) (by omega),
          sliceFrom_of_le (by omega)]
        split
        · rfl
        · rfl
  · split
    · split
      · rfl
      · next hlength =>
          have htake : (value.take 4).length ≤ 4 := List.length_take_le 4 value
          obtain ⟨hdigits, hbounds⟩ := parseDigits_faultless htake label
          rw [sliceTo_of_le (by omega), pure_bind, hdigits]
          refine bind_faultless fun year hyear => ?_
          rw [sliceFrom_of_le (by omega)]
          rfl
    · rfl

/-- The year is a small number. -/
theorem parseYear_bounds {tag : UInt8} {value fields : Bytes} {label : String} {year : ℤ}
    (h : CertificateValidity.parseYear tag value label = .ok (year, fields)) :
    0 ≤ year ∧ year ≤ 11999 := by
  unfold CertificateValidity.parseYear at h
  split at h
  · split at h
    · cases h
    · have htake : (value.take 2).length ≤ 4 := (List.length_take_le 2 value).trans (by decide)
      cases hdigits : CertificateValidity.parseDigits (value.take 2) label with
      | error report =>
        rw [hdigits] at h
        cases h
      | ok number =>
        have hbounds := (parseDigits_faultless htake label).2 number hdigits
        rw [hdigits] at h
        have hyear : (if 50 ≤ number then 1900 + number else 2000 + number) = year :=
          congrArg Prod.fst (Except.ok.inj h)
        split at hyear
        · omega
        · omega
  · split at h
    · split at h
      · cases h
      · have htake : (value.take 4).length ≤ 4 := List.length_take_le 4 value
        cases hdigits : CertificateValidity.parseDigits (value.take 4) label with
        | error report =>
          rw [hdigits] at h
          cases h
        | ok number =>
          have hbounds := (parseDigits_faultless htake label).2 number hdigits
          rw [hdigits] at h
          have hyear : number = year := congrArg Prod.fst (Except.ok.inj h)
          omega
    · cases h

theorem invalidFraction_faultless (fields : Bytes) :
    invalidFraction fields = pure (!validFraction (fields.drop 10)) := by
  unfold invalidFraction
  split
  · next hlong =>
      obtain ⟨dot, digits, hdrop⟩ := List.exists_cons_of_ne_nil
        (List.drop_eq_nil_iff.not.mpr (not_le.mpr hlong) : fields.drop 10 ≠ [])
      have hdot : fields[10]? = some dot := by
        rw [← List.head?_drop, hdrop, List.head?_cons]
      have hrest : fields.drop 11 = digits := by
        rw [← List.tail_drop, hdrop, List.tail_cons]
      have hlength : fields.length = 11 ↔ digits = [] := by
        rw [← hrest, List.drop_eq_nil_iff]
        omega
      rw [indexAt, hdot, hdrop, validFraction, sliceFrom_of_le hlong, hrest]
      simp only [pure_bind, hlength]
      by_cases hpoint : dot = 46
      · rw [if_neg (not_not.mpr hpoint), decide_eq_true hpoint, Bool.true_and]
        by_cases hempty : digits = []
        · rw [if_pos hempty, hempty]
          rfl
        · rw [if_neg hempty, decide_eq_true hempty, Bool.true_and, List.not_all_eq_any_not]
      · rw [if_pos hpoint, decide_eq_false hpoint]
        rfl
  · next hshort =>
      rw [List.drop_eq_nil_of_le (not_lt.mp hshort)]
      rfl

theorem eraOf_faultless {year : ℤ} (hlow : -1 ≤ year) (hhigh : year ≤ 11999) :
    eraOf year = pure (if 0 ≤ year then year.tdiv 400 else (year - 399).tdiv 400) := by
  have hmax : i64Max = 9223372036854775807 := rfl
  unfold eraOf
  split
  · rfl
  · rw [step_of_bounds (by omega) (by omega), pure_bind]

theorem dayOfYear_faultless {month day : ℤ} (hmonth : 1 ≤ month ∧ month ≤ 12)
    (hday : 0 ≤ day ∧ day ≤ 31) :
    dayOfYear month day =
        pure ((153 * (month + if 2 < month then -3 else 9) + 2).tdiv 5 + day - 1) ∧
      -1 ≤ (153 * (month + if 2 < month then -3 else 9) + 2).tdiv 5 + day - 1 ∧
      (153 * (month + if 2 < month then -3 else 9) + 2).tdiv 5 + day - 1 ≤ 400 := by
  have hmax : i64Max = 9223372036854775807 := rfl
  obtain ⟨shifted, hshifted, hlow, hhigh⟩ : ∃ shifted, (month + if 2 < month then -3 else 9) =
      shifted ∧ 0 ≤ shifted ∧ shifted ≤ 11 := by
    refine ⟨_, rfl, ?_⟩
    split
    · omega
    · omega
  have hquotient : (153 * shifted + 2).tdiv 5 = (153 * shifted + 2) / 5 :=
    Int.tdiv_eq_ediv_of_nonneg (by omega)
  unfold dayOfYear
  rw [hshifted, step_of_bounds (by omega) (by omega), pure_bind,
    step_of_bounds (by omega) (by omega), pure_bind, step_of_bounds (by omega) (by omega), pure_bind,
    hquotient, step_of_bounds (by omega) (by omega), pure_bind,
    step_of_bounds (by omega) (by omega)]
  exact ⟨rfl, by omega⟩

/-- No step from a small year overflows. -/
theorem daysFromCivil_faultless {year month day : ℤ} (hyear : 0 ≤ year ∧ year ≤ 11999)
    (hmonth : 1 ≤ month ∧ month ≤ 12) (hday : 0 ≤ day ∧ day ≤ 31) :
    ∃ days, daysFromCivil year month day = pure days ∧
      CertificateValidity.daysFromCivil year month day = .ok days ∧
        -10000000 ≤ days ∧ days ≤ 10000000 := by
  have hmax : i64Max = 9223372036854775807 := rfl
  obtain ⟨hday_of_year, hday_low, hday_high⟩ := dayOfYear_faultless hmonth hday
  unfold daysFromCivil CertificateValidity.daysFromCivil
  dsimp only
  obtain ⟨adjusted, hadjusted, hadjusted_low, hadjusted_high⟩ : ∃ adjusted,
      (year - if month ≤ 2 then 1 else 0) = adjusted ∧ -1 ≤ adjusted ∧ adjusted ≤ 11999 := by
    refine ⟨_, rfl, ?_⟩
    split
    · omega
    · omega
  have hera := CertificateTimes.era_eq hadjusted_low
  have hyears : adjusted - adjusted / 400 * 400 = adjusted % 400 := by omega
  have hfour : (adjusted % 400).tdiv 4 = adjusted % 400 / 4 :=
    Int.tdiv_eq_ediv_of_nonneg (by omega)
  have hhundred : (adjusted % 400).tdiv 100 = adjusted % 400 / 100 :=
    Int.tdiv_eq_ediv_of_nonneg (by omega)
  rw [hadjusted, step_of_bounds (by omega) (by omega), pure_bind,
    eraOf_faultless hadjusted_low hadjusted_high, hday_of_year]
  generalize (153 * (month + if 2 < month then -3 else 9) + 2).tdiv 5 + day - 1 = dayOfYear at *
  simp only [pure_bind, hera, Option.bind_eq_bind]
  rw [step_of_bounds (by omega) (by omega), pure_bind, step_of_bounds (by omega) (by omega), pure_bind,
    hyears, hfour, hhundred]
  obtain ⟨hera_low, hera_high⟩ : -1 ≤ adjusted / 400 ∧ adjusted / 400 ≤ 29 := by omega
  obtain ⟨hyear_low, hyear_high⟩ : 0 ≤ adjusted % 400 ∧ adjusted % 400 ≤ 399 := by omega
  obtain ⟨hfour_low, hfour_high⟩ : 0 ≤ adjusted % 400 / 4 ∧ adjusted % 400 / 4 ≤ 99 := by omega
  obtain ⟨hhundred_low, hhundred_high⟩ : 0 ≤ adjusted % 400 / 100 ∧ adjusted % 400 / 100 ≤ 3 := by
    omega
  clear hera hfour hhundred hadjusted hyears
  generalize adjusted % 400 / 4 = fours at *
  generalize adjusted % 400 / 100 = hundreds at *
  rw [step_of_bounds (by omega) (by omega), pure_bind, step_of_bounds (by omega) (by omega),
    pure_bind, step_of_bounds (by omega) (by omega), pure_bind, step_of_bounds (by omega) (by omega),
    pure_bind, step_of_bounds (by omega) (by omega), pure_bind, step_of_bounds (by omega) (by omega),
    pure_bind, step_of_bounds (by omega) (by omega)]
  rw [CertificateTimes.checked_of_bounds (by omega) (by omega), Option.bind_some,
    CertificateTimes.checked_of_bounds (by omega) (by omega), Option.bind_some,
    CertificateTimes.checked_of_bounds (by omega) (by omega)]
  exact ⟨_, rfl, rfl, by omega⟩

theorem seconds_faultless {days hour minute second : ℤ} (label : String)
    (hdays : -10000000 ≤ days ∧ days ≤ 10000000) (hhour : 0 ≤ hour ∧ hour ≤ 23)
    (hminute : 0 ≤ minute ∧ minute ≤ 59) (hsecond : 0 ≤ second ∧ second ≤ 59) :
    seconds days hour minute second =
      lift (orBail ("certificate " ++ label ++ " timestamp overflows i64") (do
        let value ← checked (days * 86400)
        let value ← checked (value + hour * 3600)
        let value ← checked (value + minute * 60)
        checked (value + second))) := by
  have hmax : i64Max = 9223372036854775807 := rfl
  simp only [seconds, Option.bind_eq_bind]
  rw [step_of_bounds (by omega) (by omega), pure_bind, step_of_bounds (by omega) (by omega),
    pure_bind, step_of_bounds (by omega) (by omega), pure_bind, step_of_bounds (by omega) (by omega),
    pure_bind, step_of_bounds (by omega) (by omega), pure_bind, step_of_bounds (by omega) (by omega)]
  rw [CertificateTimes.checked_of_bounds (by omega) (by omega), Option.bind_some,
    CertificateTimes.checked_of_bounds (by omega) (by omega), Option.bind_some,
    CertificateTimes.checked_of_bounds (by omega) (by omega), Option.bind_some,
    CertificateTimes.checked_of_bounds (by omega) (by omega)]
  rfl

theorem daysInMonth_le (year month : ℤ) : daysInMonth year month ≤ 31 := by
  unfold daysInMonth
  split
  · split
    · decide
    · decide
  · split
    · decide
    · decide

/-- A field of two digits. -/
theorem parseField_faultless {fields : Bytes} (start : ℕ) (h : start + 2 ≤ fields.length)
    (label : String) :
    (slice fields start (start + 2) >>= fun digits => parseDigits digits label) =
        lift (CertificateValidity.parseDigits ((fields.drop start).take 2) label) ∧
      ∀ number, CertificateValidity.parseDigits ((fields.drop start).take 2) label = .ok number →
        0 ≤ number := by
  have hlength : ((fields.drop start).take 2).length ≤ 4 :=
    (List.length_take_le 2 _).trans (by decide)
  obtain ⟨hdigits, hbounds⟩ := parseDigits_faultless hlength label
  rw [slice_of_le (Nat.le_add_right start 2) h, pure_bind, Nat.add_sub_cancel_left]
  exact ⟨hdigits, fun number hnumber => (hbounds number hnumber).1⟩

/-- No byte string makes the conversion of a time go wrong. -/
theorem parseCertificateTime_faultless (tag : UInt8) (value : Bytes) (label : String) :
    parseCertificateTime tag value label =
      lift (CertificateValidity.parseCertificateTime tag value label) := by
  unfold parseCertificateTime CertificateValidity.parseCertificateTime
  split
  · rfl
  · next hlast =>
      have hpos : 1 ≤ value.length := by
        rw [Nat.one_le_iff_ne_zero, ne_eq, List.length_eq_zero_iff]
        rintro rfl
        exact hlast (by decide)
      rw [subtract, if_pos hpos, pure_bind, sliceTo_of_le (Nat.sub_le ..), pure_bind,
        ← List.dropLast_eq_take, parseYear_faultless]
      refine bind_faultless fun parsed hyear => ?_
      obtain ⟨year, fields⟩ := parsed
      have hyear := parseYear_bounds hyear
      dsimp only
      rw [lift_ite]
      split
      · rfl
      · next hlength =>
          have hlength : 10 ≤ fields.length := not_lt.mp hlength
          have hfirst : sliceTo fields 2 = slice fields 0 2 := by
            rw [sliceTo_of_le (by omega), slice_of_le (by omega) (by omega), List.drop_zero]
          obtain ⟨hmonth, -⟩ := @parseField_faultless fields 0 (by omega) label
          obtain ⟨hday, hday_pos⟩ := @parseField_faultless fields 2 (by omega) label
          obtain ⟨hhour, hhour_pos⟩ := @parseField_faultless fields 4 (by omega) label
          obtain ⟨hminute, hminute_pos⟩ := @parseField_faultless fields 6 (by omega) label
          obtain ⟨hsecond, hsecond_pos⟩ := @parseField_faultless fields 8 (by omega) label
          rw [hfirst, hmonth]
          refine bind_faultless fun month _ => ?_
          rw [hday]
          refine bind_faultless fun day hday => ?_
          rw [hhour]
          refine bind_faultless fun hour hhour => ?_
          rw [hminute]
          refine bind_faultless fun minute hminute => ?_
          rw [hsecond]
          refine bind_faultless fun second hsecond => ?_
          rw [invalidFraction_faultless, pure_bind, lift_ite]
          split
          · rfl
          · rw [lift_ite]
            split
            · rfl
            · next hcheck =>
                have hday_pos := hday_pos day hday
                have hhour_pos := hhour_pos hour hhour
                have hminute_pos := hminute_pos minute hminute
                have hsecond_pos := hsecond_pos second hsecond
                have hmonths := daysInMonth_le year month
                simp only [Bool.or_eq_true, decide_eq_true_eq, not_or, not_lt] at hcheck
                obtain ⟨⟨⟨⟨⟨⟨hmonth_low, hmonth_high⟩, -⟩, hday_high⟩, hhour_high⟩, hminute_high⟩,
                  hsecond_high⟩ := hcheck
                obtain ⟨days, hdays, hmodel, hbounds⟩ := daysFromCivil_faultless hyear
                  ⟨hmonth_low, hmonth_high⟩ ⟨hday_pos, hday_high.trans hmonths⟩
                rw [hdays, hmodel, pure_bind, seconds_faultless label hbounds ⟨hhour_pos, hhour_high⟩
                  ⟨hminute_pos, hminute_high⟩ ⟨hsecond_pos, hsecond_high⟩]
                rfl

/-- A value that names a moment is converted to it, without a fault. -/
theorem converted {time : CertificateTimes.TimeValue} {m : Gregorian.Moment} (h : time.Names m)
    (label : String) : parseCertificateTime time.tag time.encode label = pure m.unix := by
  rw [parseCertificateTime_faultless,
    (CertificateTimes.parse_iff time label m.unix).mpr ⟨m, h, rfl⟩, lift_ok]

/-- A time is accepted just when its fields name a moment, and becomes the seconds since
the epoch. They grow with the moment, by 86400 from a day to the next, and no byte string
makes a step of the conversion overflow. -/
theorem times_converted (label : String) :
    (∀ (time : CertificateTimes.TimeValue) (value : ℤ),
      parseCertificateTime time.tag time.encode label = pure value ↔
        ∃ m, time.Names m ∧ value = m.unix) ∧
    (∀ (time time' : CertificateTimes.TimeValue) (m m' : Gregorian.Moment),
      time.Names m → time'.Names m' → m.Before m' →
        ∃ value value', parseCertificateTime time.tag time.encode label = pure value ∧
          parseCertificateTime time'.tag time'.encode label = pure value' ∧ value < value') ∧
    (∀ (time time' : CertificateTimes.TimeValue) (m : Gregorian.Moment),
      time.Names m → time'.Names m.tomorrow →
        ∃ value, parseCertificateTime time.tag time.encode label = pure value ∧
          parseCertificateTime time'.tag time'.encode label = pure (value + 86400)) ∧
    (∀ (tag : UInt8) (value : Bytes), parseCertificateTime tag value label =
      lift (CertificateValidity.parseCertificateTime tag value label)) := by
  refine ⟨fun time value => ?_, fun time time' m m' h h' hbefore => ?_, fun time time' m h h' => ?_,
    fun tag value => parseCertificateTime_faultless tag value label⟩
  · rw [parseCertificateTime_faultless, ← CertificateTimes.parse_iff time label value]
    constructor
    · intro h
      exact Option.some.inj h
    · intro h
      rw [h, lift_ok]
  · exact ⟨m.unix, m'.unix, converted h label, converted h' label, Gregorian.Moment.unix_lt hbefore⟩
  · refine ⟨m.unix, converted h label, ?_⟩
    rw [converted h' label, Gregorian.Moment.unix_tomorrow]

end Times

section Certificates

/-- The optional version of a TBS certificate is skipped. -/
def skipVersion (tbs : Bytes) : Faulty Bytes :=
  if tbs.head? = some 0xa0 then do
    let (_, tbs) ← readDerValue tbs 0xa0 "TBSCertificate version"
    return tbs
  else return tbs

/-- `parse_certificate_validity`. -/
def parseCertificateValidity (der : Bytes) : Faulty (ℤ × ℤ) := do
  let (certificate, rest) ← readDerValue der 0x30 "certificate"
  if rest ≠ [] then bail "TLS certificate contains trailing data"
  else
    let (tbs, fields) ← readDerValue certificate 0x30 "TBSCertificate"
    let (_, fields) ← readDerValue fields 0x30 "certificate signature algorithm"
    let (_, fields) ← readDerValue fields 0x03 "certificate signature"
    if fields ≠ [] then bail "TLS certificate contains trailing fields"
    else
      let tbs ← skipVersion tbs
      let (_, tbs) ← readDerValue tbs 0x02 "certificate serial number"
      let (_, tbs) ← readDerValue tbs 0x30 "certificate signature algorithm"
      let (_, tbs) ← readDerValue tbs 0x30 "certificate issuer"
      let (validity, _) ← readDerValue tbs 0x30 "certificate validity"
      let (notBeforeTag, notBeforeDer, validity) ← readDerTlv validity "certificate not_before"
      let (notAfterTag, notAfterDer, validity) ← readDerTlv validity "certificate not_after"
      if validity ≠ [] then bail "certificate validity contains trailing data"
      else
        let notBefore ← parseCertificateTime notBeforeTag notBeforeDer "not_before"
        let notAfter ← parseCertificateTime notAfterTag notAfterDer "not_after"
        if notAfter < notBefore then bail "certificate not_before is later than not_after"
        else return (notBefore, notAfter)

theorem skipVersion_faultless (tbs : Bytes) :
    skipVersion tbs = lift (CertificateValidity.skipVersion tbs) := by
  unfold skipVersion CertificateValidity.skipVersion
  rw [lift_ite]
  split
  · rw [readDerValue_faultless, lift_map]
  · rfl

/-- No byte string makes the certificate reader go wrong. -/
theorem parseCertificateValidity_faultless (der : Bytes) :
    parseCertificateValidity der = lift (CertificateValidity.parseCertificateValidity der) := by
  unfold parseCertificateValidity CertificateValidity.parseCertificateValidity
  rw [readDerValue_faultless]
  refine bind_faultless fun certificate _ => ?_
  dsimp only
  rw [lift_ite]
  split
  · rfl
  · rw [readDerValue_faultless]
    refine bind_faultless fun tbs _ => ?_
    rw [readDerValue_faultless]
    refine bind_faultless fun algorithm _ => ?_
    rw [readDerValue_faultless]
    refine bind_faultless fun signature _ => ?_
    rw [lift_ite]
    split
    · rfl
    · rw [skipVersion_faultless]
      refine bind_faultless fun fields _ => ?_
      rw [readDerValue_faultless]
      refine bind_faultless fun serial _ => ?_
      rw [readDerValue_faultless]
      refine bind_faultless fun tbsAlgorithm _ => ?_
      rw [readDerValue_faultless]
      refine bind_faultless fun issuer _ => ?_
      rw [readDerValue_faultless]
      refine bind_faultless fun validity _ => ?_
      rw [readDerTlv_faultless]
      refine bind_faultless fun notBeforeRead _ => ?_
      rw [readDerTlv_faultless]
      refine bind_faultless fun notAfterRead _ => ?_
      rw [lift_ite]
      split
      · rfl
      · rw [parseCertificateTime_faultless]
        refine bind_faultless fun notBefore _ => ?_
        rw [parseCertificateTime_faultless]
        refine bind_faultless fun notAfter _ => ?_
        rw [lift_ite]
        rfl

end Certificates

end OpenTfMirror.CertificateFaults
