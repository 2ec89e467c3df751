import OpenTfMirror.FileStore
import OpenTfMirror.Metadata
import Mathlib.Algebra.Group.Int.Defs

/-!
# Certificate validity

`validate_certificate_validity` with the DER reader below it: the two times of a
certificate are cut out of its encoding and converted to seconds of the Unix
epoch. Errors carry their context, the outermost first.
-/

namespace OpenTfMirror.CertificateValidity

open FileStore Metadata

/-- An error with its context. -/
abbrev Report := List String

/-- `Context::with_context`. -/
def withContext {α : Type} (context : String) : Except Report α → Except Report α
  | .ok value => .ok value
  | .error report => .error (context :: report)

/-- The value, or an error of one line. -/
def orBail {α : Type} (message : String) : Option α → Except Report α
  | some value => .ok value
  | none => .error [message]

/-- `i64::MAX`. -/
def i64Max : ℤ := 2 ^ 63 - 1

/-- A result of `i64` arithmetic, unless it overflows. -/
def checked (value : ℤ) : Option ℤ := if -2 ^ 63 ≤ value ∧ value ≤ i64Max then some value else none

/-- The format `0x{:02x}`. -/
def hexByte (byte : UInt8) : String :=
  let digits := Nat.toDigits 16 byte.toNat
  "0x" ++ String.ofList (if digits.length < 2 then '0' :: digits else digits)

section Der

/-- A long-form length, most significant octet first. -/
def derLength (label : String) : List UInt8 → ℕ → Except Report ℕ
  | [], length => .ok length
  | byte :: rest, length =>
    -- `checked_shl` drops the bits that leave the word
    let shifted := (length * 256) % 2 ^ 64
    if shifted + byte.toNat < 2 ^ 64 then derLength label rest (shifted + byte.toNat)
    else .error [label ++ " DER length overflows usize"]

/-- The length of a value and the input behind it. -/
def readDerLength (label : String) (first : UInt8) (input : Bytes) : Except Report (ℕ × Bytes) :=
  if first &&& 0x80 = 0 then .ok (first.toNat, input)
  else
    let lengthBytes := (first &&& 0x7f).toNat
    if lengthBytes = 0 then .error [label ++ " uses an indefinite DER length"]
    else if 8 < lengthBytes || input.length < lengthBytes then
      .error [label ++ " has an invalid DER length"]
    else (derLength label (input.take lengthBytes) 0).map fun length =>
      (length, input.drop lengthBytes)

/-- `read_der_tlv`: the tag, the value and the input behind it. -/
def readDerTlv (input : Bytes) (label : String) : Except Report (UInt8 × Bytes × Bytes) := do
  match input with
  | [] => .error [label ++ " is missing a DER tag"]
  | [_] => .error [label ++ " is missing a DER length"]
  | tag :: first :: input =>
    let (length, input) ← readDerLength label first input
    if input.length < length then .error [label ++ " is truncated"]
    else .ok (tag, input.take length, input.drop length)

/-- `read_der_value`. -/
def readDerValue (input : Bytes) (expectedTag : UInt8) (label : String) :
    Except Report (Bytes × Bytes) := do
  let (tag, value, rest) ← readDerTlv input label
  if tag ≠ expectedTag then
    .error [label ++ " has unexpected DER tag " ++ hexByte tag ++ ", expected " ++
      hexByte expectedTag]
  else .ok (value, rest)

end Der

section Times

/-- `is_leap_year`. -/
def isLeapYear (year : ℤ) : Bool :=
  year.tmod 4 = 0 && (year.tmod 100 ≠ 0 || year.tmod 400 = 0)

/-- `days_in_month`. -/
def daysInMonth (year month : ℤ) : ℤ :=
  if month = 2 then if isLeapYear year then 29 else 28
  else if month = 4 || month = 6 || month = 9 || month = 11 then 30
  else 31

/-- `days_from_civil`. -/
def daysFromCivil (year month day : ℤ) : Except Report ℤ :=
  let adjustedYear := year - if month ≤ 2 then 1 else 0
  let era := if 0 ≤ adjustedYear then adjustedYear.tdiv 400 else (adjustedYear - 399).tdiv 400
  let yearOfEra := adjustedYear - era * 400
  let monthOfYear := month + if 2 < month then -3 else 9
  let dayOfYear := (153 * monthOfYear + 2).tdiv 5 + day - 1
  let dayOfEra := yearOfEra * 365 + yearOfEra.tdiv 4 - yearOfEra.tdiv 100 + dayOfYear
  orBail "certificate date overflows i64" (do
    let days ← checked (era * 146097)
    let days ← checked (days + dayOfEra)
    checked (days - 719468))

/-- The fold of `parse_digits`. -/
def foldDigits : Bytes → ℤ → Option ℤ
  | [], value => some value
  | byte :: rest, value => do
    let value ← checked (value * 10)
    let value ← checked (value + (byte.toNat - 48))
    foldDigits rest value

/-- `u8::is_ascii_digit`. -/
def isDigitByte (byte : UInt8) : Bool := 48 ≤ byte && byte ≤ 57

/-- `parse_digits`. -/
def parseDigits (value : Bytes) (label : String) : Except Report ℤ :=
  if value = [] || value.any (fun byte => !isDigitByte byte) then
    .error ["certificate " ++ label ++ " contains non-digit time fields"]
  else orBail ("certificate " ++ label ++ " time field overflows i64") (foldDigits value 0)

/-- The year of a time and its other fields. -/
def parseYear (tag : UInt8) (value : Bytes) (label : String) : Except Report (ℤ × Bytes) :=
  if tag = 0x17 then
    if value.length ≠ 12 then .error ["certificate " ++ label ++ " has an invalid UTCTime"]
    else do
      let year ← parseDigits (value.take 2) label
      return (if 50 ≤ year then 1900 + year else 2000 + year, value.drop 2)
  else if tag = 0x18 then
    if value.length < 14 then
      .error ["certificate " ++ label ++ " has an invalid GeneralizedTime"]
    else do
      let year ← parseDigits (value.take 4) label
      return (year, value.drop 4)
  else .error ["certificate " ++ label ++ " has unsupported DER time tag " ++ hexByte tag]

/-- What may follow the seconds: nothing, or a dot and digits. -/
def validFraction (fields : Bytes) : Bool :=
  match fields with
  | [] => true
  | dot :: digits => dot = 46 && digits ≠ [] && digits.all isDigitByte

/-- `parse_certificate_time`. -/
def parseCertificateTime (tag : UInt8) (value : Bytes) (label : String) : Except Report ℤ := do
  if value.getLast? ≠ some 90 then
    .error ["certificate " ++ label ++ " must use UTC (Z) time"]
  else
    let (year, fields) ← parseYear tag value.dropLast label
    if fields.length < 10 then .error ["certificate " ++ label ++ " is missing time fields"]
    else
      let month ← parseDigits (fields.take 2) label
      let day ← parseDigits ((fields.drop 2).take 2) label
      let hour ← parseDigits ((fields.drop 4).take 2) label
      let minute ← parseDigits ((fields.drop 6).take 2) label
      let second ← parseDigits ((fields.drop 8).take 2) label
      if !validFraction (fields.drop 10) then
        .error ["certificate " ++ label ++ " has invalid fractional seconds"]
      else if month < 1 || 12 < month || day = 0 || daysInMonth year month < day || 23 < hour ||
          59 < minute || 59 < second then
        .error ["certificate " ++ label ++ " contains an invalid calendar value"]
      else
        let days ← daysFromCivil year month day
        orBail ("certificate " ++ label ++ " timestamp overflows i64") (do
          let seconds ← checked (days * 86400)
          let seconds ← checked (seconds + hour * 3600)
          let seconds ← checked (seconds + minute * 60)
          checked (seconds + second))

end Times

section Certificates

/-- The optional version of a TBS certificate is skipped. -/
def skipVersion (tbs : Bytes) : Except Report Bytes :=
  if tbs.head? = some 0xa0 then (readDerValue tbs 0xa0 "TBSCertificate version").map Prod.snd
  else .ok tbs

/-- `parse_certificate_validity`. -/
def parseCertificateValidity (der : Bytes) : Except Report (ℤ × ℤ) := do
  let (certificate, rest) ← readDerValue der 0x30 "certificate"
  if rest ≠ [] then .error ["TLS certificate contains trailing data"]
  else
    let (tbs, fields) ← readDerValue certificate 0x30 "TBSCertificate"
    let (_, fields) ← readDerValue fields 0x30 "certificate signature algorithm"
    let (_, fields) ← readDerValue fields 0x03 "certificate signature"
    if fields ≠ [] then .error ["TLS certificate contains trailing fields"]
    else
      let tbs ← skipVersion tbs
      let (_, tbs) ← readDerValue tbs 0x02 "certificate serial number"
      let (_, tbs) ← readDerValue tbs 0x30 "certificate signature algorithm"
      let (_, tbs) ← readDerValue tbs 0x30 "certificate issuer"
      let (validity, _) ← readDerValue tbs 0x30 "certificate validity"
      let (notBeforeTag, notBeforeDer, validity) ← readDerTlv validity "certificate not_before"
      let (notAfterTag, notAfterDer, validity) ← readDerTlv validity "certificate not_after"
      if validity ≠ [] then .error ["certificate validity contains trailing data"]
      else
        let notBefore ← parseCertificateTime notBeforeTag notBeforeDer "not_before"
        let notAfter ← parseCertificateTime notAfterTag notAfterDer "not_after"
        if notAfter < notBefore then .error ["certificate not_before is later than not_after"]
        else .ok (notBefore, notAfter)

/-- The loop of `validate_certificate_validity`: the earliest end so far. -/
def earliestNotAfter (now : ℤ) : List Bytes → ℕ → ℤ → Except Report ℤ
  | [], _, earliest => .ok earliest
  | cert :: rest, index, earliest => do
    let (notBefore, notAfter) ← withContext
      ("parse validity of TLS certificate " ++ toString index) (parseCertificateValidity cert)
    if now < notBefore then
      .error ["TLS certificate " ++ toString index ++ " is not valid yet (not_before=" ++
        toString notBefore ++ ", now=" ++ toString now ++ ")"]
    else if notAfter < now then
      .error ["TLS certificate " ++ toString index ++ " has expired (not_after=" ++
        toString notAfter ++ ", now=" ++ toString now ++ ")"]
    else earliestNotAfter now rest (index + 1) (min earliest notAfter)

/-- `validate_certificate_validity`. -/
def validateCertificateValidity (certs : List Bytes) (now : ℤ) : Except Report ℤ :=
  earliestNotAfter now certs 0 i64Max

/-- The time lies between the two times of every certificate. -/
def ValidAt (certs : List Bytes) (now : ℤ) : Prop :=
  ∀ cert ∈ certs, ∃ notBefore notAfter,
    parseCertificateValidity cert = .ok (notBefore, notAfter) ∧ notBefore ≤ now ∧ now ≤ notAfter

theorem withContext_ok {α : Type} {context : String} {result : Except Report α} {value : α} :
    withContext context result = .ok value ↔ result = .ok value := by
  cases result with
  | ok value' => simp [withContext]
  | error report => simp [withContext]

/-- The loop passes just when every certificate is valid now; the result then
bounds how long all of them stay valid. -/
theorem earliestNotAfter_ok {now earliest result : ℤ} {certs : List Bytes} {index : ℕ}
    (h : earliestNotAfter now certs index earliest = .ok result) :
    result ≤ earliest ∧ (now ≤ earliest → now ≤ result) ∧
      ∀ t, now ≤ t → t ≤ result → ValidAt certs t := by
  induction certs generalizing index earliest with
  | nil =>
    cases h
    exact ⟨Int.le_refl _, id, fun _ _ _ _ hcert => by cases hcert⟩
  | cons cert rest ih =>
    unfold earliestNotAfter at h
    obtain ⟨⟨notBefore, notAfter⟩, hparse, h⟩ := bind_ok.mp h
    dsimp only at h
    split at h
    · cases h
    · next hbefore =>
        split at h
        · cases h
        · next hafter =>
            obtain ⟨hle, hnow, hvalid⟩ := ih h
            refine ⟨by omega, fun he => hnow (by omega), fun t hfrom hto => ?_⟩
            intro cert' hcert'
            rcases List.mem_cons.mp hcert' with rfl | hcert'
            · exact ⟨notBefore, notAfter, withContext_ok.mp hparse, by omega, by omega⟩
            · exact hvalid t hfrom hto cert' hcert'

/-- A validated chain is valid from now until the result. -/
theorem validateCertificateValidity_ok {certs : List Bytes} {now notAfter : ℤ}
    (h : validateCertificateValidity certs now = .ok notAfter) (hnow : now ≤ i64Max) :
    now ≤ notAfter ∧ ∀ t, now ≤ t → t ≤ notAfter → ValidAt certs t := by
  obtain ⟨-, hle, hvalid⟩ := earliestNotAfter_ok h
  exact ⟨hle hnow, hvalid⟩

end Certificates

end OpenTfMirror.CertificateValidity
