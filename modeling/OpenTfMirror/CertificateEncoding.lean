import Mathlib.Data.Nat.Digits.Lemmas
import OpenTfMirror.CertificateFaults

/-!
# Certificate encoding

The DER encoding of a certificate, and the reader against it: every length form
of at most eight octets is read for what it says, and a certificate gives back
the two times that were encoded.
-/

namespace OpenTfMirror.CertificateEncoding

open FileStore Metadata CertificateValidity CertificateTimes

section Octets

/-- The number that octets say, most significant first. -/
def bigEndian (octets : Bytes) : ℕ := octets.foldl (fun n octet => n * 256 + octet.toNat) 0

/-- The octets of a number, without leading zeros. -/
def octetsOf (n : ℕ) : Bytes := ((Nat.digits 256 n).map UInt8.ofNat).reverse

theorem foldr_digits {digits : List ℕ} (h : ∀ digit ∈ digits, digit < 256) :
    (digits.map UInt8.ofNat).foldr (fun octet n => n * 256 + octet.toNat) 0 =
      Nat.ofDigits 256 digits := by
  induction digits with
  | nil => rfl
  | cons digit digits ih =>
    have hdigit : (UInt8.ofNat digit).toNat = digit := by
      rw [UInt8.toNat_ofNat']
      exact Nat.mod_eq_of_lt (h digit (List.mem_cons_self ..))
    rw [List.map_cons, List.foldr_cons, ih fun d hd => h d (List.mem_cons_of_mem _ hd), hdigit,
      Nat.ofDigits_cons]
    exact (Nat.add_comm ..).trans (congrArg (digit + ·) (Nat.mul_comm ..))

theorem bigEndian_octetsOf (n : ℕ) : bigEndian (octetsOf n) = n := by
  rw [bigEndian, octetsOf, List.foldl_reverse,
    foldr_digits fun digit hdigit => Nat.digits_lt_base (by decide) hdigit, Nat.ofDigits_digits]

theorem length_octetsOf (n : ℕ) : (octetsOf n).length = (Nat.digits 256 n).length := by
  rw [octetsOf, List.length_reverse, List.length_map]

theorem length_octetsOf_le {n : ℕ} (h : n < 2 ^ 64) : (octetsOf n).length ≤ 8 := by
  rw [length_octetsOf, Nat.digits_length_le_iff (by decide)]
  exact h

theorem length_octetsOf_pos {n : ℕ} (h : n ≠ 0) : 1 ≤ (octetsOf n).length := by
  rw [length_octetsOf, Nat.one_le_iff_ne_zero, ne_eq, List.length_eq_zero_iff]
  exact Nat.digits_ne_nil_iff_ne_zero.mpr h

end Octets

section Lengths

/-- The length forms that are read: one octet below 128, or one that counts up to eight
octets behind it. -/
inductive LengthForm : Bytes → ℕ → Prop where
  | short (n : Fin 128) : LengthForm [UInt8.ofNat n] n
  | long (octets : Bytes) (hpos : 1 ≤ octets.length) (hle : octets.length ≤ 8) :
    LengthForm (UInt8.ofNat (128 + octets.length) :: octets) (bigEndian octets)

/-- The shortest form of a length. -/
def encodeLength (n : ℕ) : Bytes :=
  if n < 128 then [UInt8.ofNat n]
  else UInt8.ofNat (128 + (octetsOf n).length) :: octetsOf n

/-- A field with its tag and its length. -/
def tlv (tag : UInt8) (value : Bytes) : Bytes := tag :: (encodeLength value.length ++ value)

theorem encodeLength_form {n : ℕ} (h : n < 2 ^ 64) : LengthForm (encodeLength n) n := by
  unfold encodeLength
  split
  · next hshort => exact .short ⟨n, hshort⟩
  · next hlong =>
      have hform := LengthForm.long (octetsOf n) (length_octetsOf_pos (by omega))
        (length_octetsOf_le h)
      rwa [bigEndian_octetsOf] at hform

/-- The loop over the octets adds them up. -/
theorem derLength_eq (label : String) {octets : Bytes} {length : ℕ}
    (h : (length + 1) * 256 ^ octets.length ≤ 2 ^ 64) :
    derLength label octets length =
      .ok (octets.foldl (fun n octet => n * 256 + octet.toNat) length) := by
  induction octets generalizing length with
  | nil => rfl
  | cons octet rest ih =>
    have hoctet := octet.toNat_lt
    obtain ⟨hkept, hnext⟩ := CertificateFaults.octet_fits octet h
    rw [derLength, Nat.mod_eq_of_lt (by omega), if_pos (by omega), ih hnext, List.foldl_cons]

theorem short_bit (n : Fin 128) : UInt8.ofNat n &&& 0x80 = 0 ∧ (UInt8.ofNat n).toNat = n := by
  revert n
  decide +kernel

theorem long_bits (n : Fin 128) :
    ¬UInt8.ofNat (128 + n) &&& 0x80 = 0 ∧ (UInt8.ofNat (128 + n) &&& 0x7f).toNat = n := by
  revert n
  decide +kernel

/-- An octet is short or long. -/
theorem octet_cases (octet : UInt8) :
    (∃ n : Fin 128, octet = UInt8.ofNat n) ∨ ∃ n : Fin 128, octet = UInt8.ofNat (128 + n) := by
  have hlt := octet.toNat_lt
  have hoctet : UInt8.ofNat octet.toNat = octet := UInt8.ofNat_toNat
  by_cases hshort : octet.toNat < 128
  · exact .inl ⟨⟨octet.toNat, hshort⟩, hoctet.symm⟩
  · refine .inr ⟨⟨octet.toNat - 128, by omega⟩, ?_⟩
    have hsum : 128 + (octet.toNat - 128) = octet.toNat := by omega
    rw [hsum, hoctet]

/-- A length form is read for what it says. -/
theorem readDerLength_of_form {first : UInt8} {octets : Bytes} {n : ℕ}
    (h : LengthForm (first :: octets) n) (label : String) (rest : Bytes) :
    readDerLength label first (octets ++ rest) = .ok (n, rest) := by
  unfold readDerLength
  cases h with
  | short n =>
    obtain ⟨hbit, hvalue⟩ := short_bit n
    rw [if_pos hbit, hvalue]
    rfl
  | long octets hpos hle =>
    obtain ⟨hbit, hvalue⟩ := long_bits ⟨octets.length, by omega⟩
    have hword : (0 + 1) * 256 ^ octets.length ≤ 2 ^ 64 := by
      rw [zero_add, one_mul]
      exact (Nat.pow_le_pow_right (by decide) hle).trans (by decide)
    have hfits : ¬(8 < octets.length || (octets ++ rest).length < octets.length) = true := by
      rw [List.length_append, Bool.or_eq_true, decide_eq_true_eq, decide_eq_true_eq]
      omega
    dsimp only at hbit hvalue ⊢
    rw [if_neg hbit, hvalue, if_neg (by omega), if_neg hfits, List.take_left, List.drop_left,
      derLength_eq label hword]
    rfl

/-- Nothing else is read as a length. -/
theorem form_of_readDerLength {label : String} {first : UInt8} {input rest : Bytes} {n : ℕ}
    (h : readDerLength label first input = .ok (n, rest)) :
    ∃ octets, input = octets ++ rest ∧ LengthForm (first :: octets) n := by
  rcases octet_cases first with ⟨count, rfl⟩ | ⟨count, rfl⟩
  · obtain ⟨hbit, hvalue⟩ := short_bit count
    rw [readDerLength, if_pos hbit, hvalue] at h
    obtain ⟨rfl, rfl⟩ := Prod.mk.inj (Except.ok.inj h)
    exact ⟨[], rfl, .short count⟩
  · obtain ⟨hbit, hvalue⟩ := long_bits count
    unfold readDerLength at h
    dsimp only at h
    rw [if_neg hbit, hvalue] at h
    split at h
    · cases h
    · next hpos =>
        split at h
        · cases h
        · next hfits =>
            simp only [Bool.or_eq_true, decide_eq_true_eq, not_or, not_lt] at hfits
            have htake : (input.take count).length = count := List.length_take_of_le hfits.2
            have hword : (0 + 1) * 256 ^ (input.take count).length ≤ 2 ^ 64 := by
              rw [zero_add, one_mul, htake]
              exact (Nat.pow_le_pow_right (by decide) hfits.1).trans (by decide)
            rw [derLength_eq label hword] at h
            obtain ⟨rfl, rfl⟩ := Prod.mk.inj (Except.ok.inj h)
            have hform := LengthForm.long (input.take count) (by omega) (by omega)
            rw [htake] at hform
            exact ⟨input.take count, (List.take_append_drop count input).symm, hform⟩

end Lengths

section Values

theorem form_cons {header : Bytes} {n : ℕ} (h : LengthForm header n) :
    ∃ first octets, header = first :: octets := by
  cases h with
  | short n => exact ⟨_, _, rfl⟩
  | long octets _ _ => exact ⟨_, _, rfl⟩

/-- Behind a tag and a length the value is cut out, if it is all there. -/
theorem readDerTlv_of_form {header : Bytes} {n : ℕ} (h : LengthForm header n) (tag : UInt8)
    (rest : Bytes) (label : String) :
    readDerTlv (tag :: (header ++ rest)) label =
      if n ≤ rest.length then .ok (tag, rest.take n, rest.drop n)
      else .error [label ++ " is truncated"] := by
  obtain ⟨first, octets, rfl⟩ := form_cons h
  rw [List.cons_append, readDerTlv, readDerLength_of_form h label rest]
  simp only [bind, Except.bind]
  by_cases hwhole : n ≤ rest.length
  · rw [if_pos hwhole, if_neg (not_lt.mpr hwhole)]
  · rw [if_neg hwhole, if_pos (not_le.mp hwhole)]

/-- What is read has a tag, a length form and the value behind it. -/
theorem form_of_readDerTlv {input value rest : Bytes} {tag : UInt8} {label : String}
    (h : readDerTlv input label = .ok (tag, value, rest)) :
    ∃ header, LengthForm header value.length ∧ input = tag :: (header ++ (value ++ rest)) := by
  match input with
  | [] => cases h
  | [_] => cases h
  | tag' :: first :: input =>
    rw [readDerTlv] at h
    cases hread : readDerLength label first input with
    | error report =>
      rw [hread] at h
      cases h
    | ok read =>
      obtain ⟨n, behind⟩ := read
      obtain ⟨octets, rfl, hform⟩ := form_of_readDerLength hread
      rw [hread] at h
      simp only [bind, Except.bind] at h
      split at h
      · cases h
      · next hwhole =>
          obtain ⟨rfl, hrest⟩ := Prod.mk.inj (Except.ok.inj h)
          obtain ⟨rfl, rfl⟩ := Prod.mk.inj hrest
          refine ⟨first :: octets, ?_, ?_⟩
          · rw [List.length_take_of_le (not_lt.mp hwhole)]
            exact hform
          · rw [List.take_append_drop, List.cons_append]

/-- An encoded field is read back. -/
theorem readDerTlv_tlv {tag : UInt8} {value : Bytes} (h : value.length < 2 ^ 64) (rest : Bytes)
    (label : String) : readDerTlv (tlv tag value ++ rest) label = .ok (tag, value, rest) := by
  have hread := readDerTlv_of_form (encodeLength_form h) tag (value ++ rest) label
  rw [if_pos (by rw [List.length_append]; omega), List.take_left, List.drop_left] at hread
  rw [tlv, List.cons_append, List.append_assoc]
  exact hread

theorem readDerValue_tlv {tag : UInt8} {value : Bytes} (h : value.length < 2 ^ 64) (rest : Bytes)
    (label : String) : readDerValue (tlv tag value ++ rest) tag label = .ok (value, rest) := by
  rw [readDerValue, readDerTlv_tlv h]
  simp [bind, Except.bind]

end Values

section Certificates

/-- A certificate, by the fields that the reader steps over and its two times. -/
structure Certificate where
  /-- The value of the `[0]` field, if there is one. -/
  version : Option Bytes
  serial : Bytes
  algorithm : Bytes
  issuer : Bytes
  notBefore : TimeValue
  notAfter : TimeValue
  /-- What follows the validity: the subject, the key and the extensions. -/
  remaining : Bytes
  signatureAlgorithm : Bytes
  signature : Bytes

def Certificate.encodeVersion (c : Certificate) : Bytes :=
  match c.version with
  | some version => tlv 0xa0 version
  | none => []

def Certificate.encodeValidity (c : Certificate) : Bytes :=
  tlv c.notBefore.tag c.notBefore.encode ++ tlv c.notAfter.tag c.notAfter.encode

def Certificate.encodeTbs (c : Certificate) : Bytes :=
  c.encodeVersion ++ (tlv 0x02 c.serial ++ (tlv 0x30 c.algorithm ++ (tlv 0x30 c.issuer ++
    (tlv 0x30 c.encodeValidity ++ c.remaining))))

def Certificate.encode (c : Certificate) : Bytes :=
  tlv 0x30 (tlv 0x30 c.encodeTbs ++ (tlv 0x30 c.signatureAlgorithm ++ tlv 0x03 c.signature))

theorem length_tlv (tag : UInt8) (value : Bytes) : value.length ≤ (tlv tag value).length := by
  simp only [tlv, List.length_cons, List.length_append]
  omega

/-- The last field leaves nothing behind. -/
theorem readDerTlv_last {tag : UInt8} {value : Bytes} (h : value.length < 2 ^ 64) (label : String) :
    readDerTlv (tlv tag value) label = .ok (tag, value, []) := by
  have hread : readDerTlv (tlv tag value ++ []) label = .ok (tag, value, []) :=
    readDerTlv_tlv h [] label
  rwa [List.append_nil] at hread

theorem readDerValue_last {tag : UInt8} {value : Bytes} (h : value.length < 2 ^ 64)
    (label : String) : readDerValue (tlv tag value) tag label = .ok (value, []) := by
  have hread : readDerValue (tlv tag value ++ []) tag label = .ok (value, []) :=
    readDerValue_tlv h [] label
  rwa [List.append_nil] at hread

/-- With or without the version the reader comes to the serial number. -/
theorem skipVersion_encode (c : Certificate) (rest : Bytes)
    (h : (c.encodeVersion ++ (tlv 0x02 c.serial ++ rest)).length < 2 ^ 64) :
    skipVersion (c.encodeVersion ++ (tlv 0x02 c.serial ++ rest)) = .ok (tlv 0x02 c.serial ++ rest) := by
  unfold Certificate.encodeVersion at h ⊢
  cases hversion : c.version with
  | none =>
    rw [skipVersion, if_neg (by simp [tlv])]
    rfl
  | some version =>
    rw [hversion] at h
    dsimp only at h ⊢
    have hlength : version.length < 2 ^ 64 := by
      have hle := length_tlv 0xa0 version
      rw [List.length_append] at h
      omega
    have hhead : (tlv 0xa0 version ++ (tlv 0x02 c.serial ++ rest)).head? = some 0xa0 := rfl
    rw [skipVersion, if_pos hhead, readDerValue_tlv hlength]
    rfl

/-- The two times come back in seconds. -/
theorem parse_encode {c : Certificate} {m m' : Gregorian.Moment} (hbefore : c.notBefore.Names m)
    (hafter : c.notAfter.Names m') (horder : m.unix ≤ m'.unix) (hlength : c.encode.length < 2 ^ 64) :
    parseCertificateValidity c.encode = .ok (m.unix, m'.unix) := by
  have hcertificate := length_tlv 0x30
    (tlv 0x30 c.encodeTbs ++ (tlv 0x30 c.signatureAlgorithm ++ tlv 0x03 c.signature))
  have htbs := length_tlv 0x30 c.encodeTbs
  have hsignatureAlgorithm := length_tlv 0x30 c.signatureAlgorithm
  have hsignature := length_tlv 0x03 c.signature
  have hserial := length_tlv 0x02 c.serial
  have halgorithm := length_tlv 0x30 c.algorithm
  have hissuer := length_tlv 0x30 c.issuer
  have hvalidity := length_tlv 0x30 c.encodeValidity
  have hnotBefore := length_tlv c.notBefore.tag c.notBefore.encode
  have hnotAfter := length_tlv c.notAfter.tag c.notAfter.encode
  have htbs_eq : c.encodeTbs.length = (c.encodeVersion ++ (tlv 0x02 c.serial ++
      (tlv 0x30 c.algorithm ++ (tlv 0x30 c.issuer ++
        (tlv 0x30 c.encodeValidity ++ c.remaining))))).length := rfl
  have hvalidity_eq : c.encodeValidity.length =
      (tlv c.notBefore.tag c.notBefore.encode ++ tlv c.notAfter.tag c.notAfter.encode).length := rfl
  rw [Certificate.encode] at hlength
  simp only [List.length_append] at hcertificate htbs_eq hvalidity_eq
  unfold parseCertificateValidity
  rw [Certificate.encode, readDerValue_last (by rw [List.length_append, List.length_append]; omega)]
  dsimp only [bind, Except.bind]
  rw [if_neg (not_not.mpr rfl), readDerValue_tlv (by omega)]
  dsimp only
  rw [readDerValue_tlv (by omega)]
  dsimp only
  rw [readDerValue_last (by omega)]
  dsimp only
  rw [if_neg (not_not.mpr rfl), Certificate.encodeTbs,
    skipVersion_encode c _ (by simp only [List.length_append]; omega)]
  dsimp only
  rw [readDerValue_tlv (by omega)]
  dsimp only
  rw [readDerValue_tlv (by omega)]
  dsimp only
  rw [readDerValue_tlv (by omega)]
  dsimp only
  rw [readDerValue_tlv (by omega)]
  dsimp only
  rw [Certificate.encodeValidity, readDerTlv_tlv (by omega)]
  dsimp only
  rw [readDerTlv_last (by omega)]
  dsimp only
  rw [if_neg (not_not.mpr rfl), (parse_iff c.notBefore "not_before" m.unix).mpr ⟨m, hbefore, rfl⟩]
  dsimp only
  rw [(parse_iff c.notAfter "not_after" m'.unix).mpr ⟨m', hafter, rfl⟩]
  dsimp only
  rw [if_neg (not_lt.mpr horder)]

/-- The reader undoes the encoding, goes wrong on no byte string, reads a field with any
length form if its value is all there, and rejects everything else. -/
theorem decodes_encoding :
    (∀ (c : Certificate) (m m' : Gregorian.Moment), c.notBefore.Names m → c.notAfter.Names m' →
      m.unix ≤ m'.unix → c.encode.length < 2 ^ 64 →
        CertificateFaults.parseCertificateValidity c.encode = pure (m.unix, m'.unix)) ∧
    (∀ der : Bytes, CertificateFaults.parseCertificateValidity der =
      CertificateFaults.lift (parseCertificateValidity der)) ∧
    (∀ (header : Bytes) (n : ℕ), LengthForm header n → ∀ (tag : UInt8) (rest : Bytes) (label : String),
      CertificateFaults.readDerTlv (tag :: (header ++ rest)) label =
        if n ≤ rest.length then pure (tag, rest.take n, rest.drop n)
        else CertificateFaults.bail (label ++ " is truncated")) ∧
    (∀ (input : Bytes) (label : String),
      (∀ tag header n rest, LengthForm header n → input ≠ tag :: (header ++ rest)) →
        ∃ report, CertificateFaults.readDerTlv input label = CertificateFaults.lift (.error report)) := by
  refine ⟨fun c m m' hbefore hafter horder hlength => ?_,
    CertificateFaults.parseCertificateValidity_faultless, fun header n h tag rest label => ?_,
    fun input label h => ?_⟩
  · rw [CertificateFaults.parseCertificateValidity_faultless,
      parse_encode hbefore hafter horder hlength, CertificateFaults.lift_ok]
  · rw [CertificateFaults.readDerTlv_faultless, readDerTlv_of_form h, CertificateFaults.lift_ite]
    rfl
  · rw [CertificateFaults.readDerTlv_faultless]
    cases hread : readDerTlv input label with
    | error report => exact ⟨report, rfl⟩
    | ok read =>
      obtain ⟨header, hform, hinput⟩ := form_of_readDerTlv hread
      exact absurd hinput (h _ header _ _ hform)

end Certificates

end OpenTfMirror.CertificateEncoding
