import OpenTfMirror.AddressBlocks

/-!
# The address test of the outbound policy

`is_public_ip` of the outbound client: octet and segment tests, with the four
forms of an IPv4 address inside an IPv6 one. The special-purpose blocks that it
must refuse are listed on their own, and the two are compared for every address.
-/

namespace OpenTfMirror.PublicAddresses

open AddressBlocks

abbrev Ipv4Addr := BitVec 32
abbrev Ipv6Addr := BitVec 128

inductive IpAddr where
  | v4 (ip : Ipv4Addr)
  | v6 (ip : Ipv6Addr)
  deriving DecidableEq, Repr

/-- The octet of an IPv4 address, counted from the left. -/
def Ipv4Addr.octet (ip : Ipv4Addr) (i : ℕ) : ℕ := ip.toNat / 2 ^ (8 * (3 - i)) % 2 ^ 8

/-- `Ipv4Addr::new`. -/
def Ipv4Addr.new (a b c d : ℕ) : Ipv4Addr :=
  BitVec.ofNat 32 (((a * 2 ^ 8 + b) * 2 ^ 8 + c) * 2 ^ 8 + d)

/-- 10/8, 172.16/12 and 192.168/16, as the standard library tests them. -/
def Ipv4Addr.isPrivate (ip : Ipv4Addr) : Bool :=
  ip.octet 0 = 10 || (ip.octet 0 = 172 && 16 ≤ ip.octet 1 && ip.octet 1 ≤ 31) ||
    (ip.octet 0 = 192 && ip.octet 1 = 168)

def Ipv4Addr.isLoopback (ip : Ipv4Addr) : Bool := ip.octet 0 = 127

def Ipv4Addr.isLinkLocal (ip : Ipv4Addr) : Bool := ip.octet 0 = 169 && ip.octet 1 = 254

def Ipv4Addr.isUnspecified (ip : Ipv4Addr) : Bool := ip.toNat = 0

def Ipv4Addr.isMulticast (ip : Ipv4Addr) : Bool := 224 ≤ ip.octet 0 && ip.octet 0 ≤ 239

/-- The 16-bit segment of an IPv6 address, counted from the left. -/
def Ipv6Addr.segment (ip : Ipv6Addr) (i : ℕ) : ℕ := ip.toNat / 2 ^ (16 * (7 - i)) % 2 ^ 16

/-- The IPv4 address made of two segments, in network byte order. -/
def embeddedV4 (high low : ℕ) : Ipv4Addr :=
  Ipv4Addr.new (high / 2 ^ 8) (high % 2 ^ 8) (low / 2 ^ 8) (low % 2 ^ 8)

/-- `Ipv6Addr::to_ipv4`: the IPv4-compatible and the IPv4-mapped form. -/
def Ipv6Addr.toIpv4 (ip : Ipv6Addr) : Option Ipv4Addr :=
  if ip.segment 0 = 0 ∧ ip.segment 1 = 0 ∧ ip.segment 2 = 0 ∧ ip.segment 3 = 0 ∧
      ip.segment 4 = 0 ∧ (ip.segment 5 = 0 ∨ ip.segment 5 = 0xffff) then
    some (embeddedV4 (ip.segment 6) (ip.segment 7))
  else none

def Ipv6Addr.isLoopback (ip : Ipv6Addr) : Bool := ip.toNat = 1

def Ipv6Addr.isUnspecified (ip : Ipv6Addr) : Bool := ip.toNat = 0

def Ipv6Addr.isMulticast (ip : Ipv6Addr) : Bool := ip.segment 0 &&& 0xff00 = 0xff00

def Ipv6Addr.isUniqueLocal (ip : Ipv6Addr) : Bool := ip.segment 0 &&& 0xfe00 = 0xfc00

def Ipv6Addr.isUnicastLinkLocal (ip : Ipv6Addr) : Bool := ip.segment 0 &&& 0xffc0 = 0xfe80

/-- The `V4` arm of `is_public_ip`. -/
def isPublicIpv4 (ip : Ipv4Addr) : Bool :=
  let first := ip.octet 0
  let second := ip.octet 1
  let third := ip.octet 2
  !ip.isPrivate && !ip.isLoopback && !ip.isLinkLocal && !ip.isUnspecified && !ip.isMulticast &&
    first ≠ 0 && first < 224 &&
    !(first = 100 && (64 ≤ second && second ≤ 127)) &&
    !(first = 192 && second = 0) &&
    !(first = 192 && second = 88 && third = 99) &&
    !(first = 192 && second = 0 && third = 2) &&
    !(first = 198 && (second = 18 || second = 19)) &&
    !(first = 198 && second = 51 && third = 100) &&
    !(first = 203 && second = 0 && third = 113)

/-- `is_public_ip`. -/
def isPublicIp : IpAddr → Bool
  | .v4 ip => isPublicIpv4 ip
  | .v6 ip =>
    match ip.toIpv4 with
    | some ipv4 => isPublicIpv4 ipv4
    | none =>
      if ip.segment 0 = 0x64 ∧ ip.segment 1 = 0xff9b ∧ ip.segment 2 = 0 ∧ ip.segment 3 = 0 ∧
          ip.segment 4 = 0 ∧ ip.segment 5 = 0 then
        isPublicIpv4 (embeddedV4 (ip.segment 6) (ip.segment 7))
      else if ip.segment 0 = 0x2002 then
        isPublicIpv4 (embeddedV4 (ip.segment 1) (ip.segment 2))
      else
        !ip.isLoopback && !ip.isUnspecified && !ip.isMulticast && !ip.isUniqueLocal &&
          !ip.isUnicastLinkLocal && ip.segment 0 &&& 0xffc0 ≠ 0xfec0 &&
          !(ip.segment 0 = 0x2001 && ip.segment 1 = 0x0db8)

/-- The IPv4 blocks that are not globally reachable. -/
def specialPurposeV4 : List (Block 32) :=
  [⟨Ipv4Addr.new 0 0 0 0, 8⟩, ⟨Ipv4Addr.new 10 0 0 0, 8⟩, ⟨Ipv4Addr.new 100 64 0 0, 10⟩,
    ⟨Ipv4Addr.new 127 0 0 0, 8⟩, ⟨Ipv4Addr.new 169 254 0 0, 16⟩, ⟨Ipv4Addr.new 172 16 0 0, 12⟩,
    ⟨Ipv4Addr.new 192 0 0 0, 24⟩, ⟨Ipv4Addr.new 192 0 2 0, 24⟩, ⟨Ipv4Addr.new 192 88 99 0, 24⟩,
    ⟨Ipv4Addr.new 192 168 0 0, 16⟩, ⟨Ipv4Addr.new 198 18 0 0, 15⟩,
    ⟨Ipv4Addr.new 198 51 100 0, 24⟩, ⟨Ipv4Addr.new 203 0 113 0, 24⟩,
    ⟨Ipv4Addr.new 224 0 0 0, 4⟩, ⟨Ipv4Addr.new 240 0 0 0, 4⟩]

/-- ::/96, the IPv4-compatible addresses. -/
def compatibleBlock : Block 128 := ⟨BitVec.ofNat 128 0, 96⟩
/-- ::ffff:0:0/96, the IPv4-mapped addresses. -/
def mappedBlock : Block 128 := ⟨BitVec.ofNat 128 (0xffff * 2 ^ 32), 96⟩
/-- 64:ff9b::/96, NAT64. -/
def nat64Block : Block 128 := ⟨BitVec.ofNat 128 (0x64ff9b * 2 ^ 96), 96⟩
/-- 2002::/16, 6to4. -/
def sixToFourBlock : Block 128 := ⟨BitVec.ofNat 128 (0x2002 * 2 ^ 112), 16⟩

/-- The IPv4 address that an IPv6 address of an embedding block stands for:
the last 32 bits, or those after the prefix of a 6to4 address. -/
def embeddedIn (ip : Ipv6Addr) : Option Ipv4Addr :=
  if compatibleBlock.Contains ip ∨ mappedBlock.Contains ip ∨ nat64Block.Contains ip then
    some (BitVec.ofNat 32 ip.toNat)
  else if sixToFourBlock.Contains ip then some (BitVec.ofNat 32 (ip.toNat / 2 ^ 80))
  else none

/-- ff00::/8, fc00::/7, fe80::/10, fec0::/10 and 2001:db8::/32. -/
def specialPurposeV6 : List (Block 128) :=
  [⟨BitVec.ofNat 128 (0xff00 * 2 ^ 112), 8⟩, ⟨BitVec.ofNat 128 (0xfc00 * 2 ^ 112), 7⟩,
    ⟨BitVec.ofNat 128 (0xfe80 * 2 ^ 112), 10⟩, ⟨BitVec.ofNat 128 (0xfec0 * 2 ^ 112), 10⟩,
    ⟨BitVec.ofNat 128 (0x20010db8 * 2 ^ 96), 32⟩]

/-- Outside every special-purpose block, itself or through the IPv4 address it
embeds. -/
def IpAddr.Routable : IpAddr → Prop
  | .v4 ip => ∀ block ∈ specialPurposeV4, ¬block.Contains ip
  | .v6 ip =>
    match embeddedIn ip with
    | some ipv4 => ∀ block ∈ specialPurposeV4, ¬block.Contains ipv4
    | none => ∀ block ∈ specialPurposeV6, ¬block.Contains ip

/-- A prefix inside the first octet compares that octet. -/
theorem contains_first {a b c d k : ℕ} (ha : a < 2 ^ 8) (hb : b < 2 ^ 8) (hc : c < 2 ^ 8)
    (hd : d < 2 ^ 8) (hk : k ≤ 8) (ip : Ipv4Addr) :
    (⟨Ipv4Addr.new a b c d, k⟩ : Block 32).Contains ip ↔
      ip.octet 0 / 2 ^ (8 - k) = a / 2 ^ (8 - k) := by
  have hlt := ip.isLt
  have hsplit : 2 ^ (32 - k) = 2 ^ 24 * 2 ^ (8 - k) := by
    rw [← Nat.pow_add]
    congr 1
    omega
  have hip : ip.toNat / 2 ^ 24 = ip.octet 0 := by
    simp only [Ipv4Addr.octet]
    omega
  have hbase : (Ipv4Addr.new a b c d).toNat / 2 ^ 24 = a := by
    simp only [Ipv4Addr.new, BitVec.toNat_ofNat]
    omega
  simp only [Block.Contains, hsplit, ← Nat.div_div_eq_div_mul, hip, hbase]

/-- Equal quotients of two-digit numbers have equal digits above the cut. -/
theorem two_digit_div {x y a b k : ℕ} (hy : y < 2 ^ 8) (hb : b < 2 ^ 8) (hk : k ≤ 8) :
    (x * 2 ^ 8 + y) / 2 ^ (8 - k) = (a * 2 ^ 8 + b) / 2 ^ (8 - k) ↔
      x = a ∧ y / 2 ^ (8 - k) = b / 2 ^ (8 - k) := by
  have hpow : 2 ^ 8 = 2 ^ (8 - k) * 2 ^ k := by
    rw [← Nat.pow_add]
    congr 1
    omega
  have hquot : ∀ u v : ℕ, (u * 2 ^ 8 + v) / 2 ^ (8 - k) = 2 ^ k * u + v / 2 ^ (8 - k) := by
    intro u v
    rw [hpow, Nat.mul_comm u, Nat.mul_assoc, Nat.mul_add_div (Nat.two_pow_pos _)]
  have hrest : ∀ v : ℕ, v < 2 ^ 8 → v / 2 ^ (8 - k) < 2 ^ k := by
    intro v hv
    exact Nat.div_lt_of_lt_mul (hpow ▸ hv)
  rw [hquot, hquot]
  constructor
  · intro h
    have hdiv := congrArg (· / 2 ^ k) h
    have hmod := congrArg (· % 2 ^ k) h
    simp only [Nat.mul_add_div (Nat.two_pow_pos k), Nat.div_eq_of_lt (hrest _ hy),
      Nat.div_eq_of_lt (hrest _ hb), Nat.add_zero] at hdiv
    simp only [Nat.mul_add_mod, Nat.mod_eq_of_lt (hrest _ hy),
      Nat.mod_eq_of_lt (hrest _ hb)] at hmod
    exact ⟨hdiv, hmod⟩
  · rintro ⟨rfl, h⟩
    rw [h]

/-- A prefix that ends in the second octet compares two octets. -/
theorem contains_second {a b c d k : ℕ} (ha : a < 2 ^ 8) (hb : b < 2 ^ 8) (hc : c < 2 ^ 8)
    (hd : d < 2 ^ 8) (hk : k ≤ 8) (ip : Ipv4Addr) :
    (⟨Ipv4Addr.new a b c d, 8 + k⟩ : Block 32).Contains ip ↔
      ip.octet 0 = a ∧ ip.octet 1 / 2 ^ (8 - k) = b / 2 ^ (8 - k) := by
  have hlt := ip.isLt
  have hsplit : 2 ^ (32 - (8 + k)) = 2 ^ 16 * 2 ^ (8 - k) := by
    rw [← Nat.pow_add]
    congr 1
    omega
  have hip : ip.toNat / 2 ^ 16 = ip.octet 0 * 2 ^ 8 + ip.octet 1 := by
    simp only [Ipv4Addr.octet]
    omega
  have hbase : (Ipv4Addr.new a b c d).toNat / 2 ^ 16 = a * 2 ^ 8 + b := by
    simp only [Ipv4Addr.new, BitVec.toNat_ofNat]
    omega
  simp only [Block.Contains, hsplit, ← Nat.div_div_eq_div_mul, hip, hbase]
  exact two_digit_div (Nat.mod_lt _ (by decide)) hb hk

/-- A /24 compares three octets. -/
theorem contains_third {a b c d : ℕ} (ha : a < 2 ^ 8) (hb : b < 2 ^ 8) (hc : c < 2 ^ 8)
    (hd : d < 2 ^ 8) (ip : Ipv4Addr) :
    (⟨Ipv4Addr.new a b c d, 24⟩ : Block 32).Contains ip ↔
      ip.octet 0 = a ∧ ip.octet 1 = b ∧ ip.octet 2 = c := by
  have hlt := ip.isLt
  simp only [Block.Contains, Ipv4Addr.new, Ipv4Addr.octet, BitVec.toNat_ofNat]
  omega

/-- The special-purpose blocks in terms of the octets. -/
theorem outside_iff_octets (ip : Ipv4Addr) :
    (∀ block ∈ specialPurposeV4, ¬block.Contains ip) ↔
      (ip.octet 0 ≠ 0 ∧ ip.octet 0 ≠ 10 ∧ ip.octet 0 ≠ 127 ∧ ip.octet 0 < 224) ∧
      ¬(ip.octet 0 = 100 ∧ 64 ≤ ip.octet 1 ∧ ip.octet 1 ≤ 127) ∧
      ¬(ip.octet 0 = 169 ∧ ip.octet 1 = 254) ∧
      ¬(ip.octet 0 = 172 ∧ 16 ≤ ip.octet 1 ∧ ip.octet 1 ≤ 31) ∧
      ¬(ip.octet 0 = 192 ∧ ip.octet 1 = 0 ∧ ip.octet 2 = 0) ∧
      ¬(ip.octet 0 = 192 ∧ ip.octet 1 = 0 ∧ ip.octet 2 = 2) ∧
      ¬(ip.octet 0 = 192 ∧ ip.octet 1 = 88 ∧ ip.octet 2 = 99) ∧
      ¬(ip.octet 0 = 192 ∧ ip.octet 1 = 168) ∧
      ¬(ip.octet 0 = 198 ∧ (ip.octet 1 = 18 ∨ ip.octet 1 = 19)) ∧
      ¬(ip.octet 0 = 198 ∧ ip.octet 1 = 51 ∧ ip.octet 2 = 100) ∧
      ¬(ip.octet 0 = 203 ∧ ip.octet 1 = 0 ∧ ip.octet 2 = 113) := by
  have hfirst : ip.octet 0 < 2 ^ 8 := Nat.mod_lt _ (by decide)
  have h0 := contains_first (a := 0) (b := 0) (c := 0) (d := 0) (k := 8)
    (by decide) (by decide) (by decide) (by decide) (by decide) ip
  have h10 := contains_first (a := 10) (b := 0) (c := 0) (d := 0) (k := 8)
    (by decide) (by decide) (by decide) (by decide) (by decide) ip
  have h127 := contains_first (a := 127) (b := 0) (c := 0) (d := 0) (k := 8)
    (by decide) (by decide) (by decide) (by decide) (by decide) ip
  have h224 := contains_first (a := 224) (b := 0) (c := 0) (d := 0) (k := 4)
    (by decide) (by decide) (by decide) (by decide) (by decide) ip
  have h240 := contains_first (a := 240) (b := 0) (c := 0) (d := 0) (k := 4)
    (by decide) (by decide) (by decide) (by decide) (by decide) ip
  have h100 := contains_second (a := 100) (b := 64) (c := 0) (d := 0) (k := 2)
    (by decide) (by decide) (by decide) (by decide) (by decide) ip
  have h169 := contains_second (a := 169) (b := 254) (c := 0) (d := 0) (k := 8)
    (by decide) (by decide) (by decide) (by decide) (by decide) ip
  have h172 := contains_second (a := 172) (b := 16) (c := 0) (d := 0) (k := 4)
    (by decide) (by decide) (by decide) (by decide) (by decide) ip
  have h192 := contains_second (a := 192) (b := 168) (c := 0) (d := 0) (k := 8)
    (by decide) (by decide) (by decide) (by decide) (by decide) ip
  have h198 := contains_second (a := 198) (b := 18) (c := 0) (d := 0) (k := 7)
    (by decide) (by decide) (by decide) (by decide) (by decide) ip
  have h24 := fun {a b c : ℕ} (ha : a < 2 ^ 8) (hb : b < 2 ^ 8) (hc : c < 2 ^ 8) =>
    contains_third (d := 0) ha hb hc (by decide) ip
  simp only [specialPurposeV4, List.forall_mem_cons, List.not_mem_nil, false_implies,
    implies_true, and_true, h0, h10, h127, h224, h240, h100, h169, h172, h192, h198,
    h24 (a := 192) (b := 0) (c := 0) (by decide) (by decide) (by decide),
    h24 (a := 192) (b := 0) (c := 2) (by decide) (by decide) (by decide),
    h24 (a := 192) (b := 88) (c := 99) (by decide) (by decide) (by decide),
    h24 (a := 198) (b := 51) (c := 100) (by decide) (by decide) (by decide),
    h24 (a := 203) (b := 0) (c := 113) (by decide) (by decide) (by decide)]
  clear h0 h10 h127 h224 h240 h100 h169 h172 h192 h198 h24
  have hq100 : ip.octet 1 / 2 ^ (8 - 2) = 64 / 2 ^ (8 - 2) ↔ 64 ≤ ip.octet 1 ∧ ip.octet 1 ≤ 127 := by
    omega
  have hq172 : ip.octet 1 / 2 ^ (8 - 4) = 16 / 2 ^ (8 - 4) ↔ 16 ≤ ip.octet 1 ∧ ip.octet 1 ≤ 31 := by
    omega
  have hq198 : ip.octet 1 / 2 ^ (8 - 7) = 18 / 2 ^ (8 - 7) ↔ ip.octet 1 = 18 ∨ ip.octet 1 = 19 := by
    omega
  have hq8 : ∀ x : ℕ, x / 2 ^ (8 - 8) = x := fun x => Nat.div_one x
  have hhigh : (¬ip.octet 0 / 2 ^ (8 - 4) = 224 / 2 ^ (8 - 4) ∧
      ¬ip.octet 0 / 2 ^ (8 - 4) = 240 / 2 ^ (8 - 4)) ↔ ip.octet 0 < 224 := by
    omega
  simp only [hq100, hq172, hq198, hq8, ne_eq, and_assoc]
  constructor
  · rintro ⟨h0, h10, h100, h127, h169, h172, hzero, htwo, h88, h192, h198, h51, h203, h224⟩
    exact ⟨h0, h10, h127, hhigh.mp h224, h100, h169, h172, hzero, htwo, h88, h192, h198, h51, h203⟩
  · rintro ⟨h0, h10, h127, h224, h100, h169, h172, hzero, htwo, h88, h192, h198, h51, h203⟩
    exact ⟨h0, h10, h100, h127, h169, h172, hzero, htwo, h88, h192, h198, h51, h203, hhigh.mpr h224⟩

/-- The octet tests of the code. -/
theorem isPublicIpv4_iff_octets (ip : Ipv4Addr) :
    isPublicIpv4 ip = true ↔
      (ip.octet 0 ≠ 0 ∧ ip.octet 0 ≠ 10 ∧ ip.octet 0 ≠ 127 ∧ ip.octet 0 < 224) ∧
      ¬(ip.octet 0 = 100 ∧ 64 ≤ ip.octet 1 ∧ ip.octet 1 ≤ 127) ∧
      ¬(ip.octet 0 = 169 ∧ ip.octet 1 = 254) ∧
      ¬(ip.octet 0 = 172 ∧ 16 ≤ ip.octet 1 ∧ ip.octet 1 ≤ 31) ∧
      ¬(ip.octet 0 = 192 ∧ ip.octet 1 = 0) ∧
      ¬(ip.octet 0 = 192 ∧ ip.octet 1 = 88 ∧ ip.octet 2 = 99) ∧
      ¬(ip.octet 0 = 192 ∧ ip.octet 1 = 168) ∧
      ¬(ip.octet 0 = 198 ∧ (ip.octet 1 = 18 ∨ ip.octet 1 = 19)) ∧
      ¬(ip.octet 0 = 198 ∧ ip.octet 1 = 51 ∧ ip.octet 2 = 100) ∧
      ¬(ip.octet 0 = 203 ∧ ip.octet 1 = 0 ∧ ip.octet 2 = 113) := by
  have hzero : ip.toNat = 0 → ip.octet 0 = 0 := by
    intro h
    rw [Ipv4Addr.octet, h]
    decide
  have hmulticast : ip.octet 0 < 224 → ¬(224 ≤ ip.octet 0 ∧ ip.octet 0 ≤ 239) := by
    omega
  simp only [isPublicIpv4, Ipv4Addr.isPrivate, Ipv4Addr.isLoopback, Ipv4Addr.isLinkLocal,
    Ipv4Addr.isUnspecified, Ipv4Addr.isMulticast, Bool.and_eq_true, Bool.not_eq_true',
    ← Bool.not_eq_true, Bool.or_eq_true, decide_eq_true_eq, ne_eq, not_or, and_assoc]
  constructor
  · rintro ⟨h10, h172, hprivate, h127, h169, -, -, h0, h224, h100, hzero192, h88, -, h198, h51, h203⟩
    exact ⟨h0, h10, h127, h224, h100, h169, h172, hzero192, h88, hprivate, h198, h51, h203⟩
  · rintro ⟨h0, h10, h127, h224, h100, h169, h172, hzero192, h88, hprivate, h198, h51, h203⟩
    exact ⟨h10, h172, hprivate, h127, h169, fun h => h0 (hzero h), hmulticast h224, h0, h224, h100,
      hzero192, h88, fun h => hzero192 ⟨h.1, h.2.1⟩, h198, h51, h203⟩

/-- Every special-purpose IPv4 block is refused. -/
theorem isPublicIpv4_routable {ip : Ipv4Addr} (h : isPublicIpv4 ip = true) :
    ∀ block ∈ specialPurposeV4, ¬block.Contains ip := by
  have hoctets := (isPublicIpv4_iff_octets ip).mp h
  obtain ⟨hfirst, h100, h169, h172, hzero192, h88, hprivate, h198, h51, h203⟩ := hoctets
  exact (outside_iff_octets ip).mpr ⟨hfirst, h100, h169, h172, fun h => hzero192 ⟨h.1, h.2.1⟩,
    fun h => hzero192 ⟨h.1, h.2.1⟩, h88, hprivate, h198, h51, h203⟩

/-- Two segments make the 32 bits they hold. -/
theorem embeddedV4_eq (high low : ℕ) :
    embeddedV4 high low = BitVec.ofNat 32 (high * 2 ^ 16 + low) := by
  have hvalue : ((high / 2 ^ 8 * 2 ^ 8 + high % 2 ^ 8) * 2 ^ 8 + low / 2 ^ 8) * 2 ^ 8 + low % 2 ^ 8 =
      high * 2 ^ 16 + low := by
    omega
  rw [embeddedV4, Ipv4Addr.new, hvalue]

/-- The code's segment tests select the embedding blocks, and its segments are
the embedded address. -/
theorem isPublicIp_v6 (ip : Ipv6Addr) :
    isPublicIp (.v6 ip) =
      match embeddedIn ip with
      | some ipv4 => isPublicIpv4 ipv4
      | none => !ip.isLoopback && !ip.isUnspecified && !ip.isMulticast && !ip.isUniqueLocal &&
          !ip.isUnicastLinkLocal && ip.segment 0 &&& 0xffc0 ≠ 0xfec0 &&
          !(ip.segment 0 = 0x2001 && ip.segment 1 = 0x0db8) := by
  have hlt := ip.isLt
  have hlow : embeddedV4 (ip.segment 6) (ip.segment 7) = BitVec.ofNat 32 ip.toNat := by
    rw [embeddedV4_eq]
    apply BitVec.eq_of_toNat_eq
    simp only [Ipv6Addr.segment, BitVec.toNat_ofNat]
    omega
  have hsix : embeddedV4 (ip.segment 1) (ip.segment 2) = BitVec.ofNat 32 (ip.toNat / 2 ^ 80) := by
    rw [embeddedV4_eq]
    apply BitVec.eq_of_toNat_eq
    simp only [Ipv6Addr.segment, BitVec.toNat_ofNat]
    omega
  have hv4 : (ip.segment 0 = 0 ∧ ip.segment 1 = 0 ∧ ip.segment 2 = 0 ∧ ip.segment 3 = 0 ∧
      ip.segment 4 = 0 ∧ (ip.segment 5 = 0 ∨ ip.segment 5 = 0xffff)) ↔
      (compatibleBlock.Contains ip ∨ mappedBlock.Contains ip) := by
    simp only [Ipv6Addr.segment, compatibleBlock, mappedBlock, Block.Contains, BitVec.toNat_ofNat]
    omega
  have hnat : (ip.segment 0 = 0x64 ∧ ip.segment 1 = 0xff9b ∧ ip.segment 2 = 0 ∧
      ip.segment 3 = 0 ∧ ip.segment 4 = 0 ∧ ip.segment 5 = 0) ↔ nat64Block.Contains ip := by
    simp only [Ipv6Addr.segment, nat64Block, Block.Contains, BitVec.toNat_ofNat]
    omega
  have h6to4 : ip.segment 0 = 0x2002 ↔ sixToFourBlock.Contains ip := by
    simp only [Ipv6Addr.segment, sixToFourBlock, Block.Contains, BitVec.toNat_ofNat]
    omega
  rw [isPublicIp, Ipv6Addr.toIpv4, embeddedIn]
  simp only [hv4, hnat, h6to4, hlow, hsix]
  by_cases h1 : compatibleBlock.Contains ip ∨ mappedBlock.Contains ip
  · have h2 : compatibleBlock.Contains ip ∨ mappedBlock.Contains ip ∨ nat64Block.Contains ip := by
      tauto
    rw [if_pos h1, if_pos h2]
  · rw [if_neg h1]
    by_cases h2 : nat64Block.Contains ip
    · have h3 : compatibleBlock.Contains ip ∨ mappedBlock.Contains ip ∨ nat64Block.Contains ip :=
        .inr (.inr h2)
      rw [if_pos h3]
      simp only [if_pos h2]
    · have h3 : ¬(compatibleBlock.Contains ip ∨ mappedBlock.Contains ip ∨
          nat64Block.Contains ip) := by
        tauto
      rw [if_neg h3]
      simp only [if_neg h2]
      by_cases h4 : sixToFourBlock.Contains ip
      · simp only [if_pos h4]
      · simp only [if_neg h4]

/-- The code accepts only addresses outside the special-purpose blocks, for
every IPv4 and every IPv6 address. -/
theorem isPublicIp_routable {ip : IpAddr} (h : isPublicIp ip = true) : ip.Routable := by
  cases ip with
  | v4 ip => exact isPublicIpv4_routable h
  | v6 ip =>
    rw [isPublicIp_v6] at h
    simp only [IpAddr.Routable]
    cases hembedded : embeddedIn ip with
    | some ipv4 =>
      rw [hembedded] at h
      exact isPublicIpv4_routable h
    | none =>
      rw [hembedded] at h
      have hlt := ip.isLt
      have hseg : ip.segment 0 < 2 ^ 16 := Nat.mod_lt _ (by decide)
      have hff : ip.segment 0 &&& 0xff00 = 0xff00 ↔ ip.segment 0 / 2 ^ 8 = 0xff :=
        and_mask_eq_iff (n := 16) (k := 8) (c := 0xff) hseg (by decide)
      have hfc : ip.segment 0 &&& 0xfe00 = 0xfc00 ↔ ip.segment 0 / 2 ^ 9 = 0x7e :=
        and_mask_eq_iff (n := 16) (k := 9) (c := 0x7e) hseg (by decide)
      have hfe : ip.segment 0 &&& 0xffc0 = 0xfe80 ↔ ip.segment 0 / 2 ^ 6 = 0x3fa :=
        and_mask_eq_iff (n := 16) (k := 6) (c := 0x3fa) hseg (by decide)
      have hfec : ip.segment 0 &&& 0xffc0 = 0xfec0 ↔ ip.segment 0 / 2 ^ 6 = 0x3fb :=
        and_mask_eq_iff (n := 16) (k := 6) (c := 0x3fb) hseg (by decide)
      simp only [Ipv6Addr.isMulticast, Ipv6Addr.isUniqueLocal, Ipv6Addr.isUnicastLinkLocal,
        Bool.and_eq_true, Bool.not_eq_true', Bool.and_eq_false_iff, decide_eq_true_eq,
        decide_eq_false_iff_not, ne_eq, hff, hfc, hfe, hfec] at h
      simp only [Ipv6Addr.segment] at h
      intro block hblock
      simp only [specialPurposeV6, List.mem_cons, List.not_mem_nil, or_false] at hblock
      rcases hblock with rfl | rfl | rfl | rfl | rfl <;>
        simp only [Block.Contains, BitVec.toNat_ofNat] <;> omega

/-- The addresses of 192.0.0.0/16 outside 192.0.0.0/24 and 192.0.2.0/24. The code
tests the first two octets where it means the first three, so it refuses these
too, and its own test for 192.0.2.0/24 decides nothing. -/
def Shadowed (ip : Ipv4Addr) : Prop :=
  (⟨Ipv4Addr.new 192 0 0 0, 16⟩ : Block 32).Contains ip ∧
    ¬(⟨Ipv4Addr.new 192 0 0 0, 24⟩ : Block 32).Contains ip ∧
    ¬(⟨Ipv4Addr.new 192 0 2 0, 24⟩ : Block 32).Contains ip

/-- An IPv4 address is public just when it lies outside the special-purpose
blocks; an IPv6 address that embeds one is answered like it. -/
def IpAddr.ExactlyJudged : IpAddr → Prop
  | .v4 ip => isPublicIp (.v4 ip) = true ↔ ∀ block ∈ specialPurposeV4, ¬block.Contains ip
  | .v6 ip => ∀ ipv4, embeddedIn ip = some ipv4 → isPublicIp (.v6 ip) = isPublicIp (.v4 ipv4)

theorem shadowed_iff_octets (ip : Ipv4Addr) :
    Shadowed ip ↔ ip.octet 0 = 192 ∧ ip.octet 1 = 0 ∧ ip.octet 2 ≠ 0 ∧ ip.octet 2 ≠ 2 := by
  have h16 := contains_second (a := 192) (b := 0) (c := 0) (d := 0) (k := 8)
    (by decide) (by decide) (by decide) (by decide) (by decide) ip
  have hzero := contains_third (a := 192) (b := 0) (c := 0) (d := 0)
    (by decide) (by decide) (by decide) (by decide) ip
  have htwo := contains_third (a := 192) (b := 0) (c := 2) (d := 0)
    (by decide) (by decide) (by decide) (by decide) ip
  have hq8 : ∀ x : ℕ, x / 2 ^ (8 - 8) = x := fun x => Nat.div_one x
  rw [hq8, hq8] at h16
  unfold Shadowed
  rw [h16, hzero, htwo]
  tauto

/-- A shadowed address lies outside all special-purpose blocks. -/
theorem outside_of_shadowed {ip : Ipv4Addr} (h : Shadowed ip) :
    ∀ block ∈ specialPurposeV4, ¬block.Contains ip := by
  obtain ⟨hfirst, hsecond, hzero, htwo⟩ := (shadowed_iff_octets ip).mp h
  refine (outside_iff_octets ip).mpr ⟨?_, ?_, ?_, ?_, ?_, ?_, ?_, ?_, ?_, ?_, ?_⟩
  all_goals omega

/-- An address is judged exactly just when it is not a shadowed IPv4 address. -/
theorem exactlyJudged_iff (ip : IpAddr) :
    ip.ExactlyJudged ↔ ∀ ipv4, ip = .v4 ipv4 → ¬Shadowed ipv4 := by
  cases ip with
  | v6 ip =>
    constructor
    · intro _ ipv4 heq
      cases heq
    · intro _ ipv4 hembedded
      rw [isPublicIp_v6, hembedded]
      rfl
  | v4 ip =>
    have hcode := isPublicIpv4_iff_octets ip
    have hblocks := outside_iff_octets ip
    have hshadowed := shadowed_iff_octets ip
    constructor
    · intro hexact ipv4 heq hbad
      cases heq
      have hpublic : isPublicIpv4 ip = true := hexact.mpr (outside_of_shadowed hbad)
      obtain ⟨hfirst, hsecond, -, -⟩ := hshadowed.mp hbad
      obtain ⟨-, -, -, -, hrefused, -⟩ := hcode.mp hpublic
      exact hrefused ⟨hfirst, hsecond⟩
    · intro hclear
      refine ⟨fun hpublic => isPublicIpv4_routable hpublic, fun houtside => ?_⟩
      obtain ⟨hfirst, h100, h169, h172, hzero, htwo, h88, hprivate, h198, h51, h203⟩ :=
        hblocks.mp houtside
      refine hcode.mpr ⟨hfirst, h100, h169, h172, fun h => ?_, h88, hprivate, h198, h51, h203⟩
      exact hclear ip rfl (hshadowed.mpr ⟨h.1, h.2, fun h0 => hzero ⟨h.1, h.2, h0⟩,
        fun h2 => htwo ⟨h.1, h.2, h2⟩⟩)

/-- 192.0.78.24 lies outside all special-purpose blocks and is refused. -/
theorem exactlyJudged_fails : ¬∀ ip : IpAddr, ip.ExactlyJudged := by
  intro h
  have hexact := h (.v4 (Ipv4Addr.new 192 0 78 24))
  have houtside : ∀ block ∈ specialPurposeV4, ¬block.Contains (Ipv4Addr.new 192 0 78 24) := by decide
  have hpublic : isPublicIp (.v4 (Ipv4Addr.new 192 0 78 24)) = true := hexact.mpr houtside
  revert hpublic
  decide

example : isPublicIp (.v6 (BitVec.ofNat 128 0x2002c0a8010100000000000000000000)) = false := by
  decide

end OpenTfMirror.PublicAddresses
