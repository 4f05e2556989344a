import Gretun.Net.ParseAddr
import Gretun.Tunnel.Gre

/-!
# Reading and checking a CIDR

`net.ParseCIDR`, and how `ValidateCIDR` judges an IPv4 address with a length. The texts
that `AssignIP` is called with have the length 30: of each four addresses in a row the
two in the middle are accepted.
-/

namespace Gretun

namespace Tunnel

open Gretun.Net
open Foundation
open Foundation.Decimal
open Foundation.Octets

def cidrMask (ones bits : ℕ) : List UInt8 :=
  (List.range (bits / 8)).map fun i =>
    if 8 ≤ ones - 8 * i then 255 else ~~~((255 : UInt8) >>> UInt8.ofNat (ones - 8 * i))

def as16 : Addr → IP
  | .zero => List.replicate 16 0
  | .v4 a => IP.v4InV6Prefix ++ (Addr.v4 a).asSlice
  | .v6 a z => (Addr.v6 a z).asSlice

/-- `IP.Mask`, for the masks of `cidrMask`. -/
def maskIP (ip mask : List UInt8) : IP :=
  let ip := if mask.length = 4 ∧ ip.length = 16 ∧ ip.take 12 = IP.v4InV6Prefix then
    ip.drop 12 else ip
  if ip.length ≠ mask.length then [] else List.zipWith (· &&& ·) ip mask

/-- The digits of a mask length: `dtoi`, up to the end of the text. -/
def dtoi (cs : List Char) : Option ℕ :=
  if cs = [] then none else (parseDigits 0xFFFFFF 0 cs).toOption

def parseCIDR (parseIPv6 : List Char → Option Addr) (s : String) : Except String CIDR :=
  let front := (Cut.cut '/' s.toList).1
  match (Cut.cut '/' s.toList).2, parseAddr parseIPv6 front with
  | some mask, some ip =>
      match dtoi mask with
      | some n =>
          if ip.zone ≠ "" ∨ ip.bitLen < n then .error ("invalid CIDR address: " ++ s)
          else .ok
            { ip := as16 ip
              netIP := maskIP (as16 ip) (cidrMask n ip.bitLen)
              mask := cidrMask n ip.bitLen
              ones := n }
      | none => .error ("invalid CIDR address: " ++ s)
  | _, _ => .error ("invalid CIDR address: " ++ s)

def CIDR.contains (c : CIDR) (ip : IP) : Bool :=
  let x := ip.to4.getD ip
  x.length = c.netIP.length &&
    List.zipWith (· &&& ·) c.netIP c.mask = List.zipWith (· &&& ·) x c.mask

/-- What `net.ParseCIDR` makes of an address and a length. -/
def cidrOf (ip : Addr) (n : ℕ) : CIDR where
  ip := as16 ip
  netIP := maskIP (as16 ip) (cidrMask n ip.bitLen)
  mask := cidrMask n ip.bitLen
  ones := n

/-- The address is neither the first nor the last one of its prefix. -/
def Inside {w : ℕ} (n : ℕ) (a : BitVec w) : Prop := a ≠ network n a ∧ a ≠ broadcast n a

theorem inside_iff {w : ℕ} (n : ℕ) (a : BitVec w) :
    Inside n a ↔
      a.toNat % 2 ^ (w - n) ≠ 0 ∧ a.toNat % 2 ^ (w - n) ≠ 2 ^ (w - n) - 1 := by
  have hsplit := Nat.div_add_mod a.toNat (2 ^ (w - n))
  rw [Inside, ne_eq, ne_eq, ← BitVec.toNat_inj, ← BitVec.toNat_inj, toNat_network,
    toNat_broadcast]
  omega

/-! ## Bytes -/

theorem cidrMask_v4 : ∀ n ≤ 32, cidrMask n 32 = octets 4 (netmask 32 n) := by
  decide +kernel

theorem cidrMask_v6 : ∀ n ≤ 128, cidrMask n 128 = octets 16 (netmask 128 n) := by
  decide +kernel

theorem network_broadcast {w k n : ℕ} (hk : 8 * k ≤ w) {c : CIDR} {a : BitVec w}
    (hmask : c.mask = octets k (netmask w n))
    (hnet : c.netIP = List.zipWith (· &&& ·) (octets k a) (octets k (netmask w n))) :
    c.netIP = octets k (network n a) ∧ c.broadcast = octets k (broadcast n a) := by
  rw [← octets_and] at hnet
  refine ⟨hnet, ?_⟩
  rw [CIDR.broadcast, hnet, hmask, ← octets_or_not hk]
  exact congrArg (octets k) (network_or_not n a)

theorem as16_parts (a : BitVec 32) :
    (as16 (.v4 a)).length = 16 ∧ (as16 (.v4 a)).take 12 = IP.v4InV6Prefix ∧
      (as16 (.v4 a)).drop 12 = (Addr.v4 a).asSlice := by
  have hlen : IP.v4InV6Prefix.length = 12 := rfl
  refine ⟨?_, List.take_left' hlen, List.drop_left' hlen⟩
  rw [as16, List.length_append, length_asSlice_v4, hlen]

theorem equal_as16 (a : BitVec 32) {x : IP} (hx : x.length = 4) :
    (as16 (.v4 a)).equal x = true ↔ (Addr.v4 a).asSlice = x := by
  obtain ⟨hlen, htake, hdrop⟩ := as16_parts a
  simp [IP.equal, hlen, hx, htake, hdrop]

theorem to4_as16 (a : BitVec 32) : (as16 (.v4 a)).to4 = some (Addr.v4 a).asSlice := by
  obtain ⟨hlen, htake, hdrop⟩ := as16_parts a
  simp [IP.to4, hlen, htake, hdrop]

theorem cidrOf_v4 (a : BitVec 32) {n : ℕ} (hn : n ≤ 32) :
    (cidrOf (.v4 a) n).netIP = octets 4 (network n a) ∧
      (cidrOf (.v4 a) n).broadcast = octets 4 (broadcast n a) := by
  have hmask : cidrMask n (Addr.v4 a).bitLen = octets 4 (netmask 32 n) :=
    cidrMask_v4 n hn
  obtain ⟨hlen, htake, hdrop⟩ := as16_parts a
  refine network_broadcast (by decide) hmask ?_
  rw [cidrOf, hmask]
  simp [maskIP, hlen, htake, hdrop, asSlice_v4_eq]

theorem cidrOf_v6 (b : BitVec 128) (zone : String) {n : ℕ} (hn : n ≤ 128) :
    (cidrOf (.v6 b zone) n).netIP = octets 16 (network n b) ∧
      (cidrOf (.v6 b zone) n).broadcast = octets 16 (broadcast n b) := by
  have hmask : cidrMask n (Addr.v6 b zone).bitLen = octets 16 (netmask 128 n) :=
    cidrMask_v6 n hn
  refine network_broadcast (by decide) hmask ?_
  rw [cidrOf, hmask]
  simp [maskIP, as16, asSlice_v6_eq]

/-! ## The judgement of an address -/

theorem validateCIDR_iff {parse : String → Except String CIDR} {s : String} {c : CIDR}
    (hne : s ≠ "") (h : parse s = .ok c) :
    validateCIDR parse s = .ok () ↔
      c.ip.to4 ≠ none ∧ (c.ones = 32 ∨
        c.ip.equal c.netIP = false ∧ c.ip.equal c.broadcast = false) := by
  rw [validateCIDR, if_neg hne, h]
  by_cases hto4 : c.ip.to4 = none
  · simp [hto4]
  · by_cases hones : c.ones = 32
    · simp [hto4, hones]
    · cases hnet : c.ip.equal c.netIP <;> cases hlast : c.ip.equal c.broadcast <;>
        simp [hto4, hones, hnet, hlast]

/-- An IPv4 address is accepted if the length is 32 or it is inside its prefix. -/
theorem validateCIDR_v4_iff {parse : String → Except String CIDR} {s : String}
    {a : BitVec 32} {n : ℕ} (hn : n ≤ 32) (hne : s ≠ "")
    (h : parse s = .ok (cidrOf (.v4 a) n)) :
    validateCIDR parse s = .ok () ↔ n = 32 ∨ Inside n a := by
  obtain ⟨hnet, hbroadcast⟩ := cidrOf_v4 a hn
  have hequal (x : BitVec 32) : (as16 (.v4 a)).equal (octets 4 x) = false ↔ a ≠ x := by
    rw [← Bool.not_eq_true, equal_as16 a (length_octets 4 x), asSlice_v4_eq,
      octets_inj (le_refl 32)]
  rw [validateCIDR_iff hne h, hnet, hbroadcast]
  change (as16 (.v4 a)).to4 ≠ none ∧ (n = 32 ∨ _) ↔ _
  rw [to4_as16]
  exact (and_iff_right (Option.some_ne_none _)).trans
    (or_congr_right (and_congr (hequal _) (hequal _)))

theorem contains_cidrOf_iff (a b : BitVec 32) {n : ℕ} (hn : n ≤ 32) :
    (cidrOf (.v4 a) n).contains (Addr.v4 b).asSlice = true ↔
      b.toNat / 2 ^ (32 - n) = a.toNat / 2 ^ (32 - n) := by
  have hmask : cidrMask n (Addr.v4 a).bitLen = octets 4 (netmask 32 n) :=
    cidrMask_v4 n hn
  have hto4 : IP.to4 (octets 4 b) = some (octets 4 b) := if_pos (length_octets 4 b)
  change ((cidrOf (.v4 a) n).mask = _) at hmask
  rw [CIDR.contains, (cidrOf_v4 a hn).1, hmask, asSlice_v4_eq, hto4]
  simp only [Option.getD_some, length_octets, decide_true, Bool.true_and,
    decide_eq_true_eq, ← octets_and]
  change octets 4 (network n (network n a)) = octets 4 (network n b) ↔ _
  rw [network_network, octets_inj (le_refl 32), ← BitVec.toNat_inj, toNat_network,
    toNat_network, Nat.mul_right_inj (Nat.two_pow_pos _).ne', eq_comm]

/-! ## IPv4 addresses with a length of 30 -/

/-- The address of a tunnel end in the form in which `bringUpTunnel` assigns it. -/
def tunnelCIDR (self : Addr) : String := self.string ++ "/30"

def thirty (a : BitVec 32) : CIDR where
  ip := as16 (.v4 a)
  netIP := maskIP (as16 (.v4 a)) [255, 255, 255, 252]
  mask := [255, 255, 255, 252]
  ones := 30

theorem cidrMask_thirty : cidrMask 30 32 = [255, 255, 255, 252] := by decide

theorem thirty_eq (a : BitVec 32) : thirty a = cidrOf (.v4 a) 30 := by
  have hmask : cidrMask 30 (Addr.v4 a).bitLen = [255, 255, 255, 252] := cidrMask_thirty
  rw [cidrOf, hmask]
  rfl

theorem parseCIDR_tunnelCIDR (parseIPv6 : List Char → Option Addr) (a : BitVec 32) :
    parseCIDR parseIPv6 (tunnelCIDR (.v4 a)) =
      .ok (thirty a) := by
  have htext : (tunnelCIDR (.v4 a)).toList = string4Chars a ++ '/' :: ['3', '0'] := by
    simp [tunnelCIDR, Addr.string, string4]
  have hbits : dtoi ['3', '0'] = some 30 := by decide
  rw [thirty_eq]
  simp only [parseCIDR, htext, Cut.cut_append (slash_notMem_string4Chars a),
    parseAddr_string4, hbits, Addr.zone, Addr.bitLen]
  rfl

/-- Of four addresses in a row, the first and the last are rejected. -/
theorem validateCIDR_tunnelCIDR_iff (parseIPv6 : List Char → Option Addr)
    (a : BitVec 32) :
    validateCIDR (parseCIDR parseIPv6) (tunnelCIDR (.v4 a)) = .ok () ↔
      a.toNat % 4 = 1 ∨ a.toNat % 4 = 2 := by
  have hne : tunnelCIDR (.v4 a) ≠ "" := by
    intro h
    have hlen := congrArg String.length h
    simp [tunnelCIDR] at hlen
  have hparse := parseCIDR_tunnelCIDR parseIPv6 a
  rw [thirty_eq] at hparse
  rw [validateCIDR_v4_iff (by decide) hne hparse, inside_iff]
  omega

theorem contains_thirty_iff (a b : BitVec 32) :
    (thirty a).contains (Addr.v4 b).asSlice = true ↔ b.toNat / 4 = a.toNat / 4 := by
  rw [thirty_eq]
  exact contains_cidrOf_iff a b (by decide)

end Tunnel

end Gretun
