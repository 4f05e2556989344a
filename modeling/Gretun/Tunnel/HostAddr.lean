import Gretun.Foundation.Octets
import Gretun.Net.ParseIPv6
import Gretun.Tunnel.Cidr

/-!
# Which addresses `ValidateCIDR` accepts

A text that `net.ParseCIDR` accepts is read as an address and a length. `ValidateCIDR`
takes the address for an IPv4 address if it has the IPv4 form, and that is so for the
IPv4-mapped addresses in IPv6 notation as well. Those it compares with the network and
the broadcast address of their 128-bit prefix.
-/

namespace Gretun

namespace Tunnel

open Gretun.Net
open Foundation
open Foundation.Octets

def readCIDR (s : String) : Option (Addr × ℕ) := do
  let mask ← (Cut.cut '/' s.toList).2
  let ip ← parseAddr parseIPv6 (Cut.cut '/' s.toList).1
  let n ← dtoi mask
  if ip.zone ≠ "" ∨ ip.bitLen < n then none else some (ip, n)

def HostV4 (ip : Addr) (n : ℕ) : Prop := ∃ a, ip = .v4 a ∧ (n = 32 ∨ Inside n a)

/-- As `HostV4`, in IPv6 notation: the address is the IPv6 form of an IPv4 address. -/
def HostMapped (ip : Addr) (n : ℕ) : Prop :=
  ∃ b zone, ip = .v6 b zone ∧ b >>> 32 = 0xffff ∧ (n = 32 ∨ Inside n b)

theorem parseCIDR_eq (s : String) :
    parseCIDR parseIPv6 s = (readCIDR s).elim (.error ("invalid CIDR address: " ++ s))
      fun r => .ok (cidrOf r.1 r.2) := by
  cases hmask : (Cut.cut '/' s.toList).2 with
  | none => simp [parseCIDR, readCIDR, hmask]
  | some mask =>
      cases hip : parseAddr parseIPv6 (Cut.cut '/' s.toList).1 with
      | none => simp [parseCIDR, readCIDR, hmask, hip]
      | some ip =>
          cases hn : dtoi mask with
          | none => simp [parseCIDR, readCIDR, hmask, hip, hn]
          | some n =>
              by_cases hbad : ip.zone ≠ "" ∨ ip.bitLen < n <;>
                simp [parseCIDR, readCIDR, hmask, hip, hn, hbad, cidrOf]

/-- What is read has a family, and its length fits. -/
theorem readCIDR_cases {s : String} {ip : Addr} {n : ℕ} (h : readCIDR s = some (ip, n)) :
    (∃ a, ip = .v4 a) ∧ n ≤ 32 ∨ (∃ b zone, ip = .v6 b zone) ∧ n ≤ 128 := by
  simp only [readCIDR, Option.bind_eq_bind, Option.bind_eq_some_iff] at h
  obtain ⟨mask, -, ip', hip, n', -, h⟩ := h
  split at h
  · cases h
  · rename_i hgood
    obtain ⟨rfl, rfl⟩ := Prod.mk.inj (Option.some.inj h)
    have hlen := Nat.le_of_not_lt (not_or.mp hgood).2
    rcases parseAddr_cases hip with ⟨a, rfl⟩ | ⟨b, zone, rfl⟩
    · exact .inl ⟨⟨a, rfl⟩, hlen⟩
    · exact .inr ⟨⟨b, zone, rfl⟩, hlen⟩

/-! ## Bytes -/

/-- An address has the IPv4 form if the word without its last 32 bits is `0xffff`. -/
theorem to4_octets (b : BitVec 128) :
    IP.to4 (octets 16 b) ≠ none ↔ b >>> 32 = 0xffff := by
  have hmapped : IP.to4 (octets 16 b) ≠ none ↔
      (octets 16 b).take 12 = IP.v4InV6Prefix := by
    simp [IP.to4]
  have hbytes : octets 16 (0xffff : BitVec 128) =
      List.replicate 4 0 ++ IP.v4InV6Prefix := by
    decide
  have hshift := octets_ushiftRight (k := 16) (d := 4) (by decide) (by decide) b
  rw [hmapped, ← octets_inj (k := 16) (le_refl 128), hbytes, hshift,
    List.append_cancel_left_eq]

theorem equal_octets {a b : BitVec 128} :
    IP.equal (octets 16 a) (octets 16 b) = true ↔ a = b := by
  simp [IP.equal, octets_inj (k := 16) (le_refl 128)]

/-! ## What is accepted -/

theorem ne_empty_of_readCIDR {s : String} {r : Addr × ℕ} (h : readCIDR s = some r) :
    s ≠ "" := by
  rintro rfl
  have hempty : readCIDR "" = none := by decide
  cases hempty.symm.trans h

/-- An IPv6 address is accepted if it has the IPv4 form and, unless the length is 32, is
inside its prefix. -/
theorem validateCIDR_v6_iff {parse : String → Except String CIDR} {s : String}
    {b : BitVec 128} {zone : String} {n : ℕ} (hn : n ≤ 128) (hne : s ≠ "")
    (h : parse s = .ok (cidrOf (.v6 b zone) n)) :
    validateCIDR parse s = .ok () ↔ b >>> 32 = 0xffff ∧ (n = 32 ∨ Inside n b) := by
  obtain ⟨hnet, hbroadcast⟩ := cidrOf_v6 b zone hn
  have hequal (x : BitVec 128) :
      IP.equal (octets 16 b) (octets 16 x) = false ↔ b ≠ x := by
    rw [← Bool.not_eq_true, equal_octets]
  rw [validateCIDR_iff hne h, hnet, hbroadcast, ← to4_octets]
  exact and_congr_right' (or_congr_right (and_congr (hequal _) (hequal _)))

/-- What is accepted: the usable IPv4 addresses, and the IPv4-mapped addresses that are
neither the first nor the last one of their IPv6 prefix or have the length 32. -/
theorem validateCIDR_ok_iff {s : String} {ip : Addr} {n : ℕ}
    (h : readCIDR s = some (ip, n)) :
    validateCIDR (parseCIDR parseIPv6) s = .ok () ↔ HostV4 ip n ∨ HostMapped ip n := by
  have hne := ne_empty_of_readCIDR h
  have hparse : parseCIDR parseIPv6 s = .ok (cidrOf ip n) := by
    rw [parseCIDR_eq, h]
    rfl
  rcases readCIDR_cases h with ⟨⟨a, rfl⟩, hn⟩ | ⟨⟨b, zone, rfl⟩, hn⟩
  · rw [validateCIDR_v4_iff hn hne hparse]
    constructor
    · exact fun h => .inl ⟨a, rfl, h⟩
    · rintro (⟨_, ⟨⟩, h⟩ | ⟨_, _, ⟨⟩, -⟩)
      exact h
  · rw [validateCIDR_v6_iff hn hne hparse]
    constructor
    · exact fun h => .inr ⟨b, zone, rfl, h⟩
    · rintro (⟨_, ⟨⟩, -⟩ | ⟨_, _, ⟨⟩, h⟩)
      exact h

/-! ## Written addresses -/

def cidrText (chars : List Char) (n : ℕ) : String :=
  String.ofList (chars ++ '/' :: Nat.toDigits 10 n)

theorem readCIDR_cidrText {chars : List Char} (hslash : '/' ∉ chars) {ip : Addr}
    (hip : parseAddr parseIPv6 chars = some ip) (hzone : ip.zone = "") {n : ℕ}
    (hn : n ≤ ip.bitLen) (hlimit : n < 0xFFFFFF) :
    readCIDR (cidrText chars n) = some (ip, n) := by
  have hdtoi : dtoi (Nat.toDigits 10 n) = some n := by
    rw [dtoi, if_neg (Decimal.toDigits_ne_nil n), Decimal.parseDigits_toDigits hlimit]
    rfl
  simp [readCIDR, cidrText, Cut.cut_append hslash, hip, hdtoi, hzone, hn]

theorem readCIDR_string4 (a : BitVec 32) {n : ℕ} (hn : n ≤ 32) :
    readCIDR (cidrText (string4Chars a) n) = some (.v4 a, n) :=
  readCIDR_cidrText (slash_notMem_string4Chars a) (parseAddr_string4 parseIPv6 a) rfl hn
    (by omega)

theorem readCIDR_mapped (a : BitVec 32) {n : ℕ} (hn : n ≤ 128) :
    readCIDR (cidrText (mappedChars a) n) = some (.v6 (mapped a) "", n) := by
  refine readCIDR_cidrText ?_ (parseAddr_mappedChars a) rfl hn (by omega)
  intro h
  rcases List.mem_append.mp h with h | h
  · exact absurd h (by decide)
  · exact slash_notMem_string4Chars a h

/-- In IPv4 notation the address is judged within its own prefix. -/
theorem validateCIDR_string4 (a : BitVec 32) {n : ℕ} (hn : n ≤ 32) :
    validateCIDR (parseCIDR parseIPv6) (cidrText (string4Chars a) n) = .ok () ↔
      n = 32 ∨ Inside n a := by
  rw [validateCIDR_ok_iff (readCIDR_string4 a hn)]
  constructor
  · rintro (⟨_, ⟨⟩, h⟩ | ⟨_, _, ⟨⟩, -⟩)
    exact h
  · exact fun h => .inl ⟨a, rfl, h⟩

/-- The same address in IPv6 notation is judged within an IPv6 prefix, and not at all
if the length is 32. -/
theorem validateCIDR_mappedChars (a : BitVec 32) {n : ℕ} (hn : n ≤ 128) :
    validateCIDR (parseCIDR parseIPv6) (cidrText (mappedChars a) n) = .ok () ↔
      n = 32 ∨ Inside n (mapped a) := by
  rw [validateCIDR_ok_iff (readCIDR_mapped a hn)]
  constructor
  · rintro (⟨_, ⟨⟩, -⟩ | ⟨_, _, ⟨⟩, -, h⟩)
    exact h
  · exact fun h => .inr ⟨mapped a, "", rfl, mapped_ushiftRight a, h⟩

/-! ## The judgement of all texts -/

theorem not_hostV4_of_hostMapped {ip : Addr} {n : ℕ} (h : HostMapped ip n) :
    ¬ HostV4 ip n := by
  obtain ⟨b, zone, rfl, -⟩ := h
  rintro ⟨a, ⟨⟩, -⟩

/-- `ValidateCIDR` accepts exactly the usable IPv4 host addresses, for every text that
`net.ParseCIDR` accepts but those of the IPv4-mapped addresses in IPv6 notation that are
neither the first nor the last one of their IPv6 prefix or have the length 32. -/
theorem validateCIDR_hostV4_iff (s : String) (c : CIDR)
    (h : parseCIDR parseIPv6 s = .ok c) :
    ∃ ip n, readCIDR s = some (ip, n) ∧
      ((validateCIDR (parseCIDR parseIPv6) s = .ok () ↔ HostV4 ip n) ↔
        ¬ HostMapped ip n) := by
  rw [parseCIDR_eq] at h
  cases hread : readCIDR s with
  | none => rw [hread] at h; cases h
  | some r =>
      obtain ⟨ip, n⟩ := r
      refine ⟨ip, n, rfl, ?_⟩
      rw [validateCIDR_ok_iff hread]
      constructor
      · intro hiff hmapped
        exact not_hostV4_of_hostMapped hmapped (hiff.mp (.inr hmapped))
      · exact fun hmapped => or_iff_left hmapped

/-- An IPv4 text is judged as it should be. -/
theorem validateCIDR_hostV4_plain :
    ∃ ip n, readCIDR "10.0.0.5/24" = some (ip, n) ∧
      ((validateCIDR (parseCIDR parseIPv6) "10.0.0.5/24" = .ok () ↔ HostV4 ip n) ↔
        ¬ HostMapped ip n) :=
  validateCIDR_hostV4_iff "10.0.0.5/24" (cidrOf (.v4 0x0a000005) 24) (by
    have hread : readCIDR "10.0.0.5/24" = some (.v4 0x0a000005, 24) := by decide +kernel
    rw [parseCIDR_eq, hread]
    rfl)

/-- An IPv4-mapped address in IPv6 notation is accepted. -/
theorem validateCIDR_of_mapped :
    readCIDR "::ffff:10.0.0.5/120" = some (.v6 0xffff0a000005 "", 120) ∧
      validateCIDR (parseCIDR parseIPv6) "::ffff:10.0.0.5/120" = .ok () ∧
      ¬ HostV4 (.v6 0xffff0a000005 "") 120 := by
  refine ⟨by decide +kernel, by decide +kernel, ?_⟩
  rintro ⟨a, ⟨⟩, -⟩

end Tunnel

end Gretun
