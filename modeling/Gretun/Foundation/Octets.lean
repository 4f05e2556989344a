import Mathlib.Data.BitVec
import Mathlib.Data.Nat.Bitwise

/-!
# The bytes of a word

`octets k a` are the lowest `k` bytes of the word `a`, the most significant first. The
bitwise operations on words are those on their bytes, and the bytes determine a word
of `8 * k` bits. `netmask w n` is the word whose first `n` bits are set; clearing and
setting the other bits are a rounding down and a rounding up in the numbers.
-/

namespace Foundation

namespace Octets

variable {w : ℕ}

/-- The lowest `k` bytes of `a`, the most significant first. -/
def octets (k : ℕ) (a : BitVec w) : List UInt8 :=
  (List.range k).map fun i => ⟨(a >>> (8 * (k - 1 - i))).setWidth 8⟩

@[simp] theorem length_octets (k : ℕ) (a : BitVec w) : (octets k a).length = k := by
  rw [octets, List.length_map, List.length_range]

theorem octets_and (k : ℕ) (a b : BitVec w) :
    octets k (a &&& b) = List.zipWith (· &&& ·) (octets k a) (octets k b) := by
  rw [octets, octets, octets, List.zipWith_map, List.zipWith_self]
  refine List.map_congr_left fun i _ => ?_
  rw [BitVec.ushiftRight_and_distrib, BitVec.setWidth_and]
  rfl

theorem octets_or_not {k : ℕ} (hk : 8 * k ≤ w) (a m : BitVec w) :
    octets k (a ||| ~~~m) =
      List.zipWith (fun x y => x ||| ~~~y) (octets k a) (octets k m) := by
  rw [octets, octets, octets, List.zipWith_map, List.zipWith_self]
  refine List.map_congr_left fun i hi => ?_
  have hi := List.mem_range.mp hi
  refine congrArg UInt8.ofBitVec (BitVec.eq_of_getLsbD_eq fun j hj => ?_)
  have hbit : 8 * (k - 1 - i) + j < w := by omega
  simp [hj, hbit]

theorem getLsbD_of_octets_eq {k : ℕ} {a b : BitVec w} (h : octets k a = octets k b)
    {j : ℕ} (hj : j < 8 * k) : a.getLsbD j = b.getLsbD j := by
  have hi : k - 1 - j / 8 ∈ List.range k := List.mem_range.mpr (by omega)
  have hbyte := List.map_inj_left.mp h _ hi
  have hbit := congrArg (fun x : UInt8 => x.toBitVec.getLsbD (j % 8)) hbyte
  have hindex : 8 * (k - 1 - (k - 1 - j / 8)) + j % 8 = j := by omega
  simpa [BitVec.getLsbD_setWidth, Nat.mod_lt, hindex] using hbit

theorem octets_inj {k : ℕ} (hw : w ≤ 8 * k) {a b : BitVec w} :
    octets k a = octets k b ↔ a = b :=
  ⟨fun h => BitVec.eq_of_getLsbD_eq fun _ hj => getLsbD_of_octets_eq h (by omega),
    fun h => h ▸ rfl⟩

/-- Shifting out `d` bytes moves the others to the end. -/
theorem octets_ushiftRight {k d : ℕ} (hw : w ≤ 8 * k) (hd : d ≤ k) (a : BitVec w) :
    octets k (a >>> (8 * d)) = List.replicate d 0 ++ (octets k a).take (k - d) := by
  refine List.ext_getElem (by simp [hd]) fun i hi _ => ?_
  rw [length_octets] at hi
  rcases Nat.lt_or_ge i d with hlt | hge
  · have hzero : a >>> (8 * d + 8 * (k - 1 - i)) = 0#w :=
      BitVec.ushiftRight_eq_zero (by omega)
    rw [List.getElem_append_left (by simpa using hlt), List.getElem_replicate]
    simp only [octets, List.getElem_map, List.getElem_range]
    rw [← BitVec.shiftRight_add, hzero, BitVec.setWidth_zero]
    rfl
  · have hshift : 8 * d + 8 * (k - 1 - i) = 8 * (k - 1 - (i - d)) := by omega
    rw [List.getElem_append_right (by simpa using hge), List.getElem_take]
    simp only [octets, List.getElem_map, List.getElem_range, List.length_replicate]
    rw [← BitVec.shiftRight_add, hshift]

def netmask (w n : ℕ) : BitVec w := BitVec.allOnes w <<< (w - n)

def network (n : ℕ) (a : BitVec w) : BitVec w := a &&& netmask w n

def broadcast (n : ℕ) (a : BitVec w) : BitVec w := a ||| ~~~netmask w n

/-- Which host bits the network address has does not matter for the broadcast
address. -/
theorem network_or_not (n : ℕ) (a : BitVec w) :
    network n a ||| ~~~netmask w n = broadcast n a := by
  refine BitVec.eq_of_getLsbD_eq fun j hj => ?_
  simp only [network, broadcast, BitVec.getLsbD_or, BitVec.getLsbD_and,
    BitVec.getLsbD_not, hj, decide_true, Bool.true_and]
  cases a.getLsbD j <;> cases (netmask w n).getLsbD j <;> rfl

/-! ## Networks as numbers -/

theorem getLsbD_netmask (n j : ℕ) :
    (netmask w n).getLsbD j = (decide (j < w) && !decide (j < w - n)) := by
  rw [netmask, BitVec.getLsbD_shiftLeft, BitVec.getLsbD_allOnes]
  by_cases hj : j < w
  · rw [decide_eq_true (Nat.lt_of_le_of_lt (Nat.sub_le j (w - n)) hj), Bool.and_true]
  · rw [decide_eq_false hj, Bool.false_and, Bool.false_and]

theorem toNat_network (n : ℕ) (a : BitVec w) :
    (network n a).toNat = 2 ^ (w - n) * (a.toNat / 2 ^ (w - n)) := by
  refine Nat.eq_of_testBit_eq fun j => ?_
  rw [BitVec.testBit_toNat, network, BitVec.getLsbD_and, getLsbD_netmask,
    Nat.testBit_two_pow_mul, Nat.testBit_div_two_pow]
  generalize w - n = k
  by_cases hk : j < k
  · simp [hk]
  · rw [Nat.sub_add_cancel (Nat.le_of_not_lt hk), BitVec.testBit_toNat]
    by_cases hj : j < w
    · simp [hj, hk, Nat.le_of_not_lt hk]
    · simp [hj, BitVec.getLsbD_of_ge a j (Nat.le_of_not_lt hj)]

theorem toNat_broadcast (n : ℕ) (a : BitVec w) :
    (broadcast n a).toNat =
      2 ^ (w - n) * (a.toNat / 2 ^ (w - n)) + (2 ^ (w - n) - 1) := by
  have hlt : 2 ^ (w - n) - 1 < 2 ^ (w - n) := Nat.sub_one_lt (Nat.two_pow_pos _).ne'
  have hle : w - n ≤ w := Nat.sub_le w n
  refine Nat.eq_of_testBit_eq fun j => ?_
  rw [BitVec.testBit_toNat, broadcast, BitVec.getLsbD_or, BitVec.getLsbD_not,
    getLsbD_netmask, Nat.testBit_two_pow_mul_add _ hlt, Nat.testBit_two_pow_sub_one,
    Nat.testBit_div_two_pow]
  generalize w - n = k at hle
  by_cases hk : j < k
  · simp [hk, Nat.lt_of_lt_of_le hk hle]
  · rw [Nat.sub_add_cancel (Nat.le_of_not_lt hk), BitVec.testBit_toNat]
    by_cases hj : j < w <;> simp [hj, hk]

theorem network_network (n : ℕ) (a : BitVec w) :
    network n (network n a) = network n a := by
  rw [network, network, BitVec.and_assoc, BitVec.and_self]

end Octets

end Foundation
