import Gretun.Net.Addr

/-!
# IPv4 prefixes

`Prefix.contains` is `netip.Prefix.Contains`: the address has the family of the
prefix and the same leading bits. For an IPv4 prefix this is an interval of
addresses, from the one with all host bits cleared to the one with all host bits
set; `Addr.next` walks through it and leaves it only at its last address.
-/

namespace Gretun

namespace Net

/-- `netip.Prefix`. The host bits of the address may be set. -/
structure Prefix where
  addr : Addr
  bits : ℕ
  bits_le : bits ≤ addr.bitLen

namespace Prefix

def contains (p : Prefix) (x : Addr) : Bool :=
  match p.addr, x with
  | .v4 a, .v4 b => (b ^^^ a) >>> (32 - p.bits) = 0
  | .v6 a _, .v6 b z => z = "" ∧ (b ^^^ a) >>> (128 - p.bits) = 0
  | _, _ => false

def ofV4 (a : BitVec 32) (bits : Fin 33) : Prefix :=
  ⟨.v4 a, bits, Nat.le_of_lt_succ bits.isLt⟩

def size (bits : Fin 33) : ℕ := 2 ^ (32 - bits.val)

def last (a : BitVec 32) (bits : Fin 33) : ℕ :=
  a.toNat / size bits * size bits + (size bits - 1)

theorem size_pos (bits : Fin 33) : 0 < size bits := Nat.two_pow_pos _

theorem xor_ushiftRight_eq_zero_iff (a b : BitVec 32) (k : ℕ) :
    (b ^^^ a) >>> k = 0 ↔ b.toNat / 2 ^ k = a.toNat / 2 ^ k := by
  rw [BitVec.ushiftRight_xor_distrib]
  have hxor : (b >>> k) ^^^ (a >>> k) = 0 ↔ b >>> k = a >>> k :=
    BitVec.xor_eq_zero_iff
  rw [hxor, ← BitVec.toNat_inj]
  simp [BitVec.toNat_ushiftRight, Nat.shiftRight_eq_div_pow]

theorem ofV4_contains_v4 (a b : BitVec 32) (bits : Fin 33) :
    (ofV4 a bits).contains (.v4 b) = true ↔
      b.toNat / size bits = a.toNat / size bits := by
  rw [size, ← xor_ushiftRight_eq_zero_iff]
  exact decide_eq_true_iff

theorem exists_v4_of_contains {a : BitVec 32} {bits : Fin 33} {x : Addr}
    (h : (ofV4 a bits).contains x = true) : ∃ b, x = .v4 b := by
  cases x with
  | zero => simp [contains, ofV4] at h
  | v4 b => exact ⟨b, rfl⟩
  | v6 b z => simp [contains, ofV4] at h

theorem le_last_of_contains {a b : BitVec 32} {bits : Fin 33}
    (h : (ofV4 a bits).contains (.v4 b) = true) : b.toNat ≤ last a bits := by
  have hdiv := (ofV4_contains_v4 a b bits).1 h
  have hpos := size_pos bits
  have hsplit := Nat.div_add_mod b.toNat (size bits)
  have hmod := Nat.mod_lt b.toNat hpos
  rw [hdiv, Nat.mul_comm] at hsplit
  unfold last
  omega

theorem last_lt (a : BitVec 32) (bits : Fin 33) : last a bits < 2 ^ 32 := by
  have hpos := size_pos bits
  have hlt : a.toNat / size bits < 2 ^ bits.val := by
    rw [Nat.div_lt_iff_lt_mul hpos, size, ← Nat.pow_add,
      Nat.add_sub_cancel' (Nat.le_of_lt_succ bits.isLt)]
    exact a.isLt
  have hmul : (a.toNat / size bits + 1) * size bits ≤ 2 ^ bits.val * size bits :=
    Nat.mul_le_mul_right _ hlt
  rw [size, ← Nat.pow_add, Nat.add_sub_cancel' (Nat.le_of_lt_succ bits.isLt),
    ← size, Nat.add_mul, Nat.one_mul] at hmul
  unfold last
  omega

/-- An address from the prefix address up to the last one is in the prefix. -/
theorem contains_of_le_last {a b : BitVec 32} {bits : Fin 33}
    (hle : a.toNat ≤ b.toNat) (hlast : b.toNat ≤ last a bits) :
    (ofV4 a bits).contains (.v4 b) = true := by
  rw [ofV4_contains_v4]
  have hpos := size_pos bits
  unfold last at hlast
  apply Nat.le_antisymm
  · apply Nat.le_of_lt_succ
    rw [Nat.div_lt_iff_lt_mul hpos, Nat.succ_eq_add_one, Nat.add_mul,
      Nat.one_mul]
    omega
  · exact Nat.div_le_div_right hle

/-- The successor of an address of the prefix is in the prefix unless the
address is the last one. -/
theorem contains_next_iff {a b : BitVec 32} {bits : Fin 33}
    (hle : a.toNat ≤ b.toNat)
    (hb : (ofV4 a bits).contains (.v4 b) = true) :
    (ofV4 a bits).contains (Addr.next (.v4 b)) = true ↔
      b.toNat < last a bits := by
  have hblast := le_last_of_contains hb
  by_cases hmax : b = BitVec.allOnes 32
  · have hval : b.toNat = 2 ^ 32 - 1 := by simp [hmax]
    have hlt := last_lt a bits
    simp only [Addr.next, hmax, if_true]
    constructor
    · intro h
      simp [contains, ofV4] at h
    · intro h
      rw [← hmax] at h
      omega
  · have hne : b.toNat ≠ 2 ^ 32 - 1 := by
      intro h
      exact hmax (BitVec.eq_of_toNat_eq (by simp [h]))
    have hlt := b.isLt
    have hone : (1 : BitVec 32).toNat = 1 := rfl
    have hsucc : (b + 1).toNat = b.toNat + 1 := by
      rw [BitVec.toNat_add, hone]
      omega
    simp only [Addr.next, hmax, if_false]
    constructor
    · intro h
      have := le_last_of_contains h
      omega
    · intro h
      exact contains_of_le_last (by omega) (by omega)

end Prefix

end Net

end Gretun
