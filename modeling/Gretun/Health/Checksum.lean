import Gretun.Health.Probe
import Gretun.Foundation.EndAround

/-!
# The checksum of an echo request

`wordSum b` is the sum of the 16-bit words of `b` without a bound on its size. The
accumulator of `icmpChecksum` holds it for messages of up to 131072 bytes, so that
the checksum is the complement of that sum carried around. A message in which the
checksum has been stored has checksum zero.
-/

namespace Gretun

namespace Health

open Foundation.EndAround

/-- The exact sum of the big-endian 16-bit words of `b`, a last odd byte padded with
a zero. -/
def wordSum : Bytes → ℕ
  | hi :: lo :: b => hi.toNat * 256 + lo.toNat + wordSum b
  | [hi] => hi.toNat * 256
  | [] => 0

def carryStep (sum : UInt32) : UInt32 := (sum &&& (0xffff : UInt32)) + (sum >>> 16)

/-- `binary.BigEndian.PutUint16` into `b` at `k`. -/
def storeUint16 (b : Bytes) (k : ℕ) (v : UInt16) : Bytes :=
  (b.set k (v >>> 8).toUInt8).set (k + 1) v.toUInt8

/-! ## The accumulator -/

theorem toNat_word (hi lo : UInt8) :
    (hi.toUInt32 <<< 8 ||| lo.toUInt32).toNat = hi.toNat * 256 + lo.toNat := by
  have hhi := hi.toNat_lt
  have hlo := lo.toNat_lt
  have hshift : (hi.toUInt32 <<< 8).toNat = hi.toNat <<< 8 := by
    rw [UInt32.toNat_shiftLeft, UInt8.toNat_toUInt32]
    change hi.toNat <<< 8 % 2 ^ 32 = _
    rw [Nat.shiftLeft_eq]
    omega
  have hor : hi.toNat <<< 8 ||| lo.toNat = hi.toNat <<< 8 + lo.toNat :=
    (Nat.shiftLeft_add_eq_or_of_lt hlo hi.toNat).symm
  rw [UInt32.toNat_or, hshift, UInt8.toNat_toUInt32, hor]
  simp only [Nat.shiftLeft_eq, Nat.reducePow]

theorem toNat_last (hi : UInt8) : (hi.toUInt32 <<< 8).toNat = hi.toNat * 256 := by
  simpa using toNat_word hi 0

theorem wordSum_le (b : Bytes) : wordSum b ≤ 65535 * ((b.length + 1) / 2) := by
  induction b using wordSum.induct with
  | case1 hi lo b ih =>
      have hhi := hi.toNat_lt
      have hlo := lo.toNat_lt
      rw [wordSum, List.length_cons, List.length_cons]
      omega
  | case2 hi =>
      have hhi := hi.toNat_lt
      rw [wordSum, List.length_singleton]
      omega
  | case3 => rfl

theorem wordSum_lt {b : Bytes} (h : b.length ≤ 131072) : wordSum b < 2 ^ 32 := by
  have hle := wordSum_le b
  omega

theorem toNat_add_of_lt {x y : UInt32} (h : x.toNat + y.toNat < 2 ^ 32) :
    (x + y).toNat = x.toNat + y.toNat :=
  (UInt32.toNat_add x y).trans (Nat.mod_eq_of_lt h)

/-- While the exact sum fits, the accumulator holds it. -/
theorem toNat_sumWords {b : Bytes} {sum : UInt32}
    (h : sum.toNat + wordSum b < 2 ^ 32) :
    (sumWords b sum).toNat = sum.toNat + wordSum b := by
  induction b using wordSum.induct generalizing sum with
  | case1 hi lo b ih =>
      have hword := toNat_word hi lo
      rw [wordSum] at h ⊢
      have hadd : (sum + (hi.toUInt32 <<< 8 ||| lo.toUInt32)).toNat =
          sum.toNat + (hi.toUInt32 <<< 8 ||| lo.toUInt32).toNat :=
        toNat_add_of_lt (by omega)
      rw [sumWords, ih (by omega), hadd, hword, Nat.add_assoc]
  | case2 hi =>
      rw [wordSum] at h ⊢
      rw [sumWords, UInt32.toNat_add, toNat_last, Nat.mod_eq_of_lt h]
  | case3 => rfl

theorem toNat_sumWords_zero {b : Bytes} (h : b.length ≤ 131072) :
    (sumWords b 0).toNat = wordSum b := by
  have hlt := wordSum_lt h
  have hsum : (0 : UInt32).toNat + wordSum b < 2 ^ 32 →
      (sumWords b 0).toNat = (0 : UInt32).toNat + wordSum b := toNat_sumWords
  rw [UInt32.toNat_zero, Nat.zero_add] at hsum
  exact hsum hlt

/-! ## The carry -/

theorem toNat_carryStep (sum : UInt32) :
    (carryStep sum).toNat = carry 65536 sum.toNat :=
  toNat_carry sum

theorem shiftRight_eq_zero_iff (sum : UInt32) :
    sum >>> 16 = 0 ↔ sum.toNat < 65536 := by
  rw [← UInt32.toNat_inj, toNat_shiftRight_sixteen, UInt32.toNat_zero]
  omega

theorem foldCarry_of_lt {sum : UInt32} (h : sum >>> 16 = 0) : foldCarry sum = sum := by
  rw [foldCarry, if_neg (not_not.mpr h)]

theorem foldCarry_of_ne {sum : UInt32} (h : sum >>> 16 ≠ 0) :
    foldCarry sum = foldCarry (carryStep sum) := by
  rw [foldCarry, if_pos h]
  rfl

theorem toNat_foldCarry (sum : UInt32) :
    (foldCarry sum).toNat = endAround 65536 sum.toNat := by
  induction sum using foldCarry.induct with
  | case1 sum h ih =>
      rw [foldCarry_of_ne h, ← endAround_carry (by decide), ← toNat_carryStep]
      exact ih
  | case2 sum h =>
      rw [not_not] at h
      rw [foldCarry_of_lt h, endAround_of_lt ((shiftRight_eq_zero_iff sum).mp h)]

/-- The loop ends: it takes `n` turns, and the condition fails after them for the
first time. -/
theorem foldCarry_eq_iterate (sum : UInt32) :
    ∃ n, (∀ m < n, carryStep^[m] sum >>> 16 ≠ 0) ∧ carryStep^[n] sum >>> 16 = 0 ∧
      foldCarry sum = carryStep^[n] sum := by
  induction sum using foldCarry.induct with
  | case1 sum h ih =>
      obtain ⟨n, hbefore, hafter, heq⟩ := ih
      refine ⟨n + 1, fun m hm => ?_, hafter, (foldCarry_of_ne h).trans heq⟩
      cases m with
      | zero => exact h
      | succ m => exact hbefore m (Nat.lt_of_succ_lt_succ hm)
  | case2 sum h =>
      rw [not_not] at h
      exact ⟨0, fun m hm => absurd hm (Nat.not_lt_zero m), h, foldCarry_of_lt h⟩

/-! ## The checksum -/

theorem icmpChecksum_eq {b : Bytes} (h : b.length ≤ 131072) :
    icmpChecksum b = ~~~ UInt16.ofNat (endAround 65536 (wordSum b)) := by
  have hfold := toNat_foldCarry (sumWords b 0)
  rw [toNat_sumWords_zero h] at hfold
  rw [icmpChecksum, ← hfold]
  rfl

theorem toNat_icmpChecksum {b : Bytes} (h : b.length ≤ 131072) :
    (icmpChecksum b).toNat = 65535 - endAround 65536 (wordSum b) := by
  have hlt : endAround 65536 (wordSum b) < UInt16.size := endAround_lt (by decide) _
  rw [icmpChecksum_eq h, UInt16.toNat_not, UInt16.toNat_ofNat_of_lt' hlt]
  rfl

theorem toNat_bytes (v : UInt16) :
    (v >>> 8).toUInt8.toNat * 256 + v.toUInt8.toNat = v.toNat := by
  have hlt := v.toNat_lt
  have hhi : (v >>> 8).toUInt8.toNat = v.toNat / 256 := by
    rw [UInt16.toNat_toUInt8, UInt16.toNat_shiftRight]
    change v.toNat >>> 8 % 2 ^ 8 = _
    rw [Nat.shiftRight_eq_div_pow]
    omega
  rw [hhi, UInt16.toNat_toUInt8]
  omega

@[simp] theorem length_storeUint16 (b : Bytes) (k : ℕ) (v : UInt16) :
    (storeUint16 b k v).length = b.length := by
  rw [storeUint16, List.length_set, List.length_set]

/-- A value stored over zeros at an even offset is added to the sum. -/
theorem wordSum_storeUint16 {b : Bytes} {j : ℕ} (v : UInt16)
    (h₀ : b[2 * j]? = some 0) (h₁ : b[2 * j + 1]? = some 0) :
    wordSum (storeUint16 b (2 * j) v) = wordSum b + v.toNat := by
  induction j generalizing b with
  | zero =>
      obtain ⟨b, rfl⟩ : ∃ b', b = 0 :: 0 :: b' := by
        match b, h₀, h₁ with
        | hi :: lo :: b, h₀, h₁ =>
            exact ⟨b, by rw [Option.some.inj h₀, Option.some.inj h₁]⟩
      have hstored : storeUint16 (0 :: 0 :: b) (2 * 0) v =
          (v >>> 8).toUInt8 :: v.toUInt8 :: b := rfl
      rw [hstored, wordSum, wordSum, toNat_bytes, UInt8.toNat_zero, Nat.zero_mul,
        Nat.zero_add, Nat.add_comm]
  | succ j ih =>
      obtain ⟨hi, lo, b, rfl⟩ : ∃ hi lo b', b = hi :: lo :: b' := by
        match b, h₁ with
        | hi :: lo :: b, _ => exact ⟨hi, lo, b, rfl⟩
      have hstep := ih (b := b) h₀ h₁
      change hi.toNat * 256 + lo.toNat + wordSum (storeUint16 b (2 * j) v) =
        hi.toNat * 256 + lo.toNat + wordSum b + v.toNat
      rw [hstep, Nat.add_assoc, Nat.add_assoc, Nat.add_assoc]

/-- A message that holds its checksum has checksum zero. -/
theorem icmpChecksum_storeUint16 {b : Bytes} {k : ℕ} (h : b.length ≤ 131072)
    (hk : Even k) (h₀ : b[k]? = some 0) (h₁ : b[k + 1]? = some 0) :
    icmpChecksum (storeUint16 b k (icmpChecksum b)) = 0 := by
  obtain ⟨j, rfl⟩ := hk
  rw [← two_mul] at h₀ h₁ ⊢
  have hsum := wordSum_storeUint16 (icmpChecksum b) h₀ h₁
  have hcomplement := endAround_add_complement (B := 65536) (by decide) (wordSum b)
  rw [toNat_icmpChecksum h] at hsum
  rw [icmpChecksum_eq (by rwa [length_storeUint16]), hsum, hcomplement]
  decide

def echoRequest (pid : ℕ) : Bytes :=
  [icmpTypeEchoRequest, 0] ++ [0, 0] ++
    (putUint16 (UInt16.ofNat (pid &&& icmpIDMask)) ++ putUint16 icmpSequence ++ probeData)

theorem buildEchoRequest_eq (pid : ℕ) :
    buildEchoRequest pid =
      storeUint16 (echoRequest pid) 2 (icmpChecksum (echoRequest pid)) :=
  rfl

theorem length_echoRequest (pid : ℕ) : (echoRequest pid).length = 20 := by
  have hdata : probeData.length = 12 := by decide +kernel
  simp only [echoRequest, putUint16, List.length_append, List.length_cons,
    List.length_nil, hdata]

/-- The checksum verifies itself. For messages of up to 131072 bytes the accumulator
never wraps, the loop that folds the carry ends, the result is the complement of the
exact sum of the words carried around, and once it is stored over zeros at an even
offset the checksum of the message is zero. The echo requests are built so. -/
theorem icmpChecksum_verifies :
    (∀ b : Bytes, b.length ≤ 131072 →
      (∀ m, (sumWords (b.take m) 0).toNat = wordSum (b.take m) ∧
        wordSum (b.take m) < 2 ^ 32) ∧
      (∃ n, (∀ m < n, carryStep^[m] (sumWords b 0) >>> 16 ≠ 0) ∧
        carryStep^[n] (sumWords b 0) >>> 16 = 0 ∧
        foldCarry (sumWords b 0) = carryStep^[n] (sumWords b 0)) ∧
      icmpChecksum b = ~~~ UInt16.ofNat (endAround 65536 (wordSum b)) ∧
      ∀ k, Even k → b[k]? = some 0 → b[k + 1]? = some 0 →
        icmpChecksum (storeUint16 b k (icmpChecksum b)) = 0) ∧
    ∀ pid, (echoRequest pid).length ≤ 131072 ∧ (echoRequest pid)[2]? = some 0 ∧
      (echoRequest pid)[3]? = some 0 ∧
      buildEchoRequest pid =
        storeUint16 (echoRequest pid) 2 (icmpChecksum (echoRequest pid)) ∧
      icmpChecksum (buildEchoRequest pid) = 0 := by
  refine ⟨fun b hb => ⟨fun m => ?_, foldCarry_eq_iterate _, icmpChecksum_eq hb,
    fun k => icmpChecksum_storeUint16 hb⟩, fun pid => ?_⟩
  · have hm : (b.take m).length ≤ 131072 := (List.length_take_le' m b).trans hb
    exact ⟨toNat_sumWords_zero hm, wordSum_lt hm⟩
  · have hlen : (echoRequest pid).length ≤ 131072 := by
      rw [length_echoRequest]
      decide
    refine ⟨hlen, rfl, rfl, buildEchoRequest_eq pid, ?_⟩
    rw [buildEchoRequest_eq]
    exact icmpChecksum_storeUint16 hlen even_two rfl rfl

/-- An odd message whose sum carries around. -/
theorem icmpChecksum_verifies_odd :
    wordSum [255, 255, 0, 0, 3] = 66303 ∧
      icmpChecksum [255, 255, 0, 0, 3] =
        ~~~ UInt16.ofNat (endAround 65536 (wordSum [255, 255, 0, 0, 3])) ∧
      icmpChecksum (storeUint16 [255, 255, 0, 0, 3] 2
        (icmpChecksum [255, 255, 0, 0, 3])) = 0 :=
  have h := icmpChecksum_verifies.1 [255, 255, 0, 0, 3] (by decide)
  ⟨rfl, h.2.2.1, h.2.2.2 2 even_two rfl rfl⟩

end Health

end Gretun
