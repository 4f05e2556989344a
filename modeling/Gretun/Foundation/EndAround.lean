import Mathlib.Data.Nat.ModEq
import Mathlib.Tactic.Ring

/-!
# End-around carry

In one's complement arithmetic to the base `B` the carry out of the highest digit is
added back at the lowest one. `endAround B n` does so until one digit is left. That
digit is the residue of `n` modulo `B - 1`, where a number other than zero that is a
multiple of `B - 1` gives `B - 1` and not zero.
-/

namespace Foundation

namespace EndAround

/-- Add what stands above the lowest digit back to it. -/
def carry (B n : ℕ) : ℕ := n % B + n / B

theorem carry_of_lt {B n : ℕ} (h : n < B) : carry B n = n := by
  rw [carry, Nat.mod_eq_of_lt h, Nat.div_eq_of_lt h, Nat.add_zero]

theorem carry_lt {B n : ℕ} (hB : 2 ≤ B) (h : B ≤ n) : carry B n < n := by
  have hdiv : 1 ≤ n / B := (Nat.one_le_div_iff (by omega)).mpr h
  have hmul : 2 * (n / B) ≤ B * (n / B) := Nat.mul_le_mul_right _ hB
  have hn := Nat.mod_add_div n B
  unfold carry
  omega

theorem carry_modEq {B : ℕ} (hB : 2 ≤ B) (n : ℕ) : carry B n ≡ n [MOD B - 1] := by
  obtain ⟨c, rfl⟩ : ∃ c, B = c + 1 := ⟨B - 1, by omega⟩
  have hn : n = carry (c + 1) n + c * (n / (c + 1)) := by
    conv_lhs => rw [← Nat.mod_add_div n (c + 1)]
    unfold carry
    ring
  have hmod : carry (c + 1) n + c * (n / (c + 1)) ≡ carry (c + 1) n [MOD c] := by
    unfold Nat.ModEq
    rw [Nat.add_mul_mod_self_left]
  rw [← hn] at hmod
  exact hmod.symm

theorem carry_pos {B n : ℕ} (h : 0 < n) : 0 < carry B n := by
  have hn := Nat.mod_add_div n B
  rcases Nat.eq_zero_or_pos (n / B) with h0 | hpos
  · rw [h0, Nat.mul_zero] at hn
    unfold carry
    omega
  · unfold carry
    omega

def endAround (B n : ℕ) : ℕ :=
  if 2 ≤ B ∧ B ≤ n then endAround B (carry B n) else n
termination_by n
decreasing_by
  rename_i h
  exact carry_lt h.1 h.2

section Base

variable {B : ℕ}

theorem endAround_of_lt {n : ℕ} (h : n < B) : endAround B n = n := by
  rw [endAround, if_neg]
  omega

theorem endAround_carry (hB : 2 ≤ B) (n : ℕ) :
    endAround B (carry B n) = endAround B n := by
  rcases Nat.lt_or_ge n B with h | h
  · rw [carry_of_lt h]
  · rw [endAround.eq_1 B n, if_pos ⟨hB, h⟩]

/-- To show something of `endAround B n`, show it of single digits and back along one
carry. -/
theorem endAround_induct (hB : 2 ≤ B) {P : ℕ → ℕ → Prop}
    (digit : ∀ n < B, P n n)
    (step : ∀ n, B ≤ n → P (carry B n) (endAround B n) → P n (endAround B n)) (n : ℕ) :
    P n (endAround B n) := by
  induction n using Nat.strong_induction_on with
  | _ n ih =>
      rcases Nat.lt_or_ge n B with h | h
      · rw [endAround_of_lt h]
        exact digit n h
      · refine step n h ?_
        rw [← endAround_carry hB]
        exact ih _ (carry_lt hB h)

theorem endAround_lt (hB : 2 ≤ B) (n : ℕ) : endAround B n < B :=
  endAround_induct hB (P := fun _ r => r < B) (fun _ h => h) (fun _ _ h => h) n

theorem endAround_modEq (hB : 2 ≤ B) (n : ℕ) : endAround B n ≡ n [MOD B - 1] :=
  endAround_induct hB (P := fun n r => r ≡ n [MOD B - 1])
    (fun _ _ => Nat.ModEq.refl _) (fun n _ h => h.trans (carry_modEq hB n)) n

theorem endAround_pos (hB : 2 ≤ B) {n : ℕ} (h : 0 < n) : 0 < endAround B n :=
  endAround_induct hB (P := fun n r => 0 < n → 0 < r) (fun _ _ h => h)
    (fun _ _ h hn => h (carry_pos hn)) n h

/-- Of the two representations of zero a number other than zero gets the high one. -/
theorem endAround_of_dvd (hB : 2 ≤ B) {n : ℕ} (hn : 0 < n) (h : B - 1 ∣ n) :
    endAround B n = B - 1 := by
  have hdvd : B - 1 ∣ endAround B n :=
    ((endAround_modEq hB n).dvd_iff dvd_rfl).mpr h
  have hle := Nat.le_of_dvd (endAround_pos hB hn) hdvd
  have hlt := endAround_lt hB n
  omega

/-- A number together with the complement of its sum carries around to all ones. -/
theorem endAround_add_complement (hB : 2 ≤ B) (n : ℕ) :
    endAround B (n + (B - 1 - endAround B n)) = B - 1 := by
  have hlt := endAround_lt hB n
  refine endAround_of_dvd hB ?_ ?_
  · rcases Nat.eq_zero_or_pos n with rfl | hpos
    · rw [endAround_of_lt (by omega)]
      omega
    · omega
  · have hmod : endAround B n + (B - 1 - endAround B n) ≡
        n + (B - 1 - endAround B n) [MOD B - 1] :=
      (endAround_modEq hB n).add_right _
    have hself : endAround B n + (B - 1 - endAround B n) = B - 1 := by omega
    rw [hself] at hmod
    exact (hmod.dvd_iff dvd_rfl).mp dvd_rfl

end Base

end EndAround

end Foundation
