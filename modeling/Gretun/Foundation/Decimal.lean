import Mathlib.Data.Nat.Digits.Defs

/-!
# Decimal texts of fixed-width integers

Reading a decimal integer of `w` bits, with an optional sign, digit by digit, and
writing one. A text that is read has only a sign and digits, and what is written
is read back.
-/

namespace Foundation

namespace Decimal

inductive NumError where
  | malformed
  | outOfRange
  deriving DecidableEq

def digit (c : Char) : Option ℕ :=
  if c.isDigit then some (c.toNat - 48) else none

/-- The digits `cs` after a number `n`; every number on the way is below
`limit`. -/
def parseDigits (limit : ℕ) : ℕ → List Char → Except NumError ℕ
  | n, [] => .ok n
  | n, c :: cs =>
      match digit c with
      | none => .error .malformed
      | some d =>
          if n * 10 + d < limit then parseDigits limit (n * 10 + d) cs
          else .error .outOfRange

def parseUint (w : ℕ) (cs : List Char) : Except NumError ℕ :=
  if cs = [] then .error .malformed else parseDigits (2 ^ w) 0 cs

def splitSign : List Char → Bool × List Char
  | '+' :: cs => (false, cs)
  | '-' :: cs => (true, cs)
  | cs => (false, cs)

def signed (w : ℕ) (neg : Bool) (n : ℕ) : Except NumError ℤ :=
  if neg then
    if n ≤ 2 ^ (w - 1) then .ok (-n) else .error .outOfRange
  else
    if n < 2 ^ (w - 1) then .ok n else .error .outOfRange

def parseInt (w : ℕ) (cs : List Char) : Except NumError ℤ := do
  let n ← parseUint w (splitSign cs).2
  signed w (splitSign cs).1 n

def formatInt (z : ℤ) : String := toString z

/-! ## What is read -/

theorem isDigit_of_parseDigits {limit n m : ℕ} {cs : List Char}
    (h : parseDigits limit n cs = .ok m) : ∀ c ∈ cs, c.isDigit := by
  induction cs generalizing n with
  | nil => simp
  | cons c cs ih =>
      by_cases hc : c.isDigit
      · simp only [parseDigits, digit, hc, if_true] at h
        split at h
        · intro c' hc'
          rcases List.mem_cons.1 hc' with rfl | hmem
          · exact hc
          · exact ih h c' hmem
        · cases h
      · simp [parseDigits, digit, hc] at h

theorem mem_of_splitSign {cs : List Char} {c : Char} (h : c ∈ cs) :
    c = '+' ∨ c = '-' ∨ c ∈ (splitSign cs).2 := by
  unfold splitSign
  split
  · rcases List.mem_cons.1 h with rfl | hmem
    · exact Or.inl rfl
    · exact Or.inr (Or.inr hmem)
  · rcases List.mem_cons.1 h with rfl | hmem
    · exact Or.inr (Or.inl rfl)
    · exact Or.inr (Or.inr hmem)
  · exact Or.inr (Or.inr h)

theorem char_of_parseInt {w : ℕ} {cs : List Char} {z : ℤ}
    (h : parseInt w cs = .ok z) {c : Char} (hc : c ∈ cs) :
    c = '+' ∨ c = '-' ∨ c.isDigit := by
  rcases mem_of_splitSign hc with hsign | hsign | hmem
  · exact Or.inl hsign
  · exact Or.inr (Or.inl hsign)
  · refine Or.inr (Or.inr ?_)
    cases hn : parseUint w (splitSign cs).2 with
    | error err =>
        rw [parseInt, hn] at h
        cases h
    | ok n =>
        rw [parseUint] at hn
        split at hn
        · cases hn
        · exact isDigit_of_parseDigits hn c hmem

theorem range_of_signed {w : ℕ} {neg : Bool} {n : ℕ} {z : ℤ}
    (h : signed w neg n = .ok z) : -2 ^ (w - 1) ≤ z ∧ z < 2 ^ (w - 1) := by
  have hpos : (0 : ℤ) < 2 ^ (w - 1) := by positivity
  unfold signed at h
  split at h
  · split at h
    · rename_i hn
      obtain rfl := Except.ok.inj h
      have hle : (n : ℤ) ≤ 2 ^ (w - 1) := by exact_mod_cast hn
      constructor <;> linarith
    · cases h
  · split at h
    · rename_i hn
      obtain rfl := Except.ok.inj h
      have hlt : (n : ℤ) < 2 ^ (w - 1) := by exact_mod_cast hn
      constructor <;> linarith
    · cases h

theorem range_of_parseInt {w : ℕ} {cs : List Char} {z : ℤ}
    (h : parseInt w cs = .ok z) : -2 ^ (w - 1) ≤ z ∧ z < 2 ^ (w - 1) := by
  rw [parseInt] at h
  cases hn : parseUint w (splitSign cs).2 with
  | error err =>
      rw [hn] at h
      cases h
  | ok n =>
      rw [hn] at h
      exact range_of_signed h

/-! ## What is written is read back -/

theorem parseDigits_append (limit n : ℕ) (xs ys : List Char) :
    parseDigits limit n (xs ++ ys) =
      (parseDigits limit n xs).bind fun m => parseDigits limit m ys := by
  induction xs generalizing n with
  | nil => rfl
  | cons x xs ih =>
      simp only [List.cons_append, parseDigits]
      cases digit x with
      | none => rfl
      | some d =>
          dsimp only
          split
          · exact ih _
          · rfl

theorem digit_digitChar : ∀ d < 10, digit (Nat.digitChar d) = some d := by
  decide

theorem parseDigits_digitChar {limit n d : ℕ} (hd : d < 10)
    (hlimit : n * 10 + d < limit) :
    parseDigits limit n [Nat.digitChar d] = .ok (n * 10 + d) := by
  simp [parseDigits, digit_digitChar d hd, hlimit]

theorem parseDigits_toDigits {limit n : ℕ} (h : n < limit) :
    parseDigits limit 0 (Nat.toDigits 10 n) = .ok n := by
  induction n using Nat.strong_induction_on with
  | _ n ih =>
      rw [Nat.toDigits_eq_if (by omega)]
      split
      · rename_i hn
        have hone : parseDigits limit 0 [Nat.digitChar n] = .ok (0 * 10 + n) :=
          parseDigits_digitChar hn (by omega)
        simpa using hone
      · rename_i hn
        rw [parseDigits_append, ih (n / 10) (by omega) (by omega)]
        change parseDigits limit (n / 10) _ = _
        rw [parseDigits_digitChar (Nat.mod_lt n (by omega)) (by omega)]
        congr 1
        omega

theorem toDigits_ne_nil (n : ℕ) : Nat.toDigits 10 n ≠ [] := by
  rw [Nat.toDigits_eq_if (by omega)]
  split <;> simp

theorem parseUint_toDigits {w n : ℕ} (h : n < 2 ^ w) :
    parseUint w (Nat.toDigits 10 n) = .ok n := by
  rw [parseUint, if_neg (toDigits_ne_nil n), parseDigits_toDigits h]

theorem splitSign_toDigits (n : ℕ) :
    splitSign (Nat.toDigits 10 n) = (false, Nat.toDigits 10 n) := by
  unfold splitSign
  split
  · rename_i cs h
    have hplus := Nat.isDigit_of_mem_toDigits (by decide) (by decide)
      (h ▸ List.mem_cons_self : '+' ∈ Nat.toDigits 10 n)
    exact absurd hplus (by decide)
  · rename_i cs h
    have hminus := Nat.isDigit_of_mem_toDigits (by decide) (by decide)
      (h ▸ List.mem_cons_self : '-' ∈ Nat.toDigits 10 n)
    exact absurd hminus (by decide)
  · rfl

theorem toList_formatInt_ofNat (n : ℕ) :
    (formatInt (Int.ofNat n)).toList = Nat.toDigits 10 n := by
  change (Nat.repr n).toList = _
  simp [Nat.repr]

theorem toList_formatInt_negSucc (n : ℕ) :
    (formatInt (Int.negSucc n)).toList = '-' :: Nat.toDigits 10 (n + 1) := by
  change ("-" ++ Nat.repr (n + 1)).toList = _
  simp [Nat.repr]

theorem parseInt_formatInt {w : ℕ} (hw : 0 < w) {z : ℤ}
    (hlow : -2 ^ (w - 1) ≤ z) (hhigh : z < 2 ^ (w - 1)) :
    parseInt w (formatInt z).toList = .ok z := by
  have hlt : 2 ^ (w - 1) < 2 ^ w := Nat.pow_lt_pow_right (by omega) (by omega)
  cases z with
  | ofNat n =>
      have hn : n < 2 ^ (w - 1) := by
        rw [Int.ofNat_eq_natCast] at hhigh
        exact_mod_cast hhigh
      rw [toList_formatInt_ofNat, parseInt, splitSign_toDigits,
        parseUint_toDigits (hn.trans hlt)]
      change signed w false n = _
      simp [signed, hn]
  | negSucc n =>
      have hn : n + 1 ≤ 2 ^ (w - 1) := by
        rw [Int.negSucc_eq] at hlow
        have hle : (n : ℤ) + 1 ≤ 2 ^ (w - 1) := by linarith
        exact_mod_cast hle
      have hsplit : splitSign ('-' :: Nat.toDigits 10 (n + 1)) =
          (true, Nat.toDigits 10 (n + 1)) := rfl
      rw [toList_formatInt_negSucc, parseInt, hsplit,
        parseUint_toDigits (lt_of_le_of_lt hn hlt)]
      change signed w true (n + 1) = _
      simp [signed, hn, Int.negSucc_eq]

end Decimal

end Foundation
