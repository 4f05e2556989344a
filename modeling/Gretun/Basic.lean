import Mathlib.Data.Nat.Digits.Defs

/-!
# Bytes, keys, time and contexts

A 32-byte array is a `Vector UInt8 32`, a byte slice a list. Times are
nanoseconds since the zero time of Go's `time` package, which is `0`; durations
are nanoseconds, and the difference of two times saturates at the range of a
64-bit duration.
-/

namespace Gretun

abbrev Bytes := List UInt8

/-- A `[32]byte`: a Curve25519 disco key. -/
abbrev Key := Vector UInt8 32

/-- `time.Time`, in nanoseconds after the zero time. -/
abbrev Time := ℤ

abbrev Duration := ℤ

namespace Time

def second : Duration := 1000000000

def maxDuration : Duration := 2 ^ 63 - 1

def minDuration : Duration := -2 ^ 63

def sub (t u : Time) : Duration := max minDuration (min maxDuration (t - u))

def isZero (t : Time) : Bool := t = 0

end Time

inductive CtxError where
  | canceled
  | deadlineExceeded
  deriving DecidableEq

def hexByte (b : UInt8) : List Char :=
  [Nat.digitChar (b.toNat / 16), Nat.digitChar (b.toNat % 16)]

def hexEncode (b : Bytes) : String := String.ofList (b.flatMap hexByte)

def hexValue (c : Char) : ℕ :=
  if c.toNat < 97 then c.toNat - 48 else c.toNat - 87

theorem hexValue_digitChar : ∀ n : Fin 16, hexValue (Nat.digitChar n) = n := by
  decide

theorem digitChar_inj {m n : ℕ} (hm : m < 16) (hn : n < 16)
    (h : Nat.digitChar m = Nat.digitChar n) : m = n := by
  have hm' : hexValue (Nat.digitChar m) = m := hexValue_digitChar ⟨m, hm⟩
  have hn' : hexValue (Nat.digitChar n) = n := hexValue_digitChar ⟨n, hn⟩
  rw [← hm', h, hn']

theorem hexByte_injective : Function.Injective hexByte := by
  intro a b h
  have ha := a.toNat_lt
  have hb := b.toNat_lt
  obtain ⟨hhi, hlo⟩ : Nat.digitChar (a.toNat / 16) = Nat.digitChar (b.toNat / 16) ∧
      Nat.digitChar (a.toNat % 16) = Nat.digitChar (b.toNat % 16) := by
    simpa [hexByte] using h
  have hhi' := digitChar_inj (by omega) (by omega) hhi
  have hlo' := digitChar_inj (by omega) (by omega) hlo
  apply UInt8.toNat.inj
  omega

theorem hexEncode_injective : Function.Injective hexEncode := by
  intro x y h
  have hchars : x.flatMap hexByte = y.flatMap hexByte :=
    String.ofList_injective h
  clear h
  induction x generalizing y with
  | nil =>
      cases y with
      | nil => rfl
      | cons b y => simp [hexByte] at hchars
  | cons a x ih =>
      cases y with
      | nil => simp [hexByte] at hchars
      | cons b y =>
          rw [List.flatMap_cons, List.flatMap_cons] at hchars
          obtain ⟨hbyte, hrest⟩ := List.append_inj hchars rfl
          rw [hexByte_injective hbyte, ih hrest]

end Gretun
