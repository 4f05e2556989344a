import Gretun.Foundation.Cut
import Mathlib.Data.BitVec

/-!
# Addresses, ports and prefixes

The address types of Go's `net/netip`: an `Addr` is the zero address, an IPv4
address or an IPv6 address with a zone; an `AddrPort` adds a port; a `Prefix` is
an address, whose host bits may be set, with a prefix length. The text forms are
those of `Addr.String`, and the text of an IPv4 address determines it.
-/

namespace Gretun

namespace Net

abbrev Port := BitVec 16

inductive Addr where
  | zero
  | v4 (a : BitVec 32)
  | v6 (a : BitVec 128) (zone : String)
  deriving DecidableEq, Inhabited

structure AddrPort where
  addr : Addr
  port : Port
  deriving DecidableEq, Inhabited

def AddrPort.zero : AddrPort := ⟨.zero, 0⟩

namespace Addr

def isValid : Addr → Bool
  | zero => false
  | _ => true

def bitLen : Addr → ℕ
  | zero => 0
  | v4 _ => 32
  | v6 _ _ => 128

def value : Addr → ℕ
  | zero => 0
  | v4 a => a.toNat
  | v6 a _ => a.toNat

def zone : Addr → String
  | v6 _ z => z
  | _ => ""

/-- `Addr.Next`: the zero address after the last one. -/
def next : Addr → Addr
  | zero => zero
  | v4 a => if a = BitVec.allOnes 32 then zero else v4 (a + 1)
  | v6 a z => if a = BitVec.allOnes 128 then zero else v6 (a + 1) z

/-- `Addr.Less`: by family, then by value, then by zone. -/
def less (x y : Addr) : Bool :=
  x.bitLen < y.bitLen ∨
    x.bitLen = y.bitLen ∧
      (x.value < y.value ∨ x.value = y.value ∧ x.zone < y.zone)

def asSlice : Addr → List UInt8
  | zero => []
  | v4 a => (List.range 4).map fun i => ⟨(a >>> (8 * (3 - i))).setWidth 8⟩
  | v6 a _ => (List.range 16).map fun i => ⟨(a >>> (8 * (15 - i))).setWidth 8⟩

end Addr

/-! ## Text forms -/

def string4Chars (a : BitVec 32) : List Char :=
  Nat.toDigits 10 (a.toNat / 2 ^ 24) ++
    '.' :: (Nat.toDigits 10 (a.toNat / 2 ^ 16 % 256) ++
      '.' :: (Nat.toDigits 10 (a.toNat / 2 ^ 8 % 256) ++
        '.' :: Nat.toDigits 10 (a.toNat % 256)))

def string4 (a : BitVec 32) : String := String.ofList (string4Chars a)

/-- The longest run of at least two zero groups, as its start and end; the first
one where there are several. -/
def zeroRun (gs : List ℕ) : ℕ × ℕ :=
  (List.range gs.length).foldl
    (fun best i =>
      let n := ((gs.drop i).takeWhile (· = 0)).length
      if 2 ≤ n ∧ best.2 - best.1 < n then (i, i + n) else best)
    (0, 0)

def string6 (a : BitVec 128) : String :=
  let gs := (List.range 8).map fun i => a.toNat / 2 ^ (16 * (7 - i)) % 2 ^ 16
  let run := zeroRun gs
  let text (l : List ℕ) := ":".intercalate (l.map fun g => String.ofList (Nat.toDigits 16 g))
  if run.1 = run.2 then text gs
  else text (gs.take run.1) ++ "::" ++ text (gs.drop run.2)

def Addr.string : Addr → String
  | .zero => "invalid IP"
  | .v4 a => string4 a
  | .v6 a z =>
      (if a.toNat / 2 ^ 32 = 0xffff then "::ffff:" ++ string4 (a.setWidth 32)
        else string6 a) ++ (if z = "" then "" else "%" ++ z)

def AddrPort.string (p : AddrPort) : String :=
  match p.addr with
  | .zero => "invalid AddrPort"
  | .v4 a => string4 a ++ ":" ++ toString p.port.toNat
  | .v6 a z => "[" ++ Addr.string (.v6 a z) ++ "]:" ++ toString p.port.toNat

example : Addr.string (.v4 0x6440000a#32) = "100.64.0.10" := by decide +kernel

theorem dot_notMem_toDigits (n : ℕ) : '.' ∉ Nat.toDigits 10 n := by
  intro h
  have hdigit := Nat.isDigit_of_mem_toDigits (by decide) (by decide) h
  exact absurd hdigit (by decide)

theorem toDigits_ten_injective : Function.Injective (Nat.toDigits 10) := by
  intro n m h
  rw [← Nat.ofDigitChars_ten_toDigits (n := n), h,
    Nat.ofDigitChars_ten_toDigits]

theorem toString_nat_injective :
    Function.Injective (toString : ℕ → String) := by
  intro n m h
  exact toDigits_ten_injective (String.ofList_injective h)

theorem dotted_inj {x y : ℕ} {r s : List Char}
    (h : Nat.toDigits 10 x ++ '.' :: r = Nat.toDigits 10 y ++ '.' :: s) :
    x = y ∧ r = s := by
  obtain ⟨hd, hr⟩ :=
    Foundation.Cut.append_sep_inj (dot_notMem_toDigits x) (dot_notMem_toDigits y) h
  exact ⟨toDigits_ten_injective hd, hr⟩

theorem string4_injective : Function.Injective string4 := by
  intro a b h
  have hchars : string4Chars a = string4Chars b := String.ofList_injective h
  have ha := a.isLt
  have hb := b.isLt
  obtain ⟨h3, hrest⟩ := dotted_inj hchars
  obtain ⟨h2, hrest⟩ := dotted_inj hrest
  obtain ⟨h1, hrest⟩ := dotted_inj hrest
  have h0 := toDigits_ten_injective hrest
  apply BitVec.eq_of_toNat_eq
  omega

end Net

end Gretun
