import Mathlib.Algebra.Group.Nat.Defs
import Mathlib.Data.List.Basic

/-!
# Base64

The standard alphabet with padding. A text is a list of characters. Encoding
takes three bytes to four characters; decoding collects the values of four
characters at a time, skips line ends wherever they stand, and gives the position
of the first character that does not fit. Bits that the last group has too many
are ignored.
-/

namespace Foundation

namespace Base64

def char (v : ℕ) : Char :=
  if v < 26 then Char.ofNat (65 + v)
  else if v < 52 then Char.ofNat (71 + v)
  else if v < 62 then Char.ofNat (v - 4)
  else if v = 62 then '+'
  else '/'

def value (c : Char) : Option ℕ :=
  let n := c.toNat
  if 65 ≤ n ∧ n ≤ 90 then some (n - 65)
  else if 97 ≤ n ∧ n ≤ 122 then some (n - 71)
  else if 48 ≤ n ∧ n ≤ 57 then some (n + 4)
  else if c = '+' then some 62
  else if c = '/' then some 63
  else none

def isNewline (c : Char) : Bool := c = '\n' || c = '\r'

/-! ## Encoding -/

/-- The `i`-th of the four values in a group of 24 bits. -/
def sextet (n i : ℕ) : ℕ := n / 64 ^ (3 - i) % 64

/-- The `i`-th of the three bytes in a group of 24 bits. -/
def octet (n i : ℕ) : UInt8 := UInt8.ofNat (n / 256 ^ (2 - i))

def group (a b c : UInt8) : ℕ := a.toNat * 65536 + b.toNat * 256 + c.toNat

def encode : List UInt8 → List Char
  | [] => []
  | [a] =>
      let n := group a 0 0
      [char (sextet n 0), char (sextet n 1), '=', '=']
  | [a, b] =>
      let n := group a b 0
      [char (sextet n 0), char (sextet n 1), char (sextet n 2), '=']
  | a :: b :: c :: rest =>
      let n := group a b c
      [char (sextet n 0), char (sextet n 1), char (sextet n 2),
        char (sextet n 3)] ++ encode rest

/-! ## Decoding -/

def bits (u v w x : ℕ) : ℕ := u * 262144 + v * 4096 + w * 64 + x

/-- After the last padding character at most line ends may follow. -/
def atEnd (pos : ℕ) (out : List UInt8) (cs : List Char) :
    Except ℕ (List UInt8) :=
  match cs.dropWhile isNewline with
  | [] => .ok out
  | c :: rest => .error (pos + cs.length - (c :: rest).length)

/-- Decode the rest of a text from position `pos` on, `vs` being the values of the
group that is being read. An error is the position of the fault. -/
def decodeFrom (pos : ℕ) (vs : List ℕ) : List Char → Except ℕ (List UInt8)
  | [] => if vs = [] then .ok [] else .error (pos - vs.length)
  | c :: cs =>
      match value c with
      | some x =>
          match vs with
          | [u, v, w] => do
              let n := bits u v w x
              let rest ← decodeFrom (pos + 1) [] cs
              return octet n 0 :: octet n 1 :: octet n 2 :: rest
          | vs => decodeFrom (pos + 1) (vs ++ [x]) cs
      | none =>
          if isNewline c then decodeFrom (pos + 1) vs cs
          else if c ≠ '=' then .error pos
          else
            match vs with
            | [u, v] =>
                -- one more padding character is due
                match cs.dropWhile isNewline with
                | [] => .error (pos + 1 + cs.length)
                | c' :: rest =>
                    let pos' := pos + 1 + cs.length - (c' :: rest).length
                    if c' ≠ '=' then .error (pos' - 1)
                    else atEnd (pos' + 1) [octet (bits u v 0 0) 0] rest
            | [u, v, w] =>
                let n := bits u v w 0
                atEnd (pos + 1) [octet n 0, octet n 1] cs
            | _ => .error pos

def decode (cs : List Char) : Except ℕ (List UInt8) := decodeFrom 0 [] cs

/-! ## Decoding what was encoded -/

theorem value_char : ∀ v < 64, value (char v) = some v := by
  decide

theorem sextet_lt (n i : ℕ) : sextet n i < 64 := Nat.mod_lt _ (by omega)

theorem group_lt (a b c : UInt8) : group a b c < 16777216 := by
  have ha := a.toNat_lt
  have hb := b.toNat_lt
  have hc := c.toNat_lt
  unfold group
  omega

theorem bits_sextets {n : ℕ} (h : n < 16777216) :
    bits (sextet n 0) (sextet n 1) (sextet n 2) (sextet n 3) = n := by
  simp only [bits, sextet]
  omega

theorem octets_group (a b c : UInt8) :
    octet (group a b c) 0 = a ∧ octet (group a b c) 1 = b ∧
      octet (group a b c) 2 = c := by
  have ha := a.toNat_lt
  have hb := b.toNat_lt
  have hc := c.toNat_lt
  refine ⟨?_, ?_, ?_⟩ <;> apply UInt8.toNat.inj <;>
    simp only [octet, group, UInt8.toNat_ofNat'] <;> omega

theorem decodeFrom_three (pos : ℕ) {u v w : ℕ} (hu : u < 64) (hv : v < 64)
    (hw : w < 64) (cs : List Char) :
    decodeFrom pos [] (char u :: char v :: char w :: cs) =
      decodeFrom (pos + 3) [u, v, w] cs := by
  simp [decodeFrom, value_char u hu, value_char v hv, value_char w hw]

theorem decodeFrom_two (pos : ℕ) {u v : ℕ} (hu : u < 64) (hv : v < 64)
    (cs : List Char) :
    decodeFrom pos [] (char u :: char v :: cs) =
      decodeFrom (pos + 2) [u, v] cs := by
  simp [decodeFrom, value_char u hu, value_char v hv]

theorem decodeFrom_group (pos : ℕ) (a b c : UInt8) (cs : List Char) :
    decodeFrom pos [] (char (sextet (group a b c) 0) ::
        char (sextet (group a b c) 1) :: char (sextet (group a b c) 2) ::
        char (sextet (group a b c) 3) :: cs) =
      (decodeFrom (pos + 4) [] cs).map fun rest => a :: b :: c :: rest := by
  obtain ⟨ha, hb, hc⟩ := octets_group a b c
  rw [decodeFrom_three pos (sextet_lt _ 0) (sextet_lt _ 1) (sextet_lt _ 2),
    decodeFrom, value_char _ (sextet_lt _ 3)]
  simp only [bits_sextets (group_lt a b c), ha, hb, hc]
  cases decodeFrom (pos + 4) [] cs <;> rfl

theorem decodeFrom_last_one (pos : ℕ) (a : UInt8) :
    decodeFrom pos [] (encode [a]) = .ok [a] := by
  have hlast : bits (sextet (group a 0 0) 0) (sextet (group a 0 0) 1) 0 0 =
      group a 0 0 := by
    have ha := a.toNat_lt
    simp only [bits, sextet, group, UInt8.toNat_zero]
    omega
  rw [encode, decodeFrom_two pos (sextet_lt _ 0) (sextet_lt _ 1), decodeFrom]
  simp [value, isNewline, List.dropWhile, atEnd, hlast, (octets_group a 0 0).1]

theorem decodeFrom_last_two (pos : ℕ) (a b : UInt8) :
    decodeFrom pos [] (encode [a, b]) = .ok [a, b] := by
  have hlast : bits (sextet (group a b 0) 0) (sextet (group a b 0) 1)
      (sextet (group a b 0) 2) 0 = group a b 0 := by
    have ha := a.toNat_lt
    have hb := b.toNat_lt
    simp only [bits, sextet, group, UInt8.toNat_zero]
    omega
  obtain ⟨ha, hb, -⟩ := octets_group a b 0
  rw [encode, decodeFrom_three pos (sextet_lt _ 0) (sextet_lt _ 1)
    (sextet_lt _ 2), decodeFrom]
  simp [value, isNewline, List.dropWhile, atEnd, hlast, ha, hb]

theorem decodeFrom_encode (pos : ℕ) (bs : List UInt8) :
    decodeFrom pos [] (encode bs) = .ok bs := by
  induction bs using encode.induct generalizing pos with
  | case1 => rfl
  | case2 a => exact decodeFrom_last_one pos a
  | case3 a b => exact decodeFrom_last_two pos a b
  | case4 a b c rest ih =>
      rw [encode]
      change decodeFrom pos [] (_ :: _ :: _ :: _ :: encode rest) = _
      rw [decodeFrom_group, ih]
      rfl

theorem decode_encode (bs : List UInt8) : decode (encode bs) = .ok bs :=
  decodeFrom_encode 0 bs

theorem encode_ne_nil {bs : List UInt8} (h : bs ≠ []) : encode bs ≠ [] := by
  fun_cases encode bs
  · exact absurd rfl h
  · simp
  · simp
  · simp

end Base64

end Foundation
