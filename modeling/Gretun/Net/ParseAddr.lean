import Gretun.Foundation.Decimal
import Gretun.Net.Ip
import Gretun.Net.Prefix

/-!
# Reading addresses

`netip.ParseAddr`, and the two readers of an address with a length that the program
uses: `net.ParseCIDR` and `netip.ParsePrefix`. The reader of IPv6 texts is a parameter;
the texts that are written here are those of IPv4 addresses, and they are read back.
-/

namespace Gretun

namespace Net

open Foundation
open Foundation.Decimal

/-- `parseIPv4Fields`: the fields so far, the value of the current one and the number
of its digits. -/
def parseIPv4Fields (fields : List ℕ) (val digLen : ℕ) : List Char → Option (List ℕ)
  | [] => if fields.length < 3 then none else some (fields ++ [val])
  | c :: cs =>
      match digit c with
      | some d =>
          -- a leading zero, or a value that is too large
          if digLen = 1 ∧ val = 0 then none
          else if 255 < val * 10 + d then none
          else parseIPv4Fields fields (val * 10 + d) (digLen + 1) cs
      | none =>
          if c = '.' then
            if digLen = 0 ∨ cs = [] then none
            else if fields.length = 3 then none
            else parseIPv4Fields (fields ++ [val]) 0 0 cs
          else none

def addrFrom4 (fields : List ℕ) : Addr :=
  .v4 (BitVec.ofNat 32 (fields.foldl (fun n b => 256 * n + b) 0))

/-- `netip.ParseAddr`: the first dot, colon or percent sign decides what is read. -/
def parseAddr (parseIPv6 : List Char → Option Addr) (cs : List Char) : Option Addr :=
  match cs.find? fun c => c = '.' || c = ':' || c = '%' with
  | some '.' => (parseIPv4Fields [] 0 0 cs).map addrFrom4
  | some ':' => parseIPv6 cs
  | _ => none

/-! ## Writing and reading IPv4 -/

theorem parseIPv4Fields_digit {fields : List ℕ} {val digLen d : ℕ} (hd : d < 10)
    (hzero : digLen = 1 → val ≠ 0) (hmax : val * 10 + d ≤ 255) (cs : List Char) :
    parseIPv4Fields fields val digLen (Nat.digitChar d :: cs) =
      parseIPv4Fields fields (val * 10 + d) (digLen + 1) cs := by
  have hlead : ¬ (digLen = 1 ∧ val = 0) := fun h => hzero h.1 h.2
  rw [parseIPv4Fields, digit_digitChar d hd]
  simp only [if_neg hlead, if_neg (Nat.not_lt.2 hmax)]

theorem parseIPv4Fields_toDigits {n : ℕ} (hn : n < 256) (fields : List ℕ)
    (cs : List Char) :
    ∃ digLen, digLen ≠ 0 ∧
      parseIPv4Fields fields 0 0 (Nat.toDigits 10 n ++ cs) =
        parseIPv4Fields fields n digLen cs := by
  rw [Nat.toDigits_eq_if (by omega)]
  split
  · refine ⟨1, by omega, ?_⟩
    rw [List.singleton_append, parseIPv4Fields_digit (by omega) (by omega) (by omega)]
    simp
  · rw [Nat.toDigits_eq_if (by omega)]
    split
    · refine ⟨2, by omega, ?_⟩
      simp only [List.cons_append, List.nil_append]
      rw [parseIPv4Fields_digit (by omega) (by omega) (by omega),
        parseIPv4Fields_digit (by omega) (by omega) (by omega)]
      congr 1
      omega
    · rw [Nat.toDigits_eq_if (by omega), if_pos (by omega)]
      refine ⟨3, by omega, ?_⟩
      simp only [List.cons_append, List.nil_append]
      rw [parseIPv4Fields_digit (by omega) (by omega) (by omega),
        parseIPv4Fields_digit (by omega) (by omega) (by omega),
        parseIPv4Fields_digit (by omega) (by omega) (by omega)]
      congr 1
      omega

theorem parseIPv4Fields_dotted {n : ℕ} (hn : n < 256) {fields : List ℕ}
    (hroom : fields.length < 3) {cs : List Char} (hcs : cs ≠ []) :
    parseIPv4Fields fields 0 0 (Nat.toDigits 10 n ++ '.' :: cs) =
      parseIPv4Fields (fields ++ [n]) 0 0 cs := by
  obtain ⟨digLen, hlen, heq⟩ := parseIPv4Fields_toDigits hn fields ('.' :: cs)
  have hdot : digit '.' = none := rfl
  rw [heq, parseIPv4Fields, hdot]
  simp only [if_true, hlen, hcs, or_self, if_false, if_neg (Nat.ne_of_lt hroom)]

theorem parseIPv4Fields_string4 (a : BitVec 32) :
    parseIPv4Fields [] 0 0 (string4Chars a) =
      some [a.toNat / 2 ^ 24, a.toNat / 2 ^ 16 % 256, a.toNat / 2 ^ 8 % 256,
        a.toNat % 256] := by
  have ha := a.isLt
  unfold string4Chars
  rw [parseIPv4Fields_dotted (by omega) (by simp) (by simp),
    parseIPv4Fields_dotted (by omega) (by simp) (by simp),
    parseIPv4Fields_dotted (by omega) (by simp) (toDigits_ne_nil _)]
  obtain ⟨digLen, -, heq⟩ := parseIPv4Fields_toDigits (n := a.toNat % 256) (by omega)
    ([] ++ [a.toNat / 2 ^ 24] ++ [a.toNat / 2 ^ 16 % 256] ++ [a.toNat / 2 ^ 8 % 256]) []
  rw [List.append_nil] at heq
  rw [heq]
  rfl

theorem isDigit_or_dot_of_mem_string4Chars {a : BitVec 32} {c : Char}
    (h : c ∈ string4Chars a) : c.isDigit = true ∨ c = '.' := by
  have hdigit {n : ℕ} (hc : c ∈ Nat.toDigits 10 n) : c.isDigit = true :=
    Nat.isDigit_of_mem_toDigits (by decide) (by decide) hc
  simp only [string4Chars, List.mem_append, List.mem_cons] at h
  rcases h with h | h | h | h | h | h | h
  all_goals first | exact .inl (hdigit h) | exact .inr h

theorem slash_notMem_string4Chars (a : BitVec 32) : '/' ∉ string4Chars a := by
  intro h
  rcases isDigit_or_dot_of_mem_string4Chars h with h | h <;> exact absurd h (by decide)

theorem parseAddr_string4 (parseIPv6 : List Char → Option Addr) (a : BitVec 32) :
    parseAddr parseIPv6 (string4Chars a) = some (.v4 a) := by
  have hfirst : (string4Chars a).find? (fun c => c = '.' || c = ':' || c = '%') =
      some '.' := by
    have hdigits : (Nat.toDigits 10 (a.toNat / 2 ^ 24)).find?
        (fun c => c = '.' || c = ':' || c = '%') = none := by
      rw [List.find?_eq_none]
      intro c hc
      have hdigit := Nat.isDigit_of_mem_toDigits (by decide) (by decide) hc
      rintro hsep
      simp only [Bool.or_eq_true, decide_eq_true_eq] at hsep
      rcases hsep with (rfl | rfl) | rfl <;> exact absurd hdigit (by decide)
    rw [string4Chars, List.find?_append, hdigits]
    rfl
  have ha := a.isLt
  rw [parseAddr, hfirst]
  simp only [parseIPv4Fields_string4, Option.map_some, addrFrom4, List.foldl_cons,
    List.foldl_nil]
  congr 2
  apply BitVec.eq_of_toNat_eq
  rw [BitVec.toNat_ofNat]
  omega

/-! ## `netip.ParsePrefix` -/

/-- The length of a prefix: no sign, no leading zero, at most `bitLen`. -/
def parseBits (bitLen : ℕ) (cs : List Char) : Option ℕ :=
  if 1 < cs.length ∧ ¬ cs.head?.any fun c => '1' ≤ c ∧ c ≤ '9' then none
  else match parseInt 64 cs with
    | .error _ => none
    | .ok n => if 0 ≤ n ∧ n ≤ bitLen then some n.toNat else none

def cutLastSlash (cs : List Char) : Option (List Char × List Char) :=
  (Cut.cut '/' cs.reverse).2.map fun front =>
    (front.reverse, (Cut.cut '/' cs.reverse).1.reverse)

def parsePrefix (parseIPv6 : List Char → Option Addr) (cs : List Char) :
    Option Prefix := do
  let (front, bits) ← cutLastSlash cs
  let ip ← parseAddr parseIPv6 front
  if ip.zone ≠ "" then none
  let n ← parseBits ip.bitLen bits
  if h : n ≤ ip.bitLen then some ⟨ip, n, h⟩ else none

theorem cutLastSlash_append (front : List Char) {back : List Char} (h : '/' ∉ back) :
    cutLastSlash (front ++ '/' :: back) = some (front, back) := by
  have hrev : (front ++ '/' :: back).reverse = back.reverse ++ '/' :: front.reverse := by
    simp
  rw [cutLastSlash, hrev, Cut.cut_append (by simpa using h)]
  simp

theorem slash_notMem_toDigits (n : ℕ) : '/' ∉ Nat.toDigits 10 n := by
  intro h
  have hdigit := Nat.isDigit_of_mem_toDigits (by decide) (by decide) h
  exact absurd hdigit (by decide)

theorem parseBits_toDigits : ∀ n ≤ 32, parseBits 32 (Nat.toDigits 10 n) = some n := by
  decide +kernel

theorem parsePrefix_string4 (parseIPv6 : List Char → Option Addr) (a : BitVec 32)
    (bits : Fin 33) :
    parsePrefix parseIPv6 (string4Chars a ++ '/' :: Nat.toDigits 10 bits) =
      some (.ofV4 a bits) := by
  have hbits : (bits : ℕ) ≤ 32 := Nat.le_of_lt_succ bits.isLt
  simp [parsePrefix, cutLastSlash_append _ (slash_notMem_toDigits bits),
    parseAddr_string4, parseBits_toDigits _ hbits, Addr.zone, Addr.bitLen, hbits,
    Prefix.ofV4]

end Net

end Gretun
