import Gretun.Net.ParseIPv6

/-!
# Reading addresses with a port

`netip.ParseAddrPort`. The text of an IPv4 address with a port is read back; this is the
form in which a node writes its own addresses into a message.
-/

namespace Gretun

namespace Net

open Foundation
open Foundation.Decimal

/-- `splitAddrPort`: the address, the port, and whether the address stood in square
brackets. -/
def splitAddrPort (cs : List Char) : Option (List Char × List Char × Bool) := do
  let (ip, port) ← Cut.cutLast ':' cs
  if ip = [] ∨ port = [] then none
  else match ip with
    | '[' :: rest =>
        if rest.getLast? = some ']' then some (rest.dropLast, port, true) else none
    | _ => some (ip, port, false)

/-- `netip.ParseAddrPort`. Brackets are for IPv6 addresses, and these need them. -/
def parseAddrPort (s : String) : Option AddrPort := do
  let (ip, port, v6) ← splitAddrPort s.toList
  match parseUint 16 port with
  | .error _ => none
  | .ok n =>
      let addr ← parseAddr parseIPv6 ip
      if v6 ∧ addr.bitLen = 32 then none
      else if ¬ v6 ∧ addr.bitLen = 128 then none
      else some ⟨addr, BitVec.ofNat 16 n⟩

theorem splitAddrPort_string4 (a : BitVec 32) (n : ℕ) :
    splitAddrPort (string4Chars a ++ ':' :: Nat.toDigits 10 n) =
      some (string4Chars a, Nat.toDigits 10 n, false) := by
  have hcolon : ':' ∉ Nat.toDigits 10 n := by
    intro h
    exact absurd (Nat.isDigit_of_mem_toDigits (by decide) (by decide) h) (by decide)
  have hne : string4Chars a ≠ [] := by simp [string4Chars]
  have hbracket : ∀ rest, string4Chars a ≠ '[' :: rest := by
    intro rest h
    have hmem : '[' ∈ string4Chars a := h ▸ List.mem_cons_self
    rcases isDigit_or_dot_of_mem_string4Chars hmem with h | h <;>
      exact absurd h (by decide)
  rw [splitAddrPort, Cut.cutLast_append hcolon]
  simp [hne, toDigits_ne_nil n]

theorem parseAddrPort_string4 (a : BitVec 32) (port : Port) :
    parseAddrPort (string4 a ++ ":" ++ toString port.toNat) = some ⟨.v4 a, port⟩ := by
  have htext : (string4 a ++ ":" ++ toString port.toNat).toList =
      string4Chars a ++ ':' :: Nat.toDigits 10 port.toNat := by
    have hport : (toString port.toNat).toList = Nat.toDigits 10 port.toNat :=
      String.toList_ofList
    rw [String.toList_append, String.toList_append, string4, String.toList_ofList, hport,
      List.append_assoc]
    rfl
  rw [parseAddrPort, htext, splitAddrPort_string4]
  simp only [Option.bind_eq_bind, Option.bind_some, parseUint_toDigits port.isLt,
    parseAddr_string4]
  simp [Addr.bitLen]

end Net

end Gretun
