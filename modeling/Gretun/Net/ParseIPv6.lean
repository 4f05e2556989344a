import Gretun.Net.ParseAddr

/-!
# Reading IPv6 addresses

`netip.parseIPv6`: groups of up to four hexadecimal digits separated by colons, at most
one `::` for the groups of zeros left out, an IPv4 address in place of the last two
groups, and a zone after a percent sign. What is read is always an IPv6 address, also
when it is the IPv6 form of an IPv4 address.
-/

namespace Gretun

namespace Net

open Foundation

def hexDigit (c : Char) : Option ℕ :=
  if '0' ≤ c ∧ c ≤ '9' then some (c.toNat - '0'.toNat)
  else if 'a' ≤ c ∧ c ≤ 'f' then some (c.toNat - 'a'.toNat + 10)
  else if 'A' ≤ c ∧ c ≤ 'F' then some (c.toNat - 'A'.toNat + 10)
  else none

/-- The digits of one group: their value, their number and what follows. More than
four digits are refused. -/
def hexGroup (acc off : ℕ) : List Char → Option (ℕ × ℕ × List Char)
  | [] => some (acc, off, [])
  | c :: cs =>
      match hexDigit c with
      | some d => if 3 < off then none else hexGroup (acc * 16 + d) (off + 1) cs
      | none => some (acc, off, c :: cs)

/-- The loop over the groups, of which `n` more fit. `ip` are the bytes so far and
`ellipsis` is how many of them stand before the `::`. -/
def parseGroups : ℕ → List ℕ → Option ℕ → List Char → Option (List ℕ × Option ℕ)
  | 0, ip, ellipsis, s => if s = [] then some (ip, ellipsis) else none
  | n + 1, ip, ellipsis, s =>
      match hexGroup 0 0 s with
      | none => none
      | some (acc, off, rest) =>
          let ip' := ip ++ [acc / 256, acc % 256]
          if off = 0 then none
          else
            match rest with
            | [] => some (ip', ellipsis)
            | '.' :: _ =>
                -- the rest must be an IPv4 address, in the place of the last two groups
                if ellipsis = none ∧ ip.length ≠ 12 then none
                else if 16 < ip.length + 4 then none
                else (parseIPv4Fields [] 0 0 s).map fun fields => (ip ++ fields, ellipsis)
            | [':'] => none
            | ':' :: ':' :: rest =>
                if ellipsis ≠ none then none
                else if rest = [] then some (ip', some ip'.length)
                else parseGroups n ip' (some ip'.length) rest
            | ':' :: rest => parseGroups n ip' ellipsis rest
            | _ => none

/-- Sixteen bytes: the `::` stands for the groups of zeros that are missing, at least
one. -/
def expandEllipsis (ip : List ℕ) : Option ℕ → Option (List ℕ)
  | none => if ip.length < 16 then none else some ip
  | some e =>
      if ip.length < 16 then
        some (ip.take e ++ List.replicate (16 - ip.length) 0 ++ ip.drop e)
      else none

def addrFrom16 (ip : List ℕ) (zone : String) : Addr :=
  .v6 (BitVec.ofNat 128 (ip.foldl (fun n b => 256 * n + b) 0)) zone

def parseIPv6Bytes : List Char → Option (List ℕ)
  | [':', ':'] => some (List.replicate 16 0)
  | ':' :: ':' :: s => (parseGroups 8 [] (some 0) s).bind fun r => expandEllipsis r.1 r.2
  | s => (parseGroups 8 [] none s).bind fun r => expandEllipsis r.1 r.2

def parseIPv6 (cs : List Char) : Option Addr :=
  match Cut.cut '%' cs with
  | (_, some []) => none
  | (s, zone) =>
      (parseIPv6Bytes s).map fun ip => addrFrom16 ip (String.ofList (zone.getD []))

theorem exists_v6_of_parseIPv6 {cs : List Char} {ip : Addr}
    (h : parseIPv6 cs = some ip) : ∃ b zone, ip = .v6 b zone := by
  unfold parseIPv6 at h
  split at h
  · cases h
  · obtain ⟨bytes, -, rfl⟩ := Option.map_eq_some_iff.mp h
    exact ⟨_, _, rfl⟩

/-- What is read is an IPv4 address, or an IPv6 address in IPv6 notation. -/
theorem parseAddr_cases {cs : List Char} {ip : Addr}
    (h : parseAddr parseIPv6 cs = some ip) :
    (∃ a, ip = .v4 a) ∨ ∃ b zone, ip = .v6 b zone := by
  unfold parseAddr at h
  split at h
  · obtain ⟨fields, -, rfl⟩ := Option.map_eq_some_iff.mp h
    exact .inl ⟨_, rfl⟩
  · exact .inr (exists_v6_of_parseIPv6 h)
  · cases h

/-! ## The IPv6 form of an IPv4 address -/

def mapped (a : BitVec 32) : BitVec 128 := BitVec.ofNat 128 (0xffff * 2 ^ 32 + a.toNat)

/-- The text of `mapped`, with the last two groups in dotted form. -/
def mappedChars (a : BitVec 32) : List Char :=
  [':', ':', 'f', 'f', 'f', 'f', ':'] ++ string4Chars a

theorem mapped_ushiftRight (a : BitVec 32) : mapped a >>> 32 = 0xffff := by
  have ha := a.isLt
  apply BitVec.eq_of_toNat_eq
  rw [mapped, BitVec.toNat_ushiftRight, BitVec.toNat_ofNat, Nat.shiftRight_eq_div_pow]
  change _ = 0xffff
  omega

theorem exists_hexDigit {c : Char} (h : c.isDigit = true) :
    ∃ d, hexDigit c = some d := by
  have hrange : '0' ≤ c ∧ c ≤ '9' := by
    simpa [Char.isDigit, Char.le_def] using h
  exact ⟨_, if_pos hrange⟩

theorem hexGroup_append {ds : List Char} (hds : ∀ c ∈ ds, c.isDigit = true)
    (acc off : ℕ) (hoff : off + ds.length ≤ 4) (cs : List Char) :
    ∃ acc', hexGroup acc off (ds ++ cs) = hexGroup acc' (off + ds.length) cs := by
  induction ds generalizing acc off with
  | nil => exact ⟨acc, rfl⟩
  | cons c ds ih =>
      rw [List.length_cons] at hoff
      obtain ⟨d, hd⟩ := exists_hexDigit (hds c List.mem_cons_self)
      obtain ⟨acc', hacc⟩ := ih (fun x hx => hds x (List.mem_cons_of_mem c hx))
        (acc * 16 + d) (off + 1) (by omega)
      refine ⟨acc', ?_⟩
      rw [List.cons_append, hexGroup, hd]
      simp only
      rw [if_neg (by omega), hacc, List.length_cons, Nat.add_right_comm, Nat.add_assoc]

/-- A byte in decimal with a dot after it passes for a group. -/
theorem hexGroup_dotted {n : ℕ} (hn : n < 256) (cs : List Char) :
    ∃ acc off, off ≠ 0 ∧
      hexGroup 0 0 (Nat.toDigits 10 n ++ '.' :: cs) = some (acc, off, '.' :: cs) := by
  have hlen := Nat.toDigits_length 10 n 3 (by decide) (by omega)
  have hpos := List.length_pos_of_ne_nil (Decimal.toDigits_ne_nil n)
  have hdigits : ∀ c ∈ Nat.toDigits 10 n, c.isDigit = true :=
    fun c => Nat.isDigit_of_mem_toDigits (by decide) (by decide)
  obtain ⟨acc, hacc⟩ := hexGroup_append hdigits 0 0 (by omega) ('.' :: cs)
  refine ⟨acc, 0 + (Nat.toDigits 10 n).length, by omega, ?_⟩
  rw [hacc]
  rfl

theorem parseGroups_string4 (n : ℕ) {ip : List ℕ} (hroom : ip.length + 4 ≤ 16) (e : ℕ)
    (a : BitVec 32) :
    parseGroups (n + 1) ip (some e) (string4Chars a) =
      some (ip ++ [a.toNat / 2 ^ 24, a.toNat / 2 ^ 16 % 256, a.toNat / 2 ^ 8 % 256,
        a.toNat % 256], some e) := by
  have ha := a.isLt
  obtain ⟨acc, off, hoff, hgroup⟩ :=
    hexGroup_dotted (n := a.toNat / 2 ^ 24) (by omega) _
  rw [parseGroups, string4Chars, hgroup, ← string4Chars, parseIPv4Fields_string4]
  simp only [if_neg hoff, reduceCtorEq, false_and, if_false,
    if_neg (Nat.not_lt.mpr hroom), Option.map_some]

theorem parseGroups_colon {n acc off : ℕ} {ip : List ℕ} {ellipsis : Option ℕ}
    {s rest : List Char} (hgroup : hexGroup 0 0 s = some (acc, off, ':' :: rest))
    (hoff : off ≠ 0) {c : Char} (hhead : rest.head? = some c) (hc : c ≠ ':') :
    parseGroups (n + 1) ip ellipsis s =
      parseGroups n (ip ++ [acc / 256, acc % 256]) ellipsis rest := by
  obtain ⟨tail, rfl⟩ := List.head?_eq_some_iff.mp hhead
  rw [parseGroups, hgroup]
  simp only [if_neg hoff]
  split <;> simp_all

theorem head?_string4Chars (a : BitVec 32) :
    ∃ c, (string4Chars a).head? = some c ∧ c ≠ ':' := by
  obtain ⟨c, ds, hds⟩ := List.exists_cons_of_ne_nil
    (Decimal.toDigits_ne_nil (a.toNat / 2 ^ 24))
  refine ⟨c, by rw [string4Chars, hds]; rfl, ?_⟩
  rintro rfl
  have hdigit := Nat.isDigit_of_mem_toDigits (by decide) (by decide)
    (hds ▸ List.mem_cons_self : ':' ∈ Nat.toDigits 10 (a.toNat / 2 ^ 24))
  exact absurd hdigit (by decide)

theorem parseIPv6Bytes_mappedChars (a : BitVec 32) :
    parseIPv6Bytes (mappedChars a) =
      some (List.replicate 10 0 ++ [255, 255, a.toNat / 2 ^ 24, a.toNat / 2 ^ 16 % 256,
        a.toNat / 2 ^ 8 % 256, a.toNat % 256]) := by
  obtain ⟨c, hhead, hc⟩ := head?_string4Chars a
  have hgroup : hexGroup 0 0 ('f' :: 'f' :: 'f' :: 'f' :: ':' :: string4Chars a) =
      some (0xffff, 4, ':' :: string4Chars a) := rfl
  change (parseGroups 8 [] (some 0) ('f' :: 'f' :: 'f' :: 'f' :: ':' ::
    string4Chars a)).bind _ = _
  rw [parseGroups_colon hgroup (by decide) hhead hc, parseGroups_string4 6 (by decide)]
  rfl

theorem parseIPv6_mappedChars (a : BitVec 32) :
    parseIPv6 (mappedChars a) = some (.v6 (mapped a) "") := by
  have hzone : '%' ∉ mappedChars a := by
    intro h
    rcases List.mem_append.mp h with h | h
    · exact absurd h (by decide)
    · rcases isDigit_or_dot_of_mem_string4Chars h with h | h <;>
        exact absurd h (by decide)
  have ha := a.isLt
  rw [parseIPv6, Cut.cut_of_notMem hzone]
  simp only [parseIPv6Bytes_mappedChars, Option.map_some, addrFrom16]
  have hvalue : (List.replicate 10 0 ++ [255, 255, a.toNat / 2 ^ 24,
      a.toNat / 2 ^ 16 % 256, a.toNat / 2 ^ 8 % 256, a.toNat % 256]).foldl
        (fun n b => 256 * n + b) 0 = 0xffff * 2 ^ 32 + a.toNat := by
    simp only [List.reduceReplicate, List.cons_append, List.nil_append, List.foldl_cons,
      List.foldl_nil]
    omega
  rw [hvalue]
  rfl

/-- The text is read as the IPv6 form, not as the IPv4 address. -/
theorem parseAddr_mappedChars (a : BitVec 32) :
    parseAddr parseIPv6 (mappedChars a) = some (.v6 (mapped a) "") :=
  parseIPv6_mappedChars a

example : (parseIPv6 "2001:db8::68".toList).map Addr.string = some "2001:db8::68" := by
  decide +kernel

end Net

end Gretun
