import Gretun.Basic
import Gretun.Foundation.Octets
import Gretun.Net.Addr

/-!
# Byte-slice addresses

`net.IP` is a byte slice: four bytes for an IPv4 address, sixteen for an IPv6
address or an IPv4 address in IPv6 form, none for the nil value. The classifiers
below are the methods that the configuration checks call.
-/

namespace Gretun

namespace Net

open Foundation.Octets

/-- `net.IP`; the empty list is the nil slice. -/
abbrev IP := List UInt8

namespace IP

def v4InV6Prefix : List UInt8 := List.replicate 10 0 ++ [255, 255]

def to4 (ip : IP) : Option IP :=
  if ip.length = 4 then some ip
  else if ip.length = 16 ∧ ip.take 12 = v4InV6Prefix then some (ip.drop 12)
  else none

/-- `IP.Equal`: an IPv4 address equals its IPv6 form. -/
def equal (ip x : IP) : Bool :=
  if ip.length = x.length then ip = x
  else if ip.length = 4 ∧ x.length = 16 then
    x.take 12 = v4InV6Prefix ∧ ip = x.drop 12
  else if ip.length = 16 ∧ x.length = 4 then
    ip.take 12 = v4InV6Prefix ∧ ip.drop 12 = x
  else false

def v4zero : IP := v4InV6Prefix ++ [0, 0, 0, 0]
def v4bcast : IP := v4InV6Prefix ++ [255, 255, 255, 255]
def v6unspecified : IP := List.replicate 16 0
def v6loopback : IP := List.replicate 15 0 ++ [1]

def isUnspecified (ip : IP) : Bool := ip.equal v4zero || ip.equal v6unspecified

def isLoopback (ip : IP) : Bool :=
  match ip.to4 with
  | some ip4 => ip4.head? = some 127
  | none => ip.equal v6loopback

def isMulticast (ip : IP) : Bool :=
  match ip.to4 with
  | some ip4 => ip4.head?.any fun b => b &&& 0xf0 = 0xe0
  | none => ip.length = 16 && ip.head? = some 0xff

def isLinkLocalUnicast (ip : IP) : Bool :=
  match ip.to4 with
  | some ip4 => ip4.take 2 = [169, 254]
  | none =>
      ip.length = 16 && ip.head? = some 0xfe &&
        ((ip.drop 1).head?.any fun b => b &&& 0xc0 = 0x80)

def isGlobalUnicast (ip : IP) : Bool :=
  (ip.length = 4 || ip.length = 16) && !ip.equal v4bcast && !ip.isUnspecified &&
    !ip.isLoopback && !ip.isMulticast && !ip.isLinkLocalUnicast

def toNat (bs : List UInt8) : ℕ := bs.foldl (fun n b => 256 * n + b.toNat) 0

/-- `netip.AddrFromSlice`, with the zero address where it reports failure. -/
def addrFromSlice (ip : IP) : Addr :=
  if ip.length = 4 then .v4 (BitVec.ofNat 32 (toNat ip))
  else if ip.length = 16 then .v6 (BitVec.ofNat 128 (toNat ip)) ""
  else .zero

def string (ip : IP) : String :=
  if ip = [] then "<nil>"
  else match ip.to4 with
    | some ip4 => (addrFromSlice ip4).string
    | none =>
        if ip.length = 16 then (addrFromSlice ip).string
        else "?" ++ hexEncode ip

end IP

@[simp] theorem length_asSlice_v4 (a : BitVec 32) :
    (Addr.v4 a).asSlice.length = 4 := by
  simp [Addr.asSlice]

theorem asSlice_addrFromSlice {ip : IP} (h : ip.length = 4) :
    (IP.addrFromSlice ip).asSlice = ip := by
  match ip, h with
  | [b3, b2, b1, b0], _ =>
      have h3 := b3.toNat_lt
      have h2 := b2.toNat_lt
      have h1 := b1.toNat_lt
      have h0 := b0.toNat_lt
      simp only [IP.addrFromSlice, IP.toNat, Addr.asSlice, List.length_cons,
        List.length_nil, Nat.reduceAdd, if_true, List.range, List.range.loop,
        List.map_cons, List.map_nil, List.foldl_cons, List.foldl_nil,
        List.cons.injEq, and_true, Nat.reduceSub, Nat.reduceMul]
      refine ⟨?_, ?_, ?_, ?_⟩ <;>
        · apply UInt8.toNat.inj
          simp only [UInt8.toNat_ofBitVec, BitVec.toNat_setWidth,
            BitVec.toNat_ushiftRight, BitVec.toNat_ofNat,
            Nat.shiftRight_eq_div_pow]
          omega

theorem asSlice_v4_eq (a : BitVec 32) : (Addr.v4 a).asSlice = octets 4 a := rfl

theorem asSlice_v6_eq (a : BitVec 128) (zone : String) :
    (Addr.v6 a zone).asSlice = octets 16 a := rfl

theorem asSlice_v4_injective {a b : BitVec 32}
    (h : (Addr.v4 a).asSlice = (Addr.v4 b).asSlice) : a = b := by
  rw [asSlice_v4_eq, asSlice_v4_eq, octets_inj (le_refl 32)] at h
  exact h

end Net

end Gretun
