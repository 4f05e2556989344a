import Gretun.Coord.RegistryInv
import Gretun.Daemon.BringUp
import Gretun.Tunnel.Cidr

/-!
# The tunnel addresses of two peers

The coordinator gives out the addresses of its pool one after the other. A daemon
assigns its own address to every tunnel with the length 30, and ignores the error when
`AssignIP` rejects that. So the address of a tunnel is usable only within the blocks of
four addresses that such a length denotes.
-/

namespace Gretun

namespace Daemon

open Gretun.Net
open Gretun.Coord
open Gretun.Tunnel
open Foundation.Command
open Foundation.Run

def AssignRejects (parse : Parsers) (name cidr : String) : Prop :=
  ∃ e, assignIP parse none name cidr = .ret (.error (.config e))

theorem assignRejects_iff {parse : Parsers} {name : String}
    (hname : validateTunnelName name = .ok ()) (cidr : String) :
    AssignRejects parse name cidr ↔ validateCIDR parse.cidr cidr ≠ .ok () := by
  unfold AssignRejects assignIP
  cases hcidr : validateCIDR parse.cidr cidr with
  | error e => simp [hname, Prog.pure_eq_ret]
  | ok u =>
      simp only [hname, request]
      rw [Prog.perform_bind]
      simp

/-- The address that a daemon with the tunnel address `self` assigns to its tunnel is
accepted, and the peer is on-link through it. -/
structure UsableAddr (parse : Parsers) (self peer : Addr) : Prop where
  accepted : validateCIDR parse.cidr (tunnelCIDR self) = .ok ()
  assigned : ∀ name, ValidIface name → ¬ AssignRejects parse name (tunnelCIDR self)
  onLink : ∃ c, parse.cidr (tunnelCIDR self) = .ok c ∧ c.contains peer.asSlice = true

theorem usableAddr_v4_iff (parseIPv6 : List Char → Option Addr)
    (nlAddr : String → Except String String) (a b : BitVec 32) :
    UsableAddr ⟨parseCIDR parseIPv6, nlAddr⟩ (.v4 a) (.v4 b) ↔
      (a.toNat % 4 = 1 ∨ a.toNat % 4 = 2) ∧ b.toNat / 4 = a.toNat / 4 := by
  rw [← validateCIDR_tunnelCIDR_iff parseIPv6, ← contains_thirty_iff]
  constructor
  · rintro ⟨haccepted, -, c, hc, hcontains⟩
    obtain rfl := Except.ok.inj ((parseCIDR_tunnelCIDR parseIPv6 a).symm.trans hc)
    exact ⟨haccepted, hcontains⟩
  · rintro ⟨haccepted, hcontains⟩
    refine ⟨haccepted, fun name hname => ?_, thirty a, parseCIDR_tunnelCIDR parseIPv6 a,
      hcontains⟩
    rw [assignRejects_iff hname.1]
    exact not_not_intro haccepted

/-- Take any IPv4 pool, any calls to the registry, and any two registered peers. The
address that the daemon of the first assigns to its tunnel to the second is accepted
and has the second on-link exactly when both tunnel addresses are in the same block of
four and the first is neither at its beginning nor at its end. -/
theorem usableAddr_iff (newEtag : ℕ → String) (a : BitVec 32) (bits : Fin 33)
    (ops : List RegistryOp) (parseIPv6 : List Char → Option Addr)
    (nlAddr : String → Except String String) {key key' : String} {p q : Peer}
    (hp : (ops.foldl (Registry.call newEtag)
      (Registry.new newEtag (Prefix.ofV4 a bits))).peers.lookup key = some p)
    (hq : (ops.foldl (Registry.call newEtag)
      (Registry.new newEtag (Prefix.ofV4 a bits))).peers.lookup key' = some q) :
    UsableAddr ⟨parseCIDR parseIPv6, nlAddr⟩ p.tunnelIP q.tunnelIP ↔
      (p.tunnelIP.value % 4 = 1 ∨ p.tunnelIP.value % 4 = 2) ∧
        q.tunnelIP.value / 4 = p.tunnelIP.value / 4 := by
  have hinv := invariant_foldl (I := RegistryInv a bits)
    (fun _ op h => registryInv_call h newEtag op) (registryInv_new newEtag a bits) ops
  obtain ⟨x, hx⟩ := (hinv.assignable key p hp).exists_v4
  obtain ⟨y, hy⟩ := (hinv.assignable key' q hq).exists_v4
  rw [hx, hy]
  exact usableAddr_v4_iff parseIPv6 nlAddr x y

/-! ## Five nodes of the pool 100.64.0.0/10 -/

def sampleNode (n : UInt8) (tunnelIP : Addr) : Peer where
  nodeKey := List.replicate 32 n
  discoKey := Vector.replicate 32 n
  name := "node"
  tunnelIP := tunnelIP

def sampleEtag (_ : ℕ) : String := ""

def fiveCalls : List RegistryOp :=
  [1, 2, 3, 4, 5].map fun n => .register none 0 (sampleNode n .zero)

def fiveNodes : Registry :=
  fiveCalls.foldl (Registry.call sampleEtag)
    (Registry.new sampleEtag (Prefix.ofV4 0x64400000 ⟨10, by decide⟩))

theorem lookup_fiveNodes : ∀ n ∈ [1, 2, 3, 4, 5],
    fiveNodes.peers.lookup (base64Encode (List.replicate 32 n)) =
      some (sampleNode n (.v4 (0x64400000 + n.toBitVec.setWidth 32))) := by
  decide +kernel

/-- The first two nodes can use their addresses. -/
theorem usableAddr_firstNodes :
    UsableAddr ⟨parseCIDR fun _ => none, .ok⟩ (.v4 0x64400001) (.v4 0x64400002) :=
  (usableAddr_iff sampleEtag 0x64400000 10 fiveCalls (fun _ => none) .ok
    (lookup_fiveNodes 1 (by decide)) (lookup_fiveNodes 2 (by decide))).2
    ⟨by decide, by decide⟩

/-- The address of the third node is rejected as a broadcast address and that of the
fourth as a network address; that of the first is accepted, but the fifth node is not
in its subnet. -/
theorem not_usableAddr :
    validateCIDR (parseCIDR fun _ => none) (tunnelCIDR (.v4 0x64400003)) =
        .error (.cidrBroadcast "100.64.0.3/30") ∧
      validateCIDR (parseCIDR fun _ => none) (tunnelCIDR (.v4 0x64400004)) =
        .error (.cidrNetwork "100.64.0.4/30") ∧
      validateCIDR (parseCIDR fun _ => none) (tunnelCIDR (.v4 0x64400001)) = .ok () ∧
      (thirty 0x64400001).contains (Addr.v4 0x64400005).asSlice = false ∧
      [1, 3, 4, 5].map (fun n => (fiveNodes.peers.lookup
          (base64Encode (List.replicate 32 n))).map Peer.tunnelIP) =
        [some (.v4 0x64400001), some (.v4 0x64400003), some (.v4 0x64400004),
          some (.v4 0x64400005)] := by
  decide +kernel

end Daemon

end Gretun
