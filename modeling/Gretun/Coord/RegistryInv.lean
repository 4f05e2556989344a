import Gretun.Coord.Registry
import Gretun.Foundation.Run
import Mathlib.Data.Prod.Lex
import Mathlib.Data.String.Basic

/-!
# The representation invariant of the registry

The two maps of the registry are inverse to each other: the tunnel address of
each peer leads back to its key, and nothing else is in the second map. The
allocator only gives out addresses of the pool beyond the address of the prefix
and before its last one. So the peers have distinct addresses, and sorting them
by address gives the same strictly increasing list in whatever order the map is
iterated.
-/

namespace Gretun

namespace Coord

open Gretun.Net
open Foundation.Assoc
open Foundation.Run

/-! ## The order of addresses -/

def addrKey (x : Addr) : ℕ ×ₗ ℕ ×ₗ String :=
  toLex (x.bitLen, toLex (x.value, x.zone))

theorem less_iff (x y : Addr) : x.less y = true ↔ addrKey x < addrKey y := by
  simp [Addr.less, addrKey, Prod.Lex.toLex_lt_toLex]

theorem addrKey_injective : Function.Injective addrKey := by
  intro x y h
  obtain ⟨hlen, hrest⟩ := Prod.mk.inj (toLex.injective h)
  obtain ⟨hvalue, hzone⟩ := Prod.mk.inj (toLex.injective hrest)
  cases x with
  | zero => cases y <;> first | rfl | cases hlen
  | v4 a =>
      cases y with
      | v4 b => rw [BitVec.eq_of_toNat_eq hvalue]
      | zero => cases hlen
      | v6 b z => cases hlen
  | v6 a z =>
      cases y with
      | v6 b z' =>
          obtain rfl : z = z' := hzone
          rw [BitVec.eq_of_toNat_eq hvalue]
      | zero => cases hlen
      | v4 b => cases hlen

theorem byTunnelIP_iff (p q : Peer) :
    Registry.byTunnelIP p q = true ↔ addrKey p.tunnelIP ≤ addrKey q.tunnelIP := by
  rw [Registry.byTunnelIP, Bool.not_eq_true', ← Bool.not_eq_true, less_iff, not_lt]

theorem pairwise_mergeSort_byTunnelIP (l : List Peer) :
    (l.mergeSort Registry.byTunnelIP).Pairwise
      fun p q => addrKey p.tunnelIP ≤ addrKey q.tunnelIP := by
  have hsorted := @List.pairwise_mergeSort Peer Registry.byTunnelIP
    (fun p q r hpq hqr => (byTunnelIP_iff p r).2
      (le_trans ((byTunnelIP_iff p q).1 hpq) ((byTunnelIP_iff q r).1 hqr)))
    (fun p q => by
      rw [Bool.or_eq_true, byTunnelIP_iff, byTunnelIP_iff]
      exact le_total _ _) l
  exact hsorted.imp fun h => (byTunnelIP_iff _ _).1 h

/-! ## Allocation -/

/-- An address that may be given to a peer: in the pool, beyond the address of
the prefix and before the last address. -/
structure Assignable (a : BitVec 32) (bits : Fin 33) (ip : Addr) : Prop where
  contained : (Prefix.ofV4 a bits).contains ip = true
  greater : (Addr.v4 a).less ip = true
  ne_last : ip.value ≠ Prefix.last a bits

theorem next_v4 {a : BitVec 32} {n : BitVec 32} (h : (Addr.v4 a).next = .v4 n) :
    n.toNat = a.toNat + 1 := by
  simp only [Addr.next] at h
  split at h
  · cases h
  · rename_i hmax
    have hlt := a.isLt
    have hne : a.toNat ≠ 2 ^ 32 - 1 := fun h' =>
      hmax (BitVec.eq_of_toNat_eq (by simp [h']))
    obtain rfl := Addr.v4.inj h
    change (a.toNat + 1) % 2 ^ 32 = a.toNat + 1
    omega

/-- The loop of the allocator returns a free address that may be given out. -/
theorem allocateFrom_spec {a : BitVec 32} {bits : Fin 33} {taken : String → Bool}
    {next ip : Addr} (hnext : ∀ n, next = .v4 n → a.toNat < n.toNat)
    (h : allocateFrom (Prefix.ofV4 a bits) taken next = some ip) :
    Assignable a bits ip ∧ taken ip.string = false := by
  -- the candidates run upwards from the successor of the prefix address
  induction next using allocateFrom.induct (Prefix.ofV4 a bits) taken with
  | case1 next hin htaken ih =>
      rw [allocateFrom, dif_pos hin, if_pos htaken] at h
      refine ih ?_ h
      intro n hn
      obtain ⟨b, rfl⟩ := Prefix.exists_v4_of_contains hin
      have := next_v4 hn
      have := hnext b rfl
      omega
  | case2 next hin htaken hroom =>
      rw [allocateFrom, dif_pos hin, if_neg htaken, if_pos hroom] at h
      obtain rfl := Option.some.inj h
      obtain ⟨b, rfl⟩ := Prefix.exists_v4_of_contains hin
      have hlt := hnext b rfl
      have hlast := (Prefix.contains_next_iff (by omega) hin).1 hroom
      refine ⟨⟨hin, ?_, ?_⟩, by simpa using htaken⟩
      · simp [Addr.less, Addr.bitLen, Addr.value, hlt]
      · change b.toNat ≠ _
        omega
  | case3 next hin htaken hroom =>
      rw [allocateFrom, dif_pos hin, if_neg htaken, if_neg hroom] at h
      cases h
  | case4 next hin =>
      rw [allocateFrom, dif_neg hin] at h
      cases h

theorem allocateIPLocked_spec {a : BitVec 32} {bits : Fin 33} {r : Registry}
    {ip : Addr} (hpool : r.pool = Prefix.ofV4 a bits)
    (h : r.allocateIPLocked = some ip) :
    Assignable a bits ip ∧ ip.string ∉ r.byTunnel := by
  rw [Registry.allocateIPLocked, hpool] at h
  obtain ⟨hip, hfree⟩ := allocateFrom_spec (fun n hn => by
    have := next_v4 hn
    omega) h
  exact ⟨hip, by simpa using hfree⟩

theorem Assignable.exists_v4 {a : BitVec 32} {bits : Fin 33} {ip : Addr}
    (h : Assignable a bits ip) : ∃ b, ip = .v4 b :=
  Prefix.exists_v4_of_contains h.contained

/-- Addresses that may be given out are determined by their text. -/
theorem Assignable.eq_of_string_eq {a : BitVec 32} {bits : Fin 33} {ip ip' : Addr}
    (h : Assignable a bits ip) (h' : Assignable a bits ip')
    (hstring : ip.string = ip'.string) : ip = ip' := by
  obtain ⟨b, rfl⟩ := h.exists_v4
  obtain ⟨b', rfl⟩ := h'.exists_v4
  rw [string4_injective hstring]

/-! ## The invariant -/

/-- The representation invariant for the IPv4 pool `a/bits`. -/
structure RegistryInv (a : BitVec 32) (bits : Fin 33) (r : Registry) : Prop where
  pool : r.pool = Prefix.ofV4 a bits
  /-- A peer is stored under the text of its 32-byte key. -/
  keyed : ∀ key p, r.peers.lookup key = some p →
    p.nodeKey.length = publicKeySize ∧ key = base64Encode p.nodeKey
  /-- The second map is the inverse of the map from keys to addresses. -/
  inverse : ∀ ip key, r.byTunnel.lookup ip = some key ↔
    ∃ p, r.peers.lookup key = some p ∧ p.tunnelIP.string = ip
  assignable : ∀ key p, r.peers.lookup key = some p →
    Assignable a bits p.tunnelIP

theorem RegistryInv.tunnelIP_inj {a : BitVec 32} {bits : Fin 33} {r : Registry}
    (h : RegistryInv a bits r) {key key' : String} {p p' : Peer}
    (hp : r.peers.lookup key = some p) (hp' : r.peers.lookup key' = some p')
    (hip : p.tunnelIP = p'.tunnelIP) : key = key' := by
  have hkey := (h.inverse p.tunnelIP.string key).2 ⟨p, hp, rfl⟩
  have hkey' := (h.inverse p.tunnelIP.string key').2 ⟨p', hp', by rw [hip]⟩
  exact Option.some.inj (hkey.symm.trans hkey')

theorem registryInv_new (newEtag : ℕ → String) (a : BitVec 32) (bits : Fin 33) :
    RegistryInv a bits (Registry.new newEtag (Prefix.ofV4 a bits)) where
  pool := rfl
  keyed := by
    intro key p h
    simp [Registry.new] at h
  inverse := by
    intro ip key
    simp [Registry.new]
  assignable := by
    intro key p h
    simp [Registry.new] at h

theorem RegistryInv.bumpEtagLocked {a : BitVec 32} {bits : Fin 33} {r : Registry}
    (h : RegistryInv a bits r) (newEtag : ℕ → String) :
    RegistryInv a bits (r.bumpEtagLocked newEtag) :=
  ⟨h.pool, h.keyed, h.inverse, h.assignable⟩

/-- Replacing a record by one with the same key and address keeps the
invariant. -/
theorem RegistryInv.update {a : BitVec 32} {bits : Fin 33} {r : Registry}
    (h : RegistryInv a bits r) {key : String} {p p' : Peer}
    (hp : r.peers.lookup key = some p) (hkey : p'.nodeKey = p.nodeKey)
    (hip : p'.tunnelIP = p.tunnelIP) :
    RegistryInv a bits { r with peers := r.peers.insert key p' } := by
  -- a record of the new map is one of the old map, up to the key and the address
  have hold : ∀ k q, (r.peers.insert key p').lookup k = some q →
      ∃ q', r.peers.lookup k = some q' ∧ q.nodeKey = q'.nodeKey ∧
        q.tunnelIP = q'.tunnelIP := by
    intro k q hq
    rcases lookup_insert_cases hq with ⟨rfl, rfl⟩ | ⟨-, hq⟩
    · exact ⟨p, hp, hkey, hip⟩
    · exact ⟨q, hq, rfl, rfl⟩
  refine ⟨h.pool, ?_, ?_, ?_⟩
  · intro k q hq
    obtain ⟨q', hq', hnode, -⟩ := hold k q hq
    rw [hnode]
    exact h.keyed k q' hq'
  · intro ip k
    rw [h.inverse ip k]
    constructor
    · rintro ⟨q, hq, hstring⟩
      by_cases hk : k = key
      · subst hk
        obtain rfl := Option.some.inj (hp.symm.trans hq)
        exact ⟨p', AList.lookup_insert _, by rw [hip, hstring]⟩
      · exact ⟨q, by rw [AList.lookup_insert_ne hk, hq], hstring⟩
    · rintro ⟨q, hq, hstring⟩
      obtain ⟨q', hq', -, hip'⟩ := hold k q hq
      exact ⟨q', hq', by rw [← hip', hstring]⟩
  · intro k q hq
    obtain ⟨q', hq', -, hip'⟩ := hold k q hq
    rw [hip']
    exact h.assignable k q' hq'

theorem RegistryInv.insert {a : BitVec 32} {bits : Fin 33} {r : Registry}
    (h : RegistryInv a bits r) {p : Peer}
    (hlen : p.nodeKey.length = publicKeySize)
    (hnew : r.peers.lookup (base64Encode p.nodeKey) = none)
    (hip : Assignable a bits p.tunnelIP)
    (hfree : p.tunnelIP.string ∉ r.byTunnel) :
    RegistryInv a bits
      { r with
        peers := r.peers.insert (base64Encode p.nodeKey) p
        byTunnel := r.byTunnel.insert p.tunnelIP.string
          (base64Encode p.nodeKey) } := by
  refine ⟨h.pool, ?_, ?_, ?_⟩
  · intro k q hq
    rcases lookup_insert_cases hq with ⟨rfl, rfl⟩ | ⟨-, hq⟩
    · exact ⟨hlen, rfl⟩
    · exact h.keyed k q hq
  · intro ip k
    by_cases hstring : ip = p.tunnelIP.string
    · subst hstring
      rw [AList.lookup_insert]
      constructor
      · intro hk
        obtain rfl := Option.some.inj hk
        exact ⟨p, AList.lookup_insert _, rfl⟩
      · rintro ⟨q, hq, hq'⟩
        rcases lookup_insert_cases hq with ⟨hk, -⟩ | ⟨-, hq⟩
        · rw [hk]
        · -- the address of another peer is taken, the new one is free
          have htaken := (h.inverse _ k).2 ⟨q, hq, hq'⟩
          exact absurd (AList.lookup_isSome.1 (by rw [htaken]; rfl)) hfree
    · rw [AList.lookup_insert_ne hstring, h.inverse ip k]
      by_cases hk : k = base64Encode p.nodeKey
      · subst hk
        rw [AList.lookup_insert, hnew]
        constructor
        · rintro ⟨q, hq, -⟩
          cases hq
        · rintro ⟨q, hq, hq'⟩
          obtain rfl := Option.some.inj hq
          exact absurd hq'.symm hstring
      · rw [AList.lookup_insert_ne hk]
  · intro k q hq
    rcases lookup_insert_cases hq with ⟨-, rfl⟩ | ⟨-, hq⟩
    · exact hip
    · exact h.assignable k q hq

/-- Every call keeps the invariant, whether it succeeds, fails or is
cancelled. -/
theorem registryInv_call {a : BitVec 32} {bits : Fin 33} {r : Registry}
    (h : RegistryInv a bits r) (newEtag : ℕ → String) (op : RegistryOp) :
    RegistryInv a bits (r.call newEtag op) := by
  rcases Registry.call_cases newEtag r op with
    hsame | ⟨key, p, p', hp, hnode, hip, heq⟩ |
      ⟨p, ip, hlen, hnew, halloc, rfl, heq⟩
  · rwa [hsame]
  · rw [heq]
    exact (h.update hp hnode hip).bumpEtagLocked newEtag
  · rw [heq]
    obtain ⟨hassign, hfree⟩ := allocateIPLocked_spec h.pool halloc
    exact (h.insert hlen hnew hassign hfree).bumpEtagLocked newEtag

structure SortedPeers (r : Registry) (out : List Peer) : Prop where
  mem_iff : ∀ p, p ∈ out ↔ ∃ key, r.peers.lookup key = some p
  nodup : out.Nodup
  increasing : out.Pairwise fun p q => p.tunnelIP.less q.tunnelIP = true

theorem RegistryInv.sortedPeers {a : BitVec 32} {bits : Fin 33} {r : Registry}
    (h : RegistryInv a bits r) {order : List Peer}
    (horder : order.Perm (values r.peers)) :
    SortedPeers r (order.mergeSort Registry.byTunnelIP) := by
  have hperm : (order.mergeSort Registry.byTunnelIP).Perm (values r.peers) :=
    (List.mergeSort_perm order _).trans horder
  have hdistinct : (order.mergeSort Registry.byTunnelIP).Pairwise
      fun p q => p.tunnelIP ≠ q.tunnelIP := by
    rw [hperm.pairwise_iff fun hne => hne.symm]
    exact pairwise_values fun k k' p p' hp hp' hne hip =>
      hne (h.tunnelIP_inj hp hp' hip)
  have hincreasing : (order.mergeSort Registry.byTunnelIP).Pairwise
      fun p q => p.tunnelIP.less q.tunnelIP = true := by
    refine ((pairwise_mergeSort_byTunnelIP order).and hdistinct).imp ?_
    rintro p q ⟨hle, hne⟩
    rw [less_iff]
    exact lt_of_le_of_ne hle fun heq => hne (addrKey_injective heq)
  refine ⟨fun p => ?_, ?_, hincreasing⟩
  · rw [hperm.mem_iff, mem_values]
  · exact hdistinct.imp fun hne heq => hne (by rw [heq])

/-- In every state that calls of `Register` and `SetEndpoints` lead to, the
representation invariant holds, and `Peers` returns every peer exactly once by
increasing address, whatever the order in which the map is iterated. -/
theorem registryInv_run (newEtag : ℕ → String) (a : BitVec 32) (bits : Fin 33)
    (ops : List RegistryOp) :
    RegistryInv a bits
        (ops.foldl (Registry.call newEtag)
          (Registry.new newEtag (Prefix.ofV4 a bits))) ∧
      (∀ key key' p p',
        (ops.foldl (Registry.call newEtag)
          (Registry.new newEtag (Prefix.ofV4 a bits))).peers.lookup key = some p →
        (ops.foldl (Registry.call newEtag)
          (Registry.new newEtag (Prefix.ofV4 a bits))).peers.lookup key' = some p' →
        p.tunnelIP = p'.tunnelIP → key = key') ∧
      ∀ order, order.Perm (values (ops.foldl (Registry.call newEtag)
          (Registry.new newEtag (Prefix.ofV4 a bits))).peers) →
        ∃ out etag, Registry.peersIn none order (ops.foldl (Registry.call newEtag)
            (Registry.new newEtag (Prefix.ofV4 a bits))) = .ok (out, etag) ∧
          SortedPeers (ops.foldl (Registry.call newEtag)
            (Registry.new newEtag (Prefix.ofV4 a bits))) out := by
  have hinv := invariant_foldl (I := RegistryInv a bits)
    (fun _ op h => registryInv_call h newEtag op) (registryInv_new newEtag a bits)
    ops
  exact ⟨hinv, fun _ _ _ _ => hinv.tunnelIP_inj,
    fun order horder => ⟨_, _, rfl, hinv.sortedPeers horder⟩⟩

end Coord

end Gretun
