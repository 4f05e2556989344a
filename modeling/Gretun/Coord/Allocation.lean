import Gretun.Coord.RegistryInv
import Gretun.Foundation.Union
import Mathlib.Order.Interval.Finset.Nat

/-!
# The order in which addresses are given out

The node keys that `Register` has accepted, in the order in which each of them was
accepted first, have the addresses that follow the address of the pool. So the
allocator finds the addresses up to the number of keys taken and the next one free,
and it fails when that one is the last address of the prefix or beyond it.
-/

namespace Gretun

namespace Coord

open Gretun.Net
open Foundation.Assoc
open Foundation.Run
open Foundation.Union

def Offset (a : BitVec 32) (k : ℕ) (ip : Addr) : Prop :=
  ∃ b : BitVec 32, ip = .v4 b ∧ b.toNat = a.toNat + k

theorem Offset.eq {a : BitVec 32} {k : ℕ} {ip ip' : Addr} (h : Offset a k ip)
    (h' : Offset a k ip') : ip = ip' := by
  obtain ⟨b, rfl, hb⟩ := h
  obtain ⟨b', rfl, hb'⟩ := h'
  rw [BitVec.eq_of_toNat_eq (hb.trans hb'.symm)]

theorem offset_v4 {a b : BitVec 32} {k : ℕ} :
    Offset a k (.v4 b) ↔ b.toNat = a.toNat + k := by
  constructor
  · rintro ⟨_, heq, hb⟩
    rwa [← Addr.v4.inj heq] at hb
  · exact fun hb => ⟨b, rfl, hb⟩

/-! ## The loop -/

/-- The loop of `allocateIPLocked` in at most `n` turns; `none` when it is not over
by then. -/
def allocateWithin (pool : Prefix) (taken : String → Bool) :
    ℕ → Addr → Option (Option Addr)
  | 0, _ => none
  | n + 1, next =>
      if pool.contains next then
        if taken next.string then allocateWithin pool taken n next.next
        else if pool.contains next.next then some (some next)
        else some none
      else some none

theorem allocateFrom_of_allocateWithin {pool : Prefix} {taken : String → Bool} {n : ℕ}
    {next : Addr} {ip : Option Addr} (h : allocateWithin pool taken n next = some ip) :
    allocateFrom pool taken next = ip := by
  induction n generalizing next with
  | zero => cases h
  | succ n ih =>
      rw [allocateWithin] at h
      rw [allocateFrom]
      by_cases hin : pool.contains next = true
      · rw [if_pos hin] at h
        rw [dif_pos hin]
        by_cases htaken : taken next.string = true
        · rw [if_pos htaken] at h ⊢
          exact ih h
        · rw [if_neg htaken] at h ⊢
          split at h <;> simp_all
      · rw [if_neg hin] at h
        rw [dif_neg hin]
        exact Option.some.inj h

section Loop

variable {a : BitVec 32} {bits : Fin 33}

theorem le_last (a : BitVec 32) (bits : Fin 33) : a.toNat ≤ Prefix.last a bits :=
  Prefix.le_last_of_contains ((Prefix.ofV4_contains_v4 a a bits).mpr rfl)

/-- From an address before the last one the next candidate is in the pool. -/
theorem exists_next {c : BitVec 32} (hle : a.toNat ≤ c.toNat)
    (hlt : c.toNat < Prefix.last a bits) :
    ∃ n : BitVec 32, (Addr.v4 c).next = .v4 n ∧ n.toNat = c.toNat + 1 ∧
      (Prefix.ofV4 a bits).contains (.v4 n) = true := by
  have hin := Prefix.contains_of_le_last hle (Nat.le_of_lt hlt)
  have hnext := (Prefix.contains_next_iff hle hin).mpr hlt
  obtain ⟨n, hn⟩ := Prefix.exists_v4_of_contains hnext
  exact ⟨n, hn, next_v4 hn, hn ▸ hnext⟩

/-- When the first `len` addresses are taken, the loop passes over those that are
left of them and stops at the next one: that is the result, unless it is the last
address of the prefix or beyond. -/
theorem allocateWithin_eq (taken : String → Bool) {len : ℕ}
    (htaken : ∀ b : BitVec 32, taken (Addr.v4 b).string = true ↔
      a.toNat < b.toNat ∧ b.toNat ≤ a.toNat + len)
    (hlen : a.toNat + len ≤ Prefix.last a bits) {d : ℕ} {c : BitVec 32}
    (hc : a.toNat ≤ c.toNat) (hd : c.toNat + d = a.toNat + len) :
    ∃ ip, allocateWithin (Prefix.ofV4 a bits) taken (d + 1) (Addr.v4 c).next = some ip ∧
      (ip.isSome = true ↔ a.toNat + len + 1 < Prefix.last a bits) ∧
      ∀ x ∈ ip, Offset a (len + 1) x := by
  induction d generalizing c with
  | zero =>
      rw [allocateWithin]
      rcases Nat.lt_or_ge c.toNat (Prefix.last a bits) with hlt | hge
      · obtain ⟨n, hn, hval, hin⟩ := exists_next hc hlt
        have hfree : ¬ taken (Addr.v4 n).string = true := by
          rw [htaken]
          omega
        have hroom := Prefix.contains_next_iff (a := a) (by omega) hin
        rw [hn, if_pos hin, if_neg hfree]
        by_cases hlast : n.toNat < Prefix.last a bits
        · rw [if_pos (hroom.mpr hlast)]
          refine ⟨_, rfl, iff_of_true rfl (by omega), fun x hx => ?_⟩
          rw [← Option.some.inj hx, offset_v4]
          omega
        · rw [if_neg (fun h => hlast (hroom.mp h))]
          exact ⟨_, rfl, iff_of_false Bool.false_ne_true (by omega),
            fun x hx => by cases hx⟩
      · have hle : c.toNat ≤ Prefix.last a bits := by omega
        have hin := Prefix.contains_of_le_last hc hle
        have hout : ¬ (Prefix.ofV4 a bits).contains (Addr.v4 c).next = true := by
          rw [Prefix.contains_next_iff hc hin]
          omega
        rw [if_neg hout]
        exact ⟨_, rfl, iff_of_false Bool.false_ne_true (by omega),
          fun x hx => by cases hx⟩
  | succ d ih =>
      have hlt : c.toNat < Prefix.last a bits := by omega
      obtain ⟨n, hn, hval, hin⟩ := exists_next hc hlt
      have hold : taken (Addr.v4 n).string = true := by
        rw [htaken]
        omega
      rw [allocateWithin, hn, if_pos hin, if_pos hold]
      exact ih (by omega) (by omega)

end Loop

/-! ## The accepted keys -/

def Registry.after (newEtag : ℕ → String) (pool : Prefix) (ops : List RegistryOp) :
    Registry :=
  ops.foldl (Registry.call newEtag) (Registry.new newEtag pool)

def Registry.accepts (newEtag : ℕ → String) (r : Registry) : RegistryOp → Option Bytes
  | .register ctx now p =>
      ((r.register newEtag ctx now p).1.toOption).map fun _ => p.nodeKey
  | .setEndpoints .. => none

/-- The distinct node keys that `Register` has accepted, by their first acceptance. -/
def accepted (newEtag : ℕ → String) (pool : Prefix) (ops : List RegistryOp) :
    List Bytes :=
  (outputs (Registry.call newEtag) (Registry.accepts newEtag)
    (Registry.new newEtag pool) ops).eraseDups

/-- The accepted keys and no others are registered, with the addresses that follow
`a`. -/
structure Allocated (a : BitVec 32) (keys : List Bytes) (r : Registry) : Prop where
  nodup : keys.Nodup
  given : ∀ i nk, keys[i]? = some nk →
    ∃ p, r.peers.lookup (base64Encode nk) = some p ∧ Offset a (i + 1) p.tunnelIP
  known : ∀ key p, r.peers.lookup key = some p → p.nodeKey ∈ keys

section Run

variable {newEtag : ℕ → String} {pool : Prefix} {ops : List RegistryOp}

theorem after_concat (op : RegistryOp) :
    Registry.after newEtag pool (ops ++ [op]) =
      (Registry.after newEtag pool ops).call newEtag op := by
  rw [Registry.after, List.foldl_append]
  rfl

theorem accepted_concat (op : RegistryOp) :
    accepted newEtag pool (ops ++ [op]) =
      ((Registry.after newEtag pool ops).accepts newEtag op).elim
        (accepted newEtag pool ops)
        (appendNew id id (accepted newEtag pool ops)) := by
  rw [accepted, outputs_append, outputs, outputs, List.append_nil]
  change (_ ++ ((Registry.after newEtag pool ops).accepts newEtag op).toList).eraseDups =
    _
  cases (Registry.after newEtag pool ops).accepts newEtag op with
  | none => rw [Option.toList_none, List.append_nil]; rfl
  | some nk => exact eraseDups_concat _ nk

theorem accepted_prefix (more : List RegistryOp) :
    accepted newEtag pool ops <+: accepted newEtag pool (ops ++ more) := by
  rw [accepted, accepted, outputs_append, List.eraseDups_append]
  exact List.prefix_append _ _

end Run

section Registered

variable {a : BitVec 32} {bits : Fin 33} {r : Registry} {keys : List Bytes}

theorem Allocated.mem_iff (h : Allocated a keys r) (hinv : RegistryInv a bits r)
    (nk : Bytes) : nk ∈ keys ↔ ∃ p, r.peers.lookup (base64Encode nk) = some p := by
  constructor
  · intro hnk
    obtain ⟨i, hi⟩ := List.mem_iff_getElem?.mp hnk
    obtain ⟨p, hp, -⟩ := h.given i nk hi
    exact ⟨p, hp⟩
  · rintro ⟨p, hp⟩
    rw [hexEncode_injective (hinv.keyed _ p hp).2]
    exact h.known _ p hp

theorem Allocated.offset (h : Allocated a keys r) (hinv : RegistryInv a bits r)
    {key : String} {p : Peer} (hp : r.peers.lookup key = some p) :
    ∃ i, keys[i]? = some p.nodeKey ∧ Offset a (i + 1) p.tunnelIP := by
  obtain ⟨i, hi⟩ := List.mem_iff_getElem?.mp (h.known key p hp)
  obtain ⟨q, hq, hoffset⟩ := h.given i _ hi
  rw [← (hinv.keyed key p hp).2, hp] at hq
  exact ⟨i, hi, Option.some.inj hq ▸ hoffset⟩

theorem Allocated.taken_iff (h : Allocated a keys r) (hinv : RegistryInv a bits r)
    (b : BitVec 32) : (Addr.v4 b).string ∈ r.byTunnel ↔
      a.toNat < b.toNat ∧ b.toNat ≤ a.toNat + keys.length := by
  rw [← AList.lookup_isSome, Option.isSome_iff_exists]
  constructor
  · rintro ⟨key, hkey⟩
    obtain ⟨p, hp, hstring⟩ := (hinv.inverse _ _).mp hkey
    obtain ⟨i, hi, b', hb', hval⟩ := h.offset hinv hp
    have hlt := (List.getElem?_eq_some_iff.mp hi).1
    rw [hb'] at hstring
    rw [← string4_injective hstring]
    omega
  · rintro ⟨hlt, hle⟩
    have hi : b.toNat - a.toNat - 1 < keys.length := by omega
    obtain ⟨p, hp, hoffset⟩ := h.given _ _ (List.getElem?_eq_getElem hi)
    have hb : Offset a (b.toNat - a.toNat - 1 + 1) (.v4 b) := by
      rw [offset_v4]
      omega
    exact ⟨_, (hinv.inverse _ _).mpr ⟨p, hp, by rw [hoffset.eq hb]⟩⟩

theorem Allocated.length_le (h : Allocated a keys r) (hinv : RegistryInv a bits r) :
    a.toNat + keys.length ≤ Prefix.last a bits := by
  rcases Nat.eq_zero_or_pos keys.length with hzero | hpos
  · rw [hzero]
    exact le_last a bits
  · have hi : keys.length - 1 < keys.length := by omega
    obtain ⟨p, hp, b, hb, hval⟩ := h.given _ _ (List.getElem?_eq_getElem hi)
    have hassign := hinv.assignable _ p hp
    rw [hb] at hassign
    have hle := Prefix.le_last_of_contains hassign.contained
    omega

theorem Allocated.allocate (h : Allocated a keys r) (hinv : RegistryInv a bits r) :
    allocateWithin r.pool (fun ip => ip ∈ r.byTunnel) (keys.length + 1)
        r.pool.addr.next = some r.allocateIPLocked ∧
      (r.allocateIPLocked.isSome = true ↔
        a.toNat + keys.length + 1 < Prefix.last a bits) ∧
      ∀ ip, r.allocateIPLocked = some ip → Offset a (keys.length + 1) ip := by
  have htaken (b : BitVec 32) : decide ((Addr.v4 b).string ∈ r.byTunnel) = true ↔
      a.toNat < b.toNat ∧ b.toNat ≤ a.toNat + keys.length := by
    rw [decide_eq_true_iff]
    exact h.taken_iff hinv b
  obtain ⟨ip, heq, hsome, hoffset⟩ :=
    allocateWithin_eq (fun ip => decide (ip ∈ r.byTunnel)) htaken
      (h.length_le hinv) (le_refl a.toNat) rfl
  have hpool : r.pool.addr = .v4 a := by rw [hinv.pool]; rfl
  have hip : r.allocateIPLocked = ip := by
    rw [Registry.allocateIPLocked, hpool, hinv.pool]
    exact allocateFrom_of_allocateWithin heq
  rw [hip, hpool, hinv.pool]
  exact ⟨heq, hsome, fun x hx => hoffset x (Option.mem_def.mpr hx)⟩

theorem Allocated.update (h : Allocated a keys r) {key : String} {p q : Peer}
    (hp : r.peers.lookup key = some p) (hkey : q.nodeKey = p.nodeKey)
    (hip : q.tunnelIP = p.tunnelIP) (newEtag : ℕ → String) :
    Allocated a keys
      (Registry.bumpEtagLocked newEtag { r with peers := r.peers.insert key q }) := by
  refine ⟨h.nodup, fun i nk hi => ?_, fun k p' hp' => ?_⟩
  · obtain ⟨p', hp', hoffset⟩ := h.given i nk hi
    by_cases hk : base64Encode nk = key
    · subst hk
      obtain rfl := Option.some.inj (hp.symm.trans hp')
      exact ⟨q, AList.lookup_insert _, hip ▸ hoffset⟩
    · exact ⟨p', (AList.lookup_insert_ne hk).trans hp', hoffset⟩
  · rcases lookup_insert_cases hp' with ⟨-, rfl⟩ | ⟨-, hp'⟩
    · exact hkey ▸ h.known key p hp
    · exact h.known k p' hp'

theorem Allocated.insert (h : Allocated a keys r) {p : Peer}
    (hnew : r.peers.lookup (base64Encode p.nodeKey) = none)
    (hip : Offset a (keys.length + 1) p.tunnelIP) (newEtag : ℕ → String)
    (byTunnel : AList fun _ : String => String) :
    Allocated a (keys ++ [p.nodeKey])
      (Registry.bumpEtagLocked newEtag
        { r with
          peers := r.peers.insert (base64Encode p.nodeKey) p
          byTunnel := byTunnel }) := by
  have hfresh : p.nodeKey ∉ keys := by
    intro hmem
    obtain ⟨i, hi⟩ := List.mem_iff_getElem?.mp hmem
    obtain ⟨q, hq, -⟩ := h.given i _ hi
    cases hnew.symm.trans hq
  refine ⟨List.concat_eq_append ▸ h.nodup.concat hfresh, fun i nk hi => ?_,
    fun k q hq => ?_⟩
  · rcases Nat.lt_or_ge i keys.length with hlt | hge
    · rw [List.getElem?_append_left hlt] at hi
      obtain ⟨q, hq, hoffset⟩ := h.given i nk hi
      have hk : base64Encode nk ≠ base64Encode p.nodeKey := by
        intro heq
        rw [heq, hnew] at hq
        cases hq
      exact ⟨q, (AList.lookup_insert_ne hk).trans hq, hoffset⟩
    · have hlt := (List.getElem?_eq_some_iff.mp hi).1
      rw [List.length_append, List.length_singleton] at hlt
      obtain rfl : i = keys.length := by omega
      rw [List.getElem?_concat_length] at hi
      obtain rfl := Option.some.inj hi
      exact ⟨p, AList.lookup_insert _, hip⟩
  · rcases lookup_insert_cases hq with ⟨-, rfl⟩ | ⟨-, hq⟩
    · exact List.mem_append_right _ (List.mem_singleton_self _)
    · exact List.mem_append_left _ (h.known k q hq)

theorem Allocated.call (h : Allocated a keys r) (hinv : RegistryInv a bits r)
    (newEtag : ℕ → String) (op : RegistryOp) :
    Allocated a ((r.accepts newEtag op).elim keys (appendNew id id keys))
      (r.call newEtag op) := by
  cases op with
  | register ctx now p =>
      rcases r.register_cases newEtag ctx now p with
        ⟨e, heq⟩ | ⟨q, hq, heq⟩ | ⟨ip, hlen, hnew, hip, heq⟩
      · rw [Registry.call, Registry.accepts, heq]
        exact h
      · have hmem : p.nodeKey ∈ keys.map id := by
          rw [List.map_id]
          exact (h.mem_iff hinv _).mpr ⟨q, hq⟩
        rw [Registry.call, Registry.accepts, heq]
        change Allocated a (appendNew id id keys p.nodeKey) _
        rw [appendNew_of_mem hmem]
        exact h.update (q := { q with
          discoKey := p.discoKey, name := p.name, updatedAt := now }) hq rfl rfl newEtag
      · have hmem : p.nodeKey ∉ keys.map id := by
          rw [List.map_id, h.mem_iff hinv, hnew]
          rintro ⟨q, hq⟩
          cases hq
        rw [Registry.call, Registry.accepts, heq]
        change Allocated a (appendNew id id keys p.nodeKey) _
        rw [appendNew_of_notMem hmem]
        exact h.insert (p := { p with tunnelIP := ip, updatedAt := now }) hnew
          ((h.allocate hinv).2.2 ip hip) newEtag _
  | setEndpoints ctx now nodeKey eps =>
      rcases r.setEndpoints_cases newEtag ctx now nodeKey eps with
        ⟨e, heq⟩ | ⟨q, hq, heq⟩
      · rw [Registry.call, heq]
        exact h
      · rw [Registry.call, heq]
        exact h.update (q := { q with endpoints := eps, updatedAt := now }) hq rfl rfl
          newEtag

end Registered

/-- The invariant of the registry and the order of the addresses hold after all
calls. -/
theorem allocated_after (newEtag : ℕ → String) (a : BitVec 32) (bits : Fin 33)
    (ops : List RegistryOp) :
    RegistryInv a bits (Registry.after newEtag (Prefix.ofV4 a bits) ops) ∧
      Allocated a (accepted newEtag (Prefix.ofV4 a bits) ops)
        (Registry.after newEtag (Prefix.ofV4 a bits) ops) := by
  induction ops using List.reverseRecOn with
  | nil =>
      refine ⟨registryInv_new newEtag a bits, List.nodup_nil, fun i nk hi => ?_,
        fun key p hp => ?_⟩
      · cases hi
      · simp [Registry.after, Registry.new] at hp
  | append_singleton ops op ih =>
      rw [after_concat, accepted_concat]
      exact ⟨registryInv_call ih.1 newEtag op, ih.2.call ih.1 newEtag op⟩

theorem Allocated.length_keys {a : BitVec 32} {bits : Fin 33} {r : Registry}
    {keys : List Bytes} (h : Allocated a keys r) (hinv : RegistryInv a bits r) :
    r.peers.keys.length = keys.length := by
  have hperm : r.peers.keys.Perm (keys.map base64Encode) := by
    refine (List.perm_ext_iff_of_nodup r.peers.nodupKeys
      (h.nodup.map hexEncode_injective)).mpr fun key => ?_
    change key ∈ r.peers.keys ↔ key ∈ keys.map base64Encode
    rw [← AList.mem_keys, ← AList.lookup_isSome, Option.isSome_iff_exists, List.mem_map]
    constructor
    · rintro ⟨p, hp⟩
      exact ⟨p.nodeKey, h.known key p hp, (hinv.keyed key p hp).2.symm⟩
    · rintro ⟨nk, hnk, rfl⟩
      exact (h.mem_iff hinv nk).mp hnk
  rw [hperm.length_eq, List.length_map]

theorem register_of_lookup {r : Registry} {p q : Peer} (newEtag : ℕ → String) (now : Time)
    (hlen : p.nodeKey.length = publicKeySize)
    (hq : r.peers.lookup (base64Encode p.nodeKey) = some q) :
    (r.register newEtag none now p).1 = .ok q.tunnelIP := by
  simp [Registry.register, hlen, hq]

theorem register_of_new {r : Registry} {p : Peer} (newEtag : ℕ → String) (now : Time)
    (hlen : p.nodeKey.length = publicKeySize)
    (hnew : r.peers.lookup (base64Encode p.nodeKey) = none) (ip : Addr) :
    (r.register newEtag none now p).1 = .ok ip ↔ r.allocateIPLocked = some ip := by
  cases halloc : r.allocateIPLocked <;> simp [Registry.register, hlen, hnew, halloc]

/-- Allocation is stable, sequential and exact. After any calls on a new store with an
IPv4 pool, the accepted keys keep their places. A key at place `i` is given the address
`i + 1` steps beyond that of the pool again. A new key is accepted exactly if fewer keys
are registered than there are addresses between that of the pool and the last one, and
it gets the next address. A call that fails changes nothing, and the loop is over after
at most one turn more than there are keys. -/
theorem register_sequential (newEtag : ℕ → String) (a : BitVec 32) (bits : Fin 33)
    (ops : List RegistryOp) :
    ((accepted newEtag (Prefix.ofV4 a bits) ops).Nodup ∧
      ∀ more, accepted newEtag (Prefix.ofV4 a bits) ops <+:
        accepted newEtag (Prefix.ofV4 a bits) (ops ++ more)) ∧
    (∀ now p i, (accepted newEtag (Prefix.ofV4 a bits) ops)[i]? = some p.nodeKey →
      ∃ ip, ((Registry.after newEtag (Prefix.ofV4 a bits) ops).register
        newEtag none now p).1 = .ok ip ∧ Offset a (i + 1) ip) ∧
    (∀ now p, p.nodeKey.length = publicKeySize →
      p.nodeKey ∉ accepted newEtag (Prefix.ofV4 a bits) ops →
      ((∃ ip, ((Registry.after newEtag (Prefix.ofV4 a bits) ops).register
          newEtag none now p).1 = .ok ip) ↔
        (Registry.after newEtag (Prefix.ofV4 a bits) ops).peers.keys.length <
          (Finset.Ioo a.toNat (Prefix.last a bits)).card) ∧
      ∀ ip, ((Registry.after newEtag (Prefix.ofV4 a bits) ops).register
          newEtag none now p).1 = .ok ip →
        accepted newEtag (Prefix.ofV4 a bits) (ops ++ [.register none now p]) =
          accepted newEtag (Prefix.ofV4 a bits) ops ++ [p.nodeKey] ∧
        Offset a ((accepted newEtag (Prefix.ofV4 a bits) ops).length + 1) ip) ∧
    (∀ ctx now p e, ((Registry.after newEtag (Prefix.ofV4 a bits) ops).register
        newEtag ctx now p).1 = .error e →
      ((Registry.after newEtag (Prefix.ofV4 a bits) ops).register newEtag ctx now p).2 =
        Registry.after newEtag (Prefix.ofV4 a bits) ops) ∧
    allocateWithin (Prefix.ofV4 a bits)
        (fun ip => ip ∈ (Registry.after newEtag (Prefix.ofV4 a bits) ops).byTunnel)
        ((accepted newEtag (Prefix.ofV4 a bits) ops).length + 1) (Addr.v4 a).next =
      some (Registry.after newEtag (Prefix.ofV4 a bits) ops).allocateIPLocked := by
  obtain ⟨hinv, h⟩ := allocated_after newEtag a bits ops
  obtain ⟨hloop, hsome, hoffset⟩ := h.allocate hinv
  rw [hinv.pool] at hloop
  refine ⟨⟨h.nodup, fun more => accepted_prefix more⟩, fun now p i hi => ?_,
    fun now p hlen hnew => ?_, fun ctx now p e => Registry.register_of_error, hloop⟩
  · obtain ⟨q, hq, hip⟩ := h.given i _ hi
    obtain ⟨hlen, hkey⟩ := hinv.keyed _ q hq
    rw [← hexEncode_injective hkey] at hlen
    exact ⟨_, register_of_lookup newEtag now hlen hq, hip⟩
  · rw [h.mem_iff hinv, ← Option.isSome_iff_exists, Bool.not_eq_true,
      Option.isSome_eq_false_iff, Option.isNone_iff_eq_none] at hnew
    have hok := register_of_new newEtag now hlen hnew
    refine ⟨?_, fun ip hip => ⟨?_, hoffset ip ((hok ip).mp hip)⟩⟩
    · rw [exists_congr hok, ← Option.isSome_iff_exists, hsome, h.length_keys hinv,
        Nat.card_Ioo]
      omega
    · have hfresh : p.nodeKey ∉ (accepted newEtag (Prefix.ofV4 a bits) ops).map id := by
        rw [List.map_id, h.mem_iff hinv, hnew]
        rintro ⟨q, hq⟩
        cases hq
      rw [accepted_concat, Registry.accepts, hip]
      exact appendNew_of_notMem hfresh

end Coord

end Gretun
