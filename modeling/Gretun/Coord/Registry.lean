import Gretun.Coord.Types
import Gretun.Foundation.Assoc
import Gretun.Foundation.Channel
import Gretun.Net.Prefix

/-!
# The registry of the store

The half of `MemStore` that `mu` guards: the peers by the hexadecimal text of
their node key, the tunnel addresses by their text, the etag of the current
contents and the channel that the next change closes. `newEtag n` is the etag
that the `n`-th call of `newEtag` gives, and the clock reading of a call comes
with the call.
-/

namespace Gretun

namespace Coord

open Gretun.Net
open Foundation.Assoc
open Foundation.Channel

def publicKeySize : ℕ := 32

inductive StoreError where
  | ctx (e : CtxError)
  | keyLength (n : ℕ)
  | poolExhausted
  | unknownPeer
  deriving DecidableEq

/-- The text of an error; the text of a context error is that of the context. -/
def StoreError.text (ctxText : CtxError → String) : StoreError → String
  | ctx e => ctxText e
  | keyLength n => s!"invalid node key length {n}"
  | poolExhausted => "tunnel IP pool exhausted"
  | unknownPeer => "unknown peer"

structure Registry where
  pool : Prefix
  peers : AList fun _ : String => Peer
  byTunnel : AList fun _ : String => String
  peersEtag : String
  peersBroad : ℕ
  etagCalls : ℕ
  chans : Chans

/-- `base64Encode`, which encodes to hexadecimal. -/
def base64Encode (b : Bytes) : String := hexEncode b

def remaining : Addr → ℕ
  | .zero => 0
  | .v4 a => 2 ^ 32 - a.toNat
  | .v6 a _ => 2 ^ 128 - a.toNat

theorem remaining_next_lt {x : Addr} (h : x ≠ .zero) :
    remaining x.next < remaining x := by
  cases x with
  | zero => exact absurd rfl h
  | v4 a =>
      have hlt := a.isLt
      by_cases hmax : a = BitVec.allOnes 32
      · simp [Addr.next, hmax, remaining]
      · have hne : a.toNat ≠ 2 ^ 32 - 1 := fun h' =>
          hmax (BitVec.eq_of_toNat_eq (by simp [h']))
        simp only [Addr.next, hmax, if_false, remaining, BitVec.toNat_add]
        change 2 ^ 32 - (a.toNat + 1) % 2 ^ 32 < 2 ^ 32 - a.toNat
        omega
  | v6 a z =>
      have hlt := a.isLt
      by_cases hmax : a = BitVec.allOnes 128
      · simp [Addr.next, hmax, remaining]
      · have hne : a.toNat ≠ 2 ^ 128 - 1 := fun h' =>
          hmax (BitVec.eq_of_toNat_eq (by simp [h']))
        simp only [Addr.next, hmax, if_false, remaining, BitVec.toNat_add]
        change 2 ^ 128 - (a.toNat + 1) % 2 ^ 128 < 2 ^ 128 - a.toNat
        omega

theorem ne_zero_of_contains {pool : Prefix} {x : Addr}
    (h : pool.contains x = true) : x ≠ .zero := by
  rintro rfl
  unfold Prefix.contains at h
  split at h <;> simp_all

/-- The loop of `allocateIPLocked`, from the candidate `next` on. -/
def allocateFrom (pool : Prefix) (taken : String → Bool) (next : Addr) :
    Option Addr :=
  if _h : pool.contains next = true then
    if taken next.string then allocateFrom pool taken next.next
    else if pool.contains next.next then some next
    else none
  else none
termination_by remaining next
decreasing_by exact remaining_next_lt (ne_zero_of_contains _h)

namespace Registry

/-- The registry half of `NewMemStore`. -/
def new (newEtag : ℕ → String) (pool : Prefix) : Registry where
  pool := pool
  peers := ∅
  byTunnel := ∅
  peersEtag := newEtag 0
  peersBroad := Chans.empty.fresh
  etagCalls := 1
  chans := Chans.empty.make

def bumpEtagLocked (newEtag : ℕ → String) (r : Registry) : Registry :=
  { r with
    peersEtag := newEtag r.etagCalls
    etagCalls := r.etagCalls + 1
    peersBroad := r.chans.fresh
    chans := r.chans.make.close r.peersBroad }

def allocateIPLocked (r : Registry) : Option Addr :=
  allocateFrom r.pool (fun ip => ip ∈ r.byTunnel) r.pool.addr.next

def register (newEtag : ℕ → String) (ctx : Option CtxError) (now : Time)
    (p : Peer) (r : Registry) : Except StoreError Addr × Registry :=
  match ctx with
  | some e => (.error (.ctx e), r)
  | none =>
      if p.nodeKey.length ≠ publicKeySize then
        (.error (.keyLength p.nodeKey.length), r)
      else
        let key := base64Encode p.nodeKey
        match r.peers.lookup key with
        | some existing =>
            let existing' :=
              { existing with
                discoKey := p.discoKey
                name := p.name
                updatedAt := now }
            (.ok existing.tunnelIP,
              bumpEtagLocked newEtag
                { r with peers := r.peers.insert key existing' })
        | none =>
            match r.allocateIPLocked with
            | none => (.error .poolExhausted, r)
            | some ip =>
                let peer := { p with tunnelIP := ip, updatedAt := now }
                (.ok ip,
                  bumpEtagLocked newEtag
                    { r with
                      peers := r.peers.insert key peer
                      byTunnel := r.byTunnel.insert ip.string key })

def setEndpoints (newEtag : ℕ → String) (ctx : Option CtxError) (now : Time)
    (nodeKey : Bytes) (eps : List Endpoint) (r : Registry) :
    Except StoreError Unit × Registry :=
  match ctx with
  | some e => (.error (.ctx e), r)
  | none =>
      let key := base64Encode nodeKey
      match r.peers.lookup key with
      | none => (.error .unknownPeer, r)
      | some peer =>
          let peer' := { peer with endpoints := eps, updatedAt := now }
          (.ok (),
            bumpEtagLocked newEtag { r with peers := r.peers.insert key peer' })

/-- All that `Register` can do: it fails and changes nothing, renews the record of a
registered key, or gives a new key the next address. -/
theorem register_cases (newEtag : ℕ → String) (ctx : Option CtxError) (now : Time)
    (p : Peer) (r : Registry) :
    (∃ e, r.register newEtag ctx now p = (.error e, r)) ∨
      (∃ q, r.peers.lookup (base64Encode p.nodeKey) = some q ∧
        r.register newEtag ctx now p = (.ok q.tunnelIP, bumpEtagLocked newEtag
          { r with
            peers := r.peers.insert (base64Encode p.nodeKey)
              { q with discoKey := p.discoKey, name := p.name, updatedAt := now } })) ∨
      ∃ ip, p.nodeKey.length = publicKeySize ∧
        r.peers.lookup (base64Encode p.nodeKey) = none ∧
        r.allocateIPLocked = some ip ∧
        r.register newEtag ctx now p = (.ok ip, bumpEtagLocked newEtag
          { r with
            peers := r.peers.insert (base64Encode p.nodeKey)
              { p with tunnelIP := ip, updatedAt := now }
            byTunnel := r.byTunnel.insert ip.string (base64Encode p.nodeKey) }) := by
  cases ctx with
  | some e => exact .inl ⟨_, rfl⟩
  | none =>
      by_cases hlen : p.nodeKey.length = publicKeySize
      · cases hlookup : r.peers.lookup (base64Encode p.nodeKey) with
        | some q => exact .inr (.inl ⟨q, rfl, by simp [register, hlen, hlookup]⟩)
        | none =>
            cases hip : r.allocateIPLocked with
            | none => exact .inl ⟨.poolExhausted, by simp [register, hlen, hlookup, hip]⟩
            | some ip =>
                exact .inr (.inr ⟨ip, hlen, rfl, rfl,
                  by simp [register, hlen, hlookup, hip]⟩)
      · exact .inl ⟨.keyLength p.nodeKey.length, by simp [register, hlen]⟩

theorem register_of_error {newEtag : ℕ → String} {ctx : Option CtxError} {now : Time}
    {p : Peer} {r : Registry} {e : StoreError}
    (h : (r.register newEtag ctx now p).1 = .error e) :
    (r.register newEtag ctx now p).2 = r := by
  rcases register_cases newEtag ctx now p r with
    ⟨_, heq⟩ | ⟨_, -, heq⟩ | ⟨_, -, -, -, heq⟩
  · rw [heq]
  · rw [heq] at h
    cases h
  · rw [heq] at h
    cases h

/-- All that `SetEndpoints` can do. -/
theorem setEndpoints_cases (newEtag : ℕ → String) (ctx : Option CtxError) (now : Time)
    (nodeKey : Bytes) (eps : List Endpoint) (r : Registry) :
    (∃ e, r.setEndpoints newEtag ctx now nodeKey eps = (.error e, r)) ∨
      ∃ q, r.peers.lookup (base64Encode nodeKey) = some q ∧
        r.setEndpoints newEtag ctx now nodeKey eps = (.ok (), bumpEtagLocked newEtag
          { r with
            peers := r.peers.insert (base64Encode nodeKey)
              { q with endpoints := eps, updatedAt := now } }) := by
  cases ctx with
  | some e => exact .inl ⟨_, rfl⟩
  | none =>
      cases hlookup : r.peers.lookup (base64Encode nodeKey) with
      | none => exact .inl ⟨.unknownPeer, by simp [setEndpoints, hlookup]⟩
      | some q => exact .inr ⟨q, rfl, by simp [setEndpoints, hlookup]⟩

def byTunnelIP (p q : Peer) : Bool := !q.tunnelIP.less p.tunnelIP

/-- `Peers`, when the map is iterated in the given order. -/
def peersIn (ctx : Option CtxError) (order : List Peer) (r : Registry) :
    Except StoreError (List Peer × String) :=
  match ctx with
  | some e => .error (.ctx e)
  | none => .ok (order.mergeSort byTunnelIP, r.peersEtag)

/-- The check at the beginning of `WaitForPeersChange`: the channel to wait for,
when the etag is still the given one. -/
def waitChannel (since : String) (r : Registry) : Option ℕ :=
  if r.peersEtag ≠ since then none else some r.peersBroad

end Registry

inductive RegistryOp where
  | register (ctx : Option CtxError) (now : Time) (p : Peer)
  | setEndpoints (ctx : Option CtxError) (now : Time) (nodeKey : Bytes)
      (eps : List Endpoint)

namespace Registry

def call (newEtag : ℕ → String) (r : Registry) : RegistryOp → Registry
  | .register ctx now p => (r.register newEtag ctx now p).2
  | .setEndpoints ctx now nodeKey eps =>
      (r.setEndpoints newEtag ctx now nodeKey eps).2

/-- All that a call can do to the registry: nothing, replace the record of a
registered peer by one with the same node key and tunnel address, or insert a
record under a new key with a free address; a change bumps the etag. -/
theorem call_cases (newEtag : ℕ → String) (r : Registry) (op : RegistryOp) :
    r.call newEtag op = r ∨
      (∃ key p p', r.peers.lookup key = some p ∧ p'.nodeKey = p.nodeKey ∧
        p'.tunnelIP = p.tunnelIP ∧
        r.call newEtag op =
          bumpEtagLocked newEtag { r with peers := r.peers.insert key p' }) ∨
      ∃ p ip, p.nodeKey.length = publicKeySize ∧
        r.peers.lookup (base64Encode p.nodeKey) = none ∧
        r.allocateIPLocked = some ip ∧ p.tunnelIP = ip ∧
        r.call newEtag op = bumpEtagLocked newEtag
          { r with
            peers := r.peers.insert (base64Encode p.nodeKey) p
            byTunnel := r.byTunnel.insert ip.string (base64Encode p.nodeKey) } := by
  cases op with
  | register ctx now p =>
      rcases register_cases newEtag ctx now p r with
        ⟨e, heq⟩ | ⟨q, hq, heq⟩ | ⟨ip, hlen, hnew, hip, heq⟩
      · exact .inl (congrArg Prod.snd heq)
      · exact .inr (.inl ⟨_, q, { q with
          discoKey := p.discoKey, name := p.name, updatedAt := now }, hq, rfl, rfl,
          congrArg Prod.snd heq⟩)
      · exact .inr (.inr ⟨{ p with tunnelIP := ip, updatedAt := now }, ip, hlen, hnew,
          hip, rfl, congrArg Prod.snd heq⟩)
  | setEndpoints ctx now nodeKey eps =>
      rcases setEndpoints_cases newEtag ctx now nodeKey eps r with ⟨e, heq⟩ | ⟨q, hq, heq⟩
      · exact .inl (congrArg Prod.snd heq)
      · exact .inr (.inl ⟨_, q, { q with endpoints := eps, updatedAt := now }, hq, rfl,
          rfl, congrArg Prod.snd heq⟩)

end Registry

end Coord

end Gretun
