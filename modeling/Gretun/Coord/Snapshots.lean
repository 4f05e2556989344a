import Gretun.Coord.Registry
import Gretun.Foundation.Run
import Gretun.Foundation.Slice

/-!
# Lists handed out by the store

The registry with the endpoints of a peer as a slice, as the code has them. `Peers`
copies the records it returns, and with them the slices but not their arrays;
`SetEndpoints` appends to `Endpoints[:0]`, so that as long as the capacity lasts the
new endpoints are written over the old ones, in an array that lists handed out
earlier may still show. The registry in which endpoints are plain values is that of
`Coord.Registry`, here with the answers that `Peers` has given.
-/

namespace Gretun

namespace Coord

open Gretun.Net
open Foundation.Assoc
open Foundation.Channel
open Foundation.GoSlice
open Foundation.Run

/-- The zero value. -/
instance : Inhabited Endpoint := ⟨⟨.zero, ""⟩⟩

structure Record where
  nodeKey : Bytes
  discoKey : Key
  name : String
  tunnelIP : Addr
  endpoints : Slice
  updatedAt : Time

def Record.read (h : Heap Endpoint) (p : Record) : Peer where
  nodeKey := p.nodeKey
  discoKey := p.discoKey
  name := p.name
  tunnelIP := p.tunnelIP
  endpoints := p.endpoints.toList h
  updatedAt := p.updatedAt

/-- The half of `MemStore` that `mu` guards, with the heap and the answers of
`Peers` so far. -/
structure MemStore where
  heap : Heap Endpoint
  pool : Prefix
  peers : AList fun _ : String => Record
  byTunnel : AList fun _ : String => String
  peersEtag : String
  peersBroad : ℕ
  etagCalls : ℕ
  chans : Chans
  handedOut : List (List Record × String)

/-- A call of the store. The endpoints in an argument are in an array of their own;
`extra` is the spare capacity of that array or of one that `append` allocates, and
`order` the order in which `Peers` comes to the keys of the map. -/
inductive RegistryCall where
  | register (ctx : Option CtxError) (now : Time) (p : Peer) (extra : ℕ)
  | setEndpoints (ctx : Option CtxError) (now : Time) (nodeKey : Bytes)
      (eps : List Endpoint) (extra : ℕ)
  | peers (ctx : Option CtxError) (order : List String)

namespace MemStore

def new (newEtag : ℕ → String) (pool : Prefix) : MemStore where
  heap := Heap.empty
  pool := pool
  peers := ∅
  byTunnel := ∅
  peersEtag := newEtag 0
  peersBroad := Chans.empty.fresh
  etagCalls := 1
  chans := Chans.empty.make
  handedOut := []

def bumpEtagLocked (newEtag : ℕ → String) (s : MemStore) : MemStore :=
  { s with
    peersEtag := newEtag s.etagCalls
    etagCalls := s.etagCalls + 1
    peersBroad := s.chans.fresh
    chans := s.chans.make.close s.peersBroad }

def allocateIPLocked (s : MemStore) : Option Addr :=
  allocateFrom s.pool (fun ip => ip ∈ s.byTunnel) s.pool.addr.next

def register (newEtag : ℕ → String) (ctx : Option CtxError) (now : Time)
    (p : Peer) (extra : ℕ) (s : MemStore) : Except StoreError Addr × MemStore :=
  match ctx with
  | some e => (.error (.ctx e), s)
  | none =>
      if p.nodeKey.length ≠ publicKeySize then
        (.error (.keyLength p.nodeKey.length), s)
      else
        let key := base64Encode p.nodeKey
        match s.peers.lookup key with
        | some existing =>
            let existing' :=
              { existing with
                discoKey := p.discoKey
                name := p.name
                updatedAt := now }
            (.ok existing.tunnelIP,
              bumpEtagLocked newEtag
                { s with peers := s.peers.insert key existing' })
        | none =>
            match s.allocateIPLocked with
            | none => (.error .poolExhausted, s)
            | some ip =>
                let arg := Slice.ofList extra s.heap p.endpoints
                let peer : Record :=
                  { nodeKey := p.nodeKey
                    discoKey := p.discoKey
                    name := p.name
                    tunnelIP := ip
                    endpoints := arg.2
                    updatedAt := now }
                (.ok ip,
                  bumpEtagLocked newEtag
                    { s with
                      heap := arg.1
                      peers := s.peers.insert key peer
                      byTunnel := s.byTunnel.insert ip.string key })

def setEndpoints (newEtag : ℕ → String) (ctx : Option CtxError) (now : Time)
    (nodeKey : Bytes) (eps : List Endpoint) (extra : ℕ) (s : MemStore) :
    Except StoreError Unit × MemStore :=
  match ctx with
  | some e => (.error (.ctx e), s)
  | none =>
      let key := base64Encode nodeKey
      match s.peers.lookup key with
      | none => (.error .unknownPeer, s)
      | some peer =>
          let stored := Slice.appendAll extra s.heap peer.endpoints.reset eps
          let peer' := { peer with endpoints := stored.2, updatedAt := now }
          (.ok (),
            bumpEtagLocked newEtag
              { s with heap := stored.1, peers := s.peers.insert key peer' })

def byTunnelIP (p q : Record) : Bool := !q.tunnelIP.less p.tunnelIP

def peersIn (ctx : Option CtxError) (order : List Record) (s : MemStore) :
    Except StoreError (List Record × String) :=
  match ctx with
  | some e => .error (.ctx e)
  | none => .ok (order.mergeSort byTunnelIP, s.peersEtag)

def step (newEtag : ℕ → String) (s : MemStore) : RegistryCall → MemStore
  | .register ctx now p extra => (s.register newEtag ctx now p extra).2
  | .setEndpoints ctx now nodeKey eps extra =>
      (s.setEndpoints newEtag ctx now nodeKey eps extra).2
  | .peers ctx order =>
      if order.Perm s.peers.keys then
        { s with
          handedOut := s.handedOut ++
            (s.peersIn ctx (order.filterMap s.peers.lookup)).toOption.toList }
      else s

end MemStore

/-- The registry of plain values, with the answers of `Peers` so far. -/
structure PlainStore where
  registry : Registry
  answers : List (List Peer × String)

namespace PlainStore

def step (newEtag : ℕ → String) (s : PlainStore) : RegistryCall → PlainStore
  | .register ctx now p _ =>
      { s with registry := (s.registry.register newEtag ctx now p).2 }
  | .setEndpoints ctx now nodeKey eps _ =>
      { s with registry := (s.registry.setEndpoints newEtag ctx now nodeKey eps).2 }
  | .peers ctx order =>
      if order.Perm s.registry.peers.keys then
        { s with
          answers := s.answers ++ (s.registry.peersIn ctx
            (order.filterMap s.registry.peers.lookup)).toOption.toList }
      else s

end PlainStore

namespace MemStore

def registry (s : MemStore) : Registry where
  pool := s.pool
  peers := mapValues (Record.read s.heap) s.peers
  byTunnel := s.byTunnel
  peersEtag := s.peersEtag
  peersBroad := s.peersBroad
  etagCalls := s.etagCalls
  chans := s.chans

def readAnswer (h : Heap Endpoint) (answer : List Record × String) :
    List Peer × String :=
  (answer.1.map (Record.read h), answer.2)

def view (s : MemStore) : PlainStore :=
  ⟨s.registry, s.handedOut.map (readAnswer s.heap)⟩

/-! ## What the calls do at the two levels -/

theorem lookup_registry (s : MemStore) (key : String) :
    s.registry.peers.lookup key = (s.peers.lookup key).map (Record.read s.heap) :=
  lookup_mapValues _ _ _

theorem allocateIPLocked_registry (s : MemStore) :
    s.registry.allocateIPLocked = s.allocateIPLocked := rfl

/-- `Register` fails, updates the record of the peer, or stores a new one. -/
theorem register_cases (newEtag : ℕ → String) (ctx : Option CtxError) (now : Time)
    (p : Peer) (extra : ℕ) (s : MemStore) :
    ((s.register newEtag ctx now p extra).2 = s ∧
      (s.registry.register newEtag ctx now p).2 = s.registry) ∨
    (∃ key existing, s.peers.lookup key = some existing ∧
      (s.register newEtag ctx now p extra).2 =
        bumpEtagLocked newEtag
          { s with
            peers := s.peers.insert key
              { existing with
                discoKey := p.discoKey
                name := p.name
                updatedAt := now } } ∧
      (s.registry.register newEtag ctx now p).2 =
        Registry.bumpEtagLocked newEtag
          { s.registry with
            peers := s.registry.peers.insert key
              { existing.read s.heap with
                discoKey := p.discoKey
                name := p.name
                updatedAt := now } }) ∨
    ∃ key ip, s.peers.lookup key = none ∧
      (s.register newEtag ctx now p extra).2 =
        bumpEtagLocked newEtag
          { s with
            heap := (Slice.ofList extra s.heap p.endpoints).1
            peers := s.peers.insert key
              { nodeKey := p.nodeKey
                discoKey := p.discoKey
                name := p.name
                tunnelIP := ip
                endpoints := (Slice.ofList extra s.heap p.endpoints).2
                updatedAt := now }
            byTunnel := s.byTunnel.insert ip.string key } ∧
      (s.registry.register newEtag ctx now p).2 =
        Registry.bumpEtagLocked newEtag
          { s.registry with
            peers := s.registry.peers.insert key
              { p with tunnelIP := ip, updatedAt := now }
            byTunnel := s.registry.byTunnel.insert ip.string key } := by
  cases ctx with
  | some e => exact Or.inl ⟨rfl, rfl⟩
  | none =>
      by_cases hlen : p.nodeKey.length = publicKeySize
      · have hread := s.lookup_registry (base64Encode p.nodeKey)
        have halloc := s.allocateIPLocked_registry
        cases hlookup : s.peers.lookup (base64Encode p.nodeKey) with
        | some existing =>
            refine Or.inr (Or.inl ⟨base64Encode p.nodeKey, existing, hlookup, ?_, ?_⟩)
            · simp [register, hlen, hlookup]
            · simp [Registry.register, hlen, hread, hlookup]
        | none =>
            cases hip : s.allocateIPLocked with
            | none =>
                left
                simp [register, Registry.register, hlen, hread, hlookup, halloc, hip]
            | some ip =>
                refine Or.inr (Or.inr ⟨base64Encode p.nodeKey, ip, hlookup, ?_, ?_⟩)
                · simp [register, hlen, hlookup, hip]
                · simp [Registry.register, hlen, hread, hlookup, halloc, hip]
      · left
        simp [register, Registry.register, hlen]

theorem setEndpoints_cases (newEtag : ℕ → String) (ctx : Option CtxError)
    (now : Time) (nodeKey : Bytes) (eps : List Endpoint) (extra : ℕ) (s : MemStore) :
    ((s.setEndpoints newEtag ctx now nodeKey eps extra).2 = s ∧
      (s.registry.setEndpoints newEtag ctx now nodeKey eps).2 = s.registry ∧
      (ctx = none → s.peers.lookup (base64Encode nodeKey) = none)) ∨
    ∃ peer, ctx = none ∧ s.peers.lookup (base64Encode nodeKey) = some peer ∧
      (s.setEndpoints newEtag ctx now nodeKey eps extra).2 =
        bumpEtagLocked newEtag
          { s with
            heap := (Slice.appendAll extra s.heap peer.endpoints.reset eps).1
            peers := s.peers.insert (base64Encode nodeKey)
              { peer with
                endpoints := (Slice.appendAll extra s.heap peer.endpoints.reset eps).2
                updatedAt := now } } ∧
      (s.registry.setEndpoints newEtag ctx now nodeKey eps).2 =
        Registry.bumpEtagLocked newEtag
          { s.registry with
            peers := s.registry.peers.insert (base64Encode nodeKey)
              { peer.read s.heap with
                endpoints := eps
                updatedAt := now } } := by
  cases ctx with
  | some e => exact Or.inl ⟨rfl, rfl, fun h => by cases h⟩
  | none =>
      have hread := s.lookup_registry (base64Encode nodeKey)
      cases hlookup : s.peers.lookup (base64Encode nodeKey) with
      | none =>
          left
          simp [setEndpoints, Registry.setEndpoints, hread, hlookup]
      | some peer =>
          refine Or.inr ⟨peer, rfl, rfl, ?_, ?_⟩
          · simp [setEndpoints, hlookup]
          · simp [Registry.setEndpoints, hread, hlookup]

/-! ## Where the endpoints are -/

def Placed (h : Heap Endpoint) (p : Record) : Prop :=
  p.endpoints.off = 0 ∧ p.endpoints.arr < h.next

structure Sound (s : MemStore) : Prop where
  peers : ∀ key p, s.peers.lookup key = some p → Placed s.heap p
  apart : ∀ key key' p p', s.peers.lookup key = some p →
    s.peers.lookup key' = some p' → p.endpoints.arr = p'.endpoints.arr → key = key'
  handedOut : ∀ answer ∈ s.handedOut, ∀ p ∈ answer.1, Placed s.heap p

theorem Placed.mono {h h' : Heap Endpoint} {p : Record} (hp : Placed h p)
    (hnext : h.next ≤ h'.next) : Placed h' p :=
  ⟨hp.1, hp.2.trans_le hnext⟩

theorem sound_new (newEtag : ℕ → String) (pool : Prefix) :
    (new newEtag pool).Sound where
  peers key p h := by cases h
  apart key key' p p' h := by cases h
  handedOut answer h := by cases h

theorem Sound.insert {s s' : MemStore} (hs : s.Sound) {key : String} {p : Record}
    (hpeers : s'.peers = s.peers.insert key p) (hanswers : s'.handedOut = s.handedOut)
    (hnext : s.heap.next ≤ s'.heap.next) (hp : Placed s'.heap p)
    (hfree : ∀ key' q, key' ≠ key → s.peers.lookup key' = some q →
      q.endpoints.arr ≠ p.endpoints.arr) : s'.Sound where
  peers key' q h := by
    rw [hpeers] at h
    rcases lookup_insert_cases h with ⟨-, rfl⟩ | ⟨-, hq⟩
    · exact hp
    · exact (hs.peers key' q hq).mono hnext
  apart key₁ key₂ q₁ q₂ h₁ h₂ harr := by
    rw [hpeers] at h₁ h₂
    rcases lookup_insert_cases h₁ with ⟨hk₁, rfl⟩ | ⟨hk₁, hq₁⟩ <;>
      rcases lookup_insert_cases h₂ with ⟨hk₂, rfl⟩ | ⟨hk₂, hq₂⟩
    · rw [hk₁, hk₂]
    · exact absurd harr.symm (hfree key₂ q₂ hk₂ hq₂)
    · exact absurd harr (hfree key₁ q₁ hk₁ hq₁)
    · exact hs.apart key₁ key₂ q₁ q₂ hq₁ hq₂ harr
  handedOut answer h q hq := by
    rw [hanswers] at h
    exact (hs.handedOut answer h q hq).mono hnext

theorem Sound.register {s : MemStore} (hs : s.Sound) (newEtag : ℕ → String)
    (ctx : Option CtxError) (now : Time) (p : Peer) (extra : ℕ) :
    (s.register newEtag ctx now p extra).2.Sound := by
  rcases register_cases newEtag ctx now p extra s with
    ⟨heq, -⟩ | ⟨key, existing, hlookup, heq, -⟩ | ⟨key, ip, -, heq, -⟩
  · rwa [heq]
  · rw [heq]
    refine hs.insert rfl rfl le_rfl (hs.peers key existing hlookup) ?_
    exact fun key' q hne hq harr => hne (hs.apart _ _ _ _ hq hlookup harr)
  · rw [heq]
    refine hs.insert rfl rfl (Nat.le_succ _) ⟨rfl, Nat.lt_succ_self _⟩ ?_
    exact fun key' q _ hq => (hs.peers key' q hq).2.ne

theorem Sound.setEndpoints {s : MemStore} (hs : s.Sound) (newEtag : ℕ → String)
    (ctx : Option CtxError) (now : Time) (nodeKey : Bytes) (eps : List Endpoint)
    (extra : ℕ) : (s.setEndpoints newEtag ctx now nodeKey eps extra).2.Sound := by
  rcases setEndpoints_cases newEtag ctx now nodeKey eps extra s with
    ⟨heq, -⟩ | ⟨peer, -, hlookup, heq, -⟩
  · rwa [heq]
  · rw [heq]
    have hpeer := hs.peers _ peer hlookup
    rcases Slice.appendAll_reset_cases extra s.heap peer.endpoints eps with
      ⟨harr, hoff, hnext⟩ | ⟨harr, hoff, hnext⟩
    · refine hs.insert rfl rfl hnext.ge ⟨hoff.trans hpeer.1, ?_⟩ ?_
      · exact harr.trans_lt (hpeer.2.trans_eq hnext.symm)
      · intro key' q hne hq heq
        exact hne (hs.apart _ _ _ _ hq hlookup (heq.trans harr))
    · refine hs.insert rfl rfl ((Nat.le_succ _).trans_eq hnext.symm) ⟨hoff, ?_⟩ ?_
      · exact harr.trans_lt ((Nat.lt_succ_self _).trans_eq hnext.symm)
      · intro key' q _ hq heq
        exact (hs.peers key' q hq).2.ne (heq.trans harr)

theorem Sound.peersIn {s : MemStore} (hs : s.Sound) (ctx : Option CtxError)
    (order : List String) {answer : List Record × String}
    (h : s.peersIn ctx (order.filterMap s.peers.lookup) = .ok answer) {p : Record}
    (hp : p ∈ answer.1) : Placed s.heap p := by
  unfold MemStore.peersIn at h
  split at h <;> cases h
  obtain ⟨key, -, hkey⟩ := List.mem_filterMap.1 (List.mem_mergeSort.1 hp)
  exact hs.peers key p hkey

theorem Sound.step {s : MemStore} (hs : s.Sound) (newEtag : ℕ → String)
    (c : RegistryCall) : (s.step newEtag c).Sound := by
  cases c with
  | register ctx now p extra => exact hs.register newEtag ctx now p extra
  | setEndpoints ctx now nodeKey eps extra =>
      exact hs.setEndpoints newEtag ctx now nodeKey eps extra
  | peers ctx order =>
      simp only [MemStore.step]
      split
      · refine ⟨hs.peers, hs.apart, fun answer hanswer p hp => ?_⟩
        rcases List.mem_append.1 hanswer with hold | hnew
        · exact hs.handedOut answer hold p hp
        · cases hpeers : s.peersIn ctx (order.filterMap s.peers.lookup) with
          | error err => simp [hpeers, Except.toOption] at hnew
          | ok out =>
              obtain rfl : answer = out := by simpa [hpeers, Except.toOption] using hnew
              exact hs.peersIn ctx order hpeers hp
      · exact hs

/-! ## What the lists show -/

theorem read_eq_iff {h h' : Heap Endpoint} {p : Record} :
    p.read h' = p.read h ↔ p.endpoints.toList h' = p.endpoints.toList h := by
  simp [Record.read]

theorem answers_eq_iff {h h' : Heap Endpoint} {answers : List (List Record × String)} :
    answers.map (readAnswer h') = answers.map (readAnswer h) ↔
      ∀ answer ∈ answers, ∀ p ∈ answer.1,
        p.endpoints.toList h' = p.endpoints.toList h := by
  simp only [List.map_inj_left, readAnswer, Prod.mk.injEq, and_true, read_eq_iff]

theorem view_insert (newEtag : ℕ → String) {s : MemStore} {h : Heap Endpoint}
    (byTunnel : AList fun _ : String => String) {key : String} (p : Record)
    (hother : ∀ key' q, key' ≠ key → s.peers.lookup key' = some q →
      q.endpoints.toList h = q.endpoints.toList s.heap) :
    (bumpEtagLocked newEtag
      { s with
        heap := h
        peers := s.peers.insert key p
        byTunnel := byTunnel }).view =
      ⟨Registry.bumpEtagLocked newEtag
        { s.registry with
          peers := s.registry.peers.insert key (p.read h)
          byTunnel := byTunnel }, s.handedOut.map (readAnswer h)⟩ := by
  have hinsert : mapValues (Record.read h) (s.peers.insert key p) =
      s.registry.peers.insert key (p.read h) :=
    mapValues_insert fun key' q hne hq => read_eq_iff.2 (hother key' q hne hq)
  simp only [view, registry, bumpEtagLocked, Registry.bumpEtagLocked, hinsert]

theorem view_register {s : MemStore} (hs : s.Sound) (newEtag : ℕ → String)
    (ctx : Option CtxError) (now : Time) (p : Peer) (extra : ℕ) :
    (s.register newEtag ctx now p extra).2.view =
      ⟨(s.registry.register newEtag ctx now p).2, s.view.answers⟩ := by
  rcases register_cases newEtag ctx now p extra s with
    ⟨heq, hplain⟩ | ⟨key, existing, -, heq, hplain⟩ | ⟨key, ip, -, heq, hplain⟩
  · rw [heq, hplain]
    rfl
  · rw [heq, hplain]
    exact view_insert newEtag s.byTunnel _ fun _ _ _ _ => rfl
  · -- the argument's array is fresh, so nothing that was there reads differently
    have hfresh : ∀ {q : Record}, Placed s.heap q → q.endpoints.toList
        (Slice.ofList extra s.heap p.endpoints).1 = q.endpoints.toList s.heap :=
      fun hq => Slice.toList_alloc hq.2 p.endpoints
    have hanswers := answers_eq_iff.2 fun answer hanswer q hq =>
      hfresh (hs.handedOut answer hanswer q hq)
    have hlist := Slice.toList_ofList extra s.heap p.endpoints
    have hother := fun key' q (_ : key' ≠ key) hq => hfresh (hs.peers key' q hq)
    rw [heq, hplain, view_insert newEtag _ _ hother, hanswers, Record.read, hlist]
    rfl

theorem view_peers (s : MemStore) (newEtag : ℕ → String) (ctx : Option CtxError)
    (order : List String) :
    (s.step newEtag (.peers ctx order)).view =
      s.view.step newEtag (.peers ctx order) := by
  have hkeys : s.view.registry.peers.keys = s.peers.keys := keys_mapValues _ _
  have hlookup : order.filterMap s.view.registry.peers.lookup =
      (order.filterMap s.peers.lookup).map (Record.read s.heap) := by
    rw [List.map_filterMap]
    exact List.filterMap_congr fun key _ => s.lookup_registry key
  have hsort : ∀ records : List Record,
      (records.mergeSort byTunnelIP).map (Record.read s.heap) =
        (records.map (Record.read s.heap)).mergeSort Registry.byTunnelIP :=
    fun records => List.map_mergeSort fun _ _ _ _ => rfl
  simp only [step, PlainStore.step, hkeys, hlookup]
  split
  · cases ctx with
    | some e => simp [view, peersIn, Registry.peersIn, Except.toOption, registry]
    | none =>
        simp [view, peersIn, Registry.peersIn, Except.toOption, readAnswer, hsort,
          registry]
  · rfl

/-! ## Calls that leave the lists as they are -/

/-- New endpoints need more room than the array of the peer has, or repeat, as far
as they reach, what the lists in the array show that were handed out. -/
def Harmless (s : MemStore) : RegistryCall → Prop
  | .setEndpoints none _ nodeKey eps _ =>
      ∀ peer ∈ s.peers.lookup (base64Encode nodeKey),
        eps.length ≤ peer.endpoints.cap →
          ∀ answer ∈ s.handedOut, ∀ p ∈ answer.1,
            p.endpoints.arr = peer.endpoints.arr →
              eps.take p.endpoints.len = (p.endpoints.toList s.heap).take eps.length
  | _ => True

theorem toList_refill_iff {s : MemStore} {peer p : Record} (hpeer : Placed s.heap peer)
    (hp : Placed s.heap p) (extra : ℕ) (eps : List Endpoint) :
    p.endpoints.toList (Slice.appendAll extra s.heap peer.endpoints.reset eps).1 =
        p.endpoints.toList s.heap ↔
      (eps.length ≤ peer.endpoints.cap → p.endpoints.arr = peer.endpoints.arr →
        eps.take p.endpoints.len = (p.endpoints.toList s.heap).take eps.length) := by
  by_cases harr : p.endpoints.arr = peer.endpoints.arr
  · rw [Slice.toList_appendAll_eq_iff extra hp.2 harr (hp.1.trans hpeer.1.symm)]
    exact ⟨fun h hcap _ => h hcap, fun h hcap => h hcap harr⟩
  · rw [Slice.toList_appendAll_of_ne extra hp.2 harr]
    exact ⟨fun _ _ h => absurd h harr, fun _ => rfl⟩

theorem view_setEndpoints_iff {s : MemStore} (hs : s.Sound) (newEtag : ℕ → String)
    (ctx : Option CtxError) (now : Time) (nodeKey : Bytes) (eps : List Endpoint)
    (extra : ℕ) :
    (s.setEndpoints newEtag ctx now nodeKey eps extra).2.view =
        ⟨(s.registry.setEndpoints newEtag ctx now nodeKey eps).2, s.view.answers⟩ ↔
      s.Harmless (.setEndpoints ctx now nodeKey eps extra) := by
  rcases setEndpoints_cases newEtag ctx now nodeKey eps extra s with
    ⟨heq, hplain, hnone⟩ | ⟨peer, rfl, hlookup, heq, hplain⟩
  · rw [heq, hplain]
    refine ⟨fun _ => ?_, fun _ => rfl⟩
    cases ctx with
    | some e => trivial
    | none =>
        intro peer hpeer
        rw [hnone rfl] at hpeer
        cases hpeer
  · have hpeer := hs.peers _ peer hlookup
    have hlist := Slice.toList_appendAll_reset extra s.heap peer.endpoints eps
    have hother : ∀ key' q, key' ≠ base64Encode nodeKey →
        s.peers.lookup key' = some q → q.endpoints.toList
          (Slice.appendAll extra s.heap peer.endpoints.reset eps).1 =
            q.endpoints.toList s.heap := by
      intro key' q hne hq
      have hapart : q.endpoints.arr ≠ peer.endpoints.arr := fun harr =>
        hne (hs.apart _ _ _ _ hq hlookup harr)
      exact Slice.toList_appendAll_of_ne extra (hs.peers key' q hq).2 hapart eps
    rw [heq, hplain]
    refine (Eq.congr_left (view_insert newEtag s.byTunnel _ hother)).trans ?_
    -- the registries agree whatever the lists show
    simp only [Record.read, hlist]
    refine (PlainStore.mk.injEq ..).to_iff.trans ?_
    refine (and_iff_right rfl).trans (answers_eq_iff.trans ?_)
    constructor
    · intro h peer' hpeer' hcap answer hanswer p hp
      obtain rfl := Option.some.inj (hlookup.symm.trans hpeer')
      exact (toList_refill_iff hpeer (hs.handedOut answer hanswer p hp) extra eps).1
        (h answer hanswer p hp) hcap
    · intro h answer hanswer p hp
      refine (toList_refill_iff hpeer (hs.handedOut answer hanswer p hp) extra eps).2 ?_
      exact fun hcap => h peer hlookup hcap answer hanswer p hp

theorem view_step_iff {s : MemStore} (hs : s.Sound) (newEtag : ℕ → String)
    (c : RegistryCall) :
    (s.step newEtag c).view = s.view.step newEtag c ↔ s.Harmless c := by
  cases c with
  | register ctx now p extra =>
      exact ⟨fun _ => trivial, fun _ => view_register hs newEtag ctx now p extra⟩
  | setEndpoints ctx now nodeKey eps extra =>
      exact view_setEndpoints_iff hs newEtag ctx now nodeKey eps extra
  | peers ctx order => exact ⟨fun _ => trivial, fun _ => view_peers s newEtag ctx order⟩

instance (s : MemStore) (c : RegistryCall) : Decidable (s.Harmless c) := by
  unfold Harmless
  split <;> infer_instance

/-- The registry and all lists handed out show what they would if endpoints were
plain values, at every moment of a run, exactly when no call of the run overwrites
endpoints of such a list by others. -/
theorem view_run_iff (newEtag : ℕ → String) (pool : Prefix) (cs : List RegistryCall) :
    (∀ ds, ds <+: cs →
      (ds.foldl (step newEtag) (new newEtag pool)).view =
        ds.foldl (PlainStore.step newEtag) ⟨Registry.new newEtag pool, []⟩) ↔
      EachStep (step newEtag) Harmless (new newEtag pool) cs := by
  have hnew : (new newEtag pool).view = ⟨Registry.new newEtag pool, []⟩ := rfl
  rw [← hnew, view_foldl_iff]
  exact eachStep_congr (A := fun _ _ => True) (I := Sound)
    (fun s c hs _ => view_step_iff hs newEtag c) (fun s c hs _ _ => hs.step newEtag c)
    (sound_new newEtag pool) (eachStep_of_forall_mem (fun _ _ => trivial) _)

def samplePool : Prefix := Prefix.ofV4 0x0a000000#32 24

def sampleKey : Bytes := List.replicate 32 1

def sampleEndpoint (port : Port) : Endpoint := ⟨⟨.v4 0xc6336401#32, port⟩, "stun"⟩

def handOut : List RegistryCall :=
  [.register none 1 ⟨sampleKey, Vector.replicate 32 2, "a", .zero, [], 0⟩ 0,
    .setEndpoints none 2 sampleKey [sampleEndpoint 1000] 0,
    .peers none [base64Encode sampleKey]]

/-- Two endpoints do not fit where one was. -/
def growingRun : List RegistryCall :=
  handOut ++
    [.setEndpoints none 3 sampleKey [sampleEndpoint 2000, sampleEndpoint 3000] 0]

/-- One does. -/
def overwritingRun : List RegistryCall :=
  handOut ++ [.setEndpoints none 3 sampleKey [sampleEndpoint 2000] 0]

theorem view_of_growingRun :
    (growingRun.foldl (step Nat.repr) (new Nat.repr samplePool)).view =
      growingRun.foldl (PlainStore.step Nat.repr)
        ⟨Registry.new Nat.repr samplePool, []⟩ :=
  (view_run_iff Nat.repr samplePool growingRun).2 (by decide +kernel) growingRun
    List.prefix_rfl

/-- The list was handed out with the first endpoint and now shows the second. -/
theorem answers_of_overwritingRun :
    ((overwritingRun.foldl (step Nat.repr)
      (new Nat.repr samplePool)).view.answers.map fun answer =>
        answer.1.map Peer.endpoints) = [[[sampleEndpoint 2000]]] ∧
    ((overwritingRun.foldl (PlainStore.step Nat.repr)
      ⟨Registry.new Nat.repr samplePool, []⟩).answers.map fun answer =>
        answer.1.map Peer.endpoints) = [[[sampleEndpoint 1000]]] := by
  decide +kernel

end MemStore

end Coord

end Gretun
