import Gretun.Daemon.DiscoSocket
import Gretun.Disco.PeersView
import Gretun.Net.ParseIPv6

/-!
# The endpoints that nodes advertise

`Run` and then every round of `refreshLoop` collect the endpoints of the node, which are
the addresses of its interfaces and the one that a STUN response reports, and post them to
the coordinator. Other nodes read them in their lists of peers. What a list shows for a
node was collected by that node: no step on the way, from the socket that the response
of the server comes in on to the list, makes an endpoint up.

The calls of the nodes are served one at a time here. A list that is still being written
while another call is served can mix two collections, because the store hands out slices
that later calls overwrite.
-/

namespace Gretun

namespace Disco

namespace Discovery

variable {c : Discovery} {m : DiscoveryInput}

/-- A request is pending because it was pending before or has just been sent. -/
theorem lookup_pending_step {txID : TransactionID} {server : String}
    (h : (c.step m).pending.lookup txID = some server) :
    c.pending.lookup txID = some server ∨ m = .send txID server := by
  cases m with
  | send txID' server' =>
      simp only [step] at h
      split at h
      · by_cases htx : txID = txID'
        · subst htx
          rw [AList.lookup_insert] at h
          exact Or.inr (by rw [Option.some.inj h])
        · rw [AList.lookup_insert_ne htx] at h
          exact Or.inl h
      · exact Or.inl h
  | listen =>
      simp only [step] at h
      split at h
      · split at h <;> exact Or.inl h
      · exact Or.inl h
  | fail | returnCtx =>
      simp only [step] at h
      split at h <;> exact Or.inl h
  | cancel => exact Or.inl h
  | returnResult =>
      simp only [step] at h
      split at h
      · cases hres : c.resCh <;> rw [hres] at h <;> exact Or.inl h
      · exact Or.inl h

def Has (c : Discovery) (ep : PublicEndpoint) : Prop :=
  c.resCh = some (.ok ep) ∨ c.returned = some (.ok ep)

theorem Has.of_step {ep : PublicEndpoint} (h : (c.step m).Has ep) : c.Has ep := by
  unfold Has at h
  cases m with
  | send =>
      simp only [step] at h
      split at h <;> exact h
  | fail =>
      simp only [step] at h
      split at h
      · exact Or.inr (h.resolve_left (by simp))
      · exact h
  | listen =>
      simp only [step] at h
      split at h
      · split at h
        · exact Or.inl (h.resolve_right (by simp [finish]))
        · exact h
      · exact h
  | cancel => exact h
  | returnCtx =>
      simp only [step] at h
      split at h
      · exact Or.inl (h.resolve_right (by simp [finish]))
      · exact h
  | returnResult =>
      simp only [step] at h
      split at h
      · cases hres : c.resCh with
        | none =>
            rw [hres] at h
            exact h
        | some r =>
            rw [hres] at h
            exact Or.inl (h.elim id hres.trans)
      · exact h

theorem pending_read (stun : StunLibrary) (data : Bytes) (c : Discovery) :
    (c.read stun data).pending = c.pending := by
  unfold read
  split
  · rfl
  · split <;> rfl

theorem Has.of_read {stun : StunLibrary} {data : Bytes} {ep : PublicEndpoint}
    (h : (c.read stun data).Has ep) :
    c.Has ep ∨ stun.endpoint c.pending (data.take bufSize) = some ep := by
  unfold Has at h
  rw [returned_read] at h
  rcases h with h | h
  · unfold read at h
    split at h
    · exact Or.inl (Or.inl h)
    · split at h
      · exact Or.inl (Or.inl h)
      · rename_i ep' hep
        simp only [Option.some.injEq, Except.ok.injEq] at h
        exact Or.inr (h ▸ hep)
  · exact Or.inl (Or.inr h)

end Discovery

end Disco

namespace Daemon

open Gretun.Net
open Gretun.Disco
open Gretun.Coord
open Foundation.Run

/-! ## What a STUN server reports -/

/-- A datagram that arrived at the socket has the transaction ID of a request that the
`i`-th call of `DiscoverPublic` sent to `ep.via`, and reports the address. Where it came
from is not looked at. -/
def Reported (stun : StunLibrary) (is : List SocketInput) (i : ℕ) (ep : PublicEndpoint) :
    Prop :=
  ∃ dg msg ip v4, .arrive dg ∈ is ∧
    stun.message (dg.data.take Discovery.bufSize) = some msg ∧
    .call i (.send msg.transactionID ep.via) ∈ is ∧
    msg.xorMapped = some (ip, ep.addr.port) ∧ ip.to4 = some v4 ∧
    ep.addr.addr = v4.addrFromSlice

theorem Reported.mono {stun : StunLibrary} {is js : List SocketInput} {i : ℕ}
    {ep : PublicEndpoint} (h : Reported stun is i ep) (hsub : is ⊆ js) :
    Reported stun js i ep := by
  obtain ⟨dg, msg, ip, v4, hdg, hmsg, hsend, hrest⟩ := h
  exact ⟨dg, msg, ip, v4, hsub hdg, hmsg, hsub hsend, hrest⟩

namespace DiscoSocket

variable {env : ReaderEnv} {s : DiscoSocket}

/-- All that a step can do to a call: nothing, start it, a step of its own, or a read. -/
theorem call_of_step {i : SocketInput} {j : ℕ} {c : Discovery}
    (h : (s.step env i).calls[j]? = some c) :
    s.calls[j]? = some c ∨ c = { ctxDone := s.ctxDone } ∨
      (∃ c' m, s.calls[j]? = some c' ∧ c = c'.step m ∧ (m = .cancel ∨ i = .call j m)) ∨
      ∃ c' dg, s.calls[j]? = some c' ∧ dg ∈ s.queue ∧ c = c'.read env.stun dg.data := by
  cases i with
  | arrive | reconcile => exact Or.inl h
  | cancel =>
      simp only [step, List.getElem?_map, Option.map_eq_some_iff] at h
      obtain ⟨c', hc', rfl⟩ := h
      exact Or.inr (Or.inr (Or.inl ⟨c', .cancel, hc', rfl, Or.inl rfl⟩))
  | start | loopFail =>
      simp only [step] at h
      split at h <;> exact Or.inl h
  | loopRead =>
      simp only [step] at h
      split at h
      · simp only [loopTake] at h
        split at h <;> exact Or.inl h
      · exact Or.inl h
  | discover =>
      simp only [step] at h
      split at h
      · rcases Nat.lt_or_ge j s.calls.length with hj | hj
        · rw [List.getElem?_append_left hj] at h
          exact Or.inl h
        · rw [List.getElem?_append_right hj] at h
          exact Or.inr (Or.inl (List.mem_singleton.1 (List.mem_of_getElem? h)))
      · exact Or.inl h
  | call k m =>
      simp only [step, List.getElem?_modify] at h
      obtain ⟨c', hc', rfl⟩ := Option.map_eq_some_iff.1 h
      split
      · rename_i hk
        subst hk
        exact Or.inr (Or.inr (Or.inl ⟨c', m, hc', rfl, Or.inr rfl⟩))
      · exact Or.inl hc'
  | stunRead k =>
      simp only [step] at h
      split at h
      · rename_i c' dg rest hk hqueue
        split at h
        · simp only [stunTake, List.getElem?_set] at h
          split at h
          · rename_i hkj
            subst hkj
            split at h
            · exact Or.inr (Or.inr (Or.inr ⟨c', dg, hk, by simp [hqueue],
                (Option.some.inj h).symm⟩))
            · cases h
          · exact Or.inl h
        · exact Or.inl h
      · exact Or.inl h

/-- What is queued has arrived, what is pending was sent, and what a call has was
reported to it. -/
structure Backed (env : ReaderEnv) (is : List SocketInput) (s : DiscoSocket) : Prop where
  queue : ∀ dg ∈ s.queue, .arrive dg ∈ is
  pending : ∀ i c, s.calls[i]? = some c → ∀ txID server,
    c.pending.lookup txID = some server → .call i (.send txID server) ∈ is
  reported : ∀ i c, s.calls[i]? = some c → ∀ ep, c.Has ep → Reported env.stun is i ep

theorem Backed.reported_of_endpoint {is : List SocketInput} (h : Backed env is s)
    {i : ℕ} {c : Discovery} (hc : s.calls[i]? = some c) {dg : Datagram}
    (hdg : dg ∈ s.queue) {ep : PublicEndpoint}
    (hep : env.stun.endpoint c.pending (dg.data.take Discovery.bufSize) = some ep) :
    Reported env.stun is i ep := by
  simp only [StunLibrary.endpoint, Option.bind_eq_bind, Option.bind_eq_some_iff,
    Option.pure_def, Option.some.injEq] at hep
  obtain ⟨msg, hmsg, via, hvia, ⟨ip, port⟩, hmapped, v4, hv4, rfl⟩ := hep
  exact ⟨dg, msg, ip, v4, h.queue dg hdg, hmsg, h.pending i c hc _ _ hvia, hmapped, hv4,
    rfl⟩

theorem Backed.step {is : List SocketInput} (h : Backed env is s) (i : SocketInput) :
    Backed env (is ++ [i]) (s.step env i) := by
  have hsub : is ⊆ is ++ [i] := List.subset_append_left is [i]
  refine ⟨fun dg hdg => ?_, fun j c hc txID server hlookup => ?_, fun j c hc ep hep => ?_⟩
  · rcases mem_queue_step hdg with hdg | rfl
    · exact hsub (h.queue dg hdg)
    · simp
  · rcases call_of_step hc with
      hc | rfl | ⟨c', m, hc', rfl, hm⟩ | ⟨c', dg, hc', -, rfl⟩
    · exact hsub (h.pending j c hc txID server hlookup)
    · cases hlookup
    · rcases Discovery.lookup_pending_step hlookup with hlookup | rfl
      · exact hsub (h.pending j c' hc' txID server hlookup)
      · rcases hm with hm | rfl
        · cases hm
        · simp
    · rw [Discovery.pending_read] at hlookup
      exact hsub (h.pending j c' hc' txID server hlookup)
  · rcases call_of_step hc with
      hc | rfl | ⟨c', m, hc', rfl, -⟩ | ⟨c', dg, hc', hdg, rfl⟩
    · exact (h.reported j c hc ep hep).mono hsub
    · rcases hep with hep | hep <;> cases hep
    · exact (h.reported j c' hc' ep hep.of_step).mono hsub
    · rcases hep.of_read with hep | hep
      · exact (h.reported j c' hc' ep hep).mono hsub
      · exact (h.reported_of_endpoint hc' hdg hep).mono hsub

theorem backed_run (env : ReaderEnv) (is : List SocketInput) :
    Backed env is (is.foldl (step env) {}) := by
  induction is using List.reverseRecOn with
  | nil => exact ⟨by simp, by simp, by simp⟩
  | append_singleton is i ih =>
      rw [List.foldl_append]
      exact ih.step i

end DiscoSocket

/-! ## Collecting and posting -/

/-- The first part of `collectEndpoints`. -/
def localEndpoints (ifaceAddrs : List IP) (port : ℕ) : List RemoteEndpoint :=
  (ifaceAddrs.filterMap IP.to4).filterMap fun v4 =>
    if v4.isLoopback || !v4.isGlobalUnicast then none
    else some ⟨⟨v4.addrFromSlice, BitVec.ofNat 16 port⟩, "local"⟩

def collectEndpoints (ifaceAddrs : List IP) (port : ℕ)
    (pub : Except DiscoverError PublicEndpoint) :
    List RemoteEndpoint × Option DiscoverError :=
  match pub with
  | .ok pub => (localEndpoints ifaceAddrs port ++ [⟨pub.addr, "stun"⟩], none)
  | .error err => (localEndpoints ifaceAddrs port, some err)

inductive Collector where
  | run
  | refresh
  deriving DecidableEq

/-- The endpoints are collected: the addresses of the interfaces at that time, and the
number of the call of `DiscoverPublic`. -/
structure Collection where
  collector : Collector
  ifaceAddrs : List IP
  call : ℕ

structure Node where
  port : Port
  env : ReaderEnv
  socket : List SocketInput

namespace Node

def collected (n : Node) (r : Collection) :
    Option (List RemoteEndpoint × Option DiscoverError) := do
  let c ← (n.socket.foldl (DiscoSocket.step n.env) {}).calls[r.call]?
  let pub ← c.returned
  return collectEndpoints r.ifaceAddrs n.port.toNat pub

/-- The list that is posted. `Run` only warns about an error of `collectEndpoints`, while
`refreshLoop` goes on without a post. -/
def posts (n : Node) (r : Collection) : Option (List RemoteEndpoint) := do
  let (eps, err) ← n.collected r
  match r.collector, err with
  | .refresh, some _ => none
  | _, _ => some eps

def IsLocal (n : Node) (r : Collection) (ep : RemoteEndpoint) : Prop :=
  ep.source = "local" ∧ ∃ ip ∈ r.ifaceAddrs, ∃ v4 : IP, ip.to4 = some v4 ∧
    v4.isLoopback = false ∧ v4.isGlobalUnicast = true ∧
    ep.addr = ⟨v4.addrFromSlice, n.port⟩

def IsReported (n : Node) (r : Collection) (ep : RemoteEndpoint) : Prop :=
  ep.source = "stun" ∧ ∃ via, Reported n.env.stun n.socket r.call ⟨ep.addr, via⟩

/-- The list is the one of this collection of the node: interface addresses and an address
that a STUN response reported, which a refreshed list always has. -/
structure Advertises (n : Node) (r : Collection) (eps : List RemoteEndpoint) : Prop where
  posted : n.posts r = some eps
  each : ∀ ep ∈ eps, n.IsLocal r ep ∨ n.IsReported r ep
  refreshed : r.collector = .refresh → ∃ ep ∈ eps, n.IsReported r ep

end Node

theorem Node.isLocal_of_mem {n : Node} {r : Collection} {ep : RemoteEndpoint}
    (h : ep ∈ localEndpoints r.ifaceAddrs n.port.toNat) : n.IsLocal r ep := by
  obtain ⟨v4, hv4, hep⟩ := List.mem_filterMap.1 h
  obtain ⟨ip, hip, hto4⟩ := List.mem_filterMap.1 hv4
  split at hep
  · cases hep
  · rename_i hkind
    simp only [Bool.or_eq_true, Bool.not_eq_true', not_or, Bool.not_eq_true,
      Bool.not_eq_false] at hkind
    obtain rfl := Option.some.inj hep
    exact ⟨rfl, ip, hip, v4, hto4, hkind.1, hkind.2, by simp⟩

theorem Node.advertises_of_posts {n : Node} {r : Collection} {eps : List RemoteEndpoint}
    (h : n.posts r = some eps) : n.Advertises r eps := by
  have hposted := h
  simp only [posts, collected, Option.bind_eq_bind, Option.bind_eq_some_iff,
    Option.pure_def, Option.some.injEq] at h
  obtain ⟨⟨eps', err⟩, ⟨c, hc, pub, hpub, hcollected⟩, hposts⟩ := h
  cases pub with
  | error e =>
      obtain ⟨rfl, rfl⟩ := Prod.mk.inj hcollected
      cases hcollector : r.collector with
      | refresh =>
          rw [hcollector] at hposts
          cases hposts
      | run =>
          rw [hcollector] at hposts
          obtain rfl := Option.some.inj hposts
          refine ⟨hposted, fun ep hep => Or.inl (Node.isLocal_of_mem hep), ?_⟩
          rw [hcollector]
          rintro ⟨⟩
  | ok ep =>
      have hreported : n.IsReported r ⟨ep.addr, "stun"⟩ :=
        ⟨rfl, ep.via, (DiscoSocket.backed_run n.env n.socket).reported r.call c hc ep
          (Or.inr hpub)⟩
      obtain ⟨rfl, rfl⟩ := Prod.mk.inj hcollected
      have heps : eps =
          localEndpoints r.ifaceAddrs n.port.toNat ++ [⟨ep.addr, "stun"⟩] := by
        cases hcollector : r.collector with
        | run =>
            rw [hcollector] at hposts
            exact (Option.some.inj hposts).symm
        | refresh =>
            rw [hcollector] at hposts
            exact (Option.some.inj hposts).symm
      refine ⟨hposted, ?_, ?_⟩ <;> rw [heps]
      swap
      · exact fun _ => ⟨_, List.mem_append_right _ List.mem_cons_self, hreported⟩
      intro ep' hep'
      rcases List.mem_append.1 hep' with hlocal | hstun
      · exact Or.inl (Node.isLocal_of_mem hlocal)
      · rw [List.mem_singleton.1 hstun]
        exact Or.inr hreported

/-! ## What a list shows -/

inductive Doing where
  | register (name : String)
  | post (r : Collection)
  | peers (since : Bytes)

def Doing.call (n : Node) : Doing → Option ApiCall
  | .register name => some (.register name)
  | .post r => (n.posts r).map .postEndpoints
  | .peers since => some (.peers since)

/-- A node does something, with the clocks of both sides and what the environment decides
about the calls of the handler. -/
structure Deed where
  member : Member
  doing : Doing
  sentAt : Time
  servedAt : Time
  decisions : ℕ → Decision

def Deed.exchange (nodes : Bytes → Node) (a : Deed) : Option Exchange :=
  (a.doing.call (nodes a.member.nk.pub)).map fun call =>
    ⟨a.member, call, a.sentAt, a.servedAt, a.decisions⟩

/-- Among what was done is that the node `k` posts the collection `r`. -/
def Collected (done : List Deed) (k : Bytes) (r : Collection) : Prop :=
  ∃ d ∈ done, d.member.nk.pub = k ∧ d.doing = .post r

theorem Collected.mono {done more : List Deed} {k : Bytes} {r : Collection}
    (h : Collected done k r) (hsub : done ⊆ more) : Collected more k r := by
  obtain ⟨d, hd, hcollected⟩ := h
  exact ⟨d, hsub hd, hcollected⟩

def Genuine (nodes : Bytes → Node) (done : List Deed) (k : Bytes)
    (eps : List RemoteEndpoint) : Prop :=
  ∃ r, Collected done k r ∧ (nodes k).Advertises r eps

theorem Genuine.mono {nodes : Bytes → Node} {done more : List Deed} {k : Bytes}
    {eps : List RemoteEndpoint} (h : Genuine nodes done k eps) (hsub : done ⊆ more) :
    Genuine nodes more k eps := by
  obtain ⟨r, hr, hadvertises⟩ := h
  exact ⟨r, hr.mono hsub, hadvertises⟩

theorem genuine_of_exchange {nodes : Bytes → Node} {d : Deed} {x : Exchange}
    {eps : List RemoteEndpoint} (h : d.exchange nodes = some x)
    (hcall : x.call = .postEndpoints eps) :
    Genuine nodes [d] x.member.nk.pub eps := by
  obtain ⟨call, hdoing, rfl⟩ := Option.map_eq_some_iff.1 h
  obtain rfl : call = .postEndpoints eps := hcall
  cases hd : d.doing with
  | register name => simp [hd, Doing.call] at hdoing
  | peers since => simp [hd, Doing.call] at hdoing
  | post r =>
      rw [hd] at hdoing
      obtain ⟨eps', hposts, heq⟩ := Option.map_eq_some_iff.1 hdoing
      cases heq
      exact ⟨r, ⟨d, List.mem_singleton_self d, rfl, hd⟩, Node.advertises_of_posts hposts⟩

structure Chronicle where
  session : Session
  done : List Deed

namespace Chronicle

def start (w : Disco.World) (a : BitVec 32) (bits : Fin 33) : Chronicle :=
  ⟨Session.start w a bits, []⟩

/-- A node does something, and the coordinator has served the call before the next one. -/
def step (w : Disco.World) (nodes : Bytes → Node) (c : Chronicle) (d : Deed) :
    Chronicle where
  session := (d.exchange nodes).elim c.session (Session.step w c.session)
  done := c.done ++ [d]

structure Inv (nodes : Bytes → Node) (a : BitVec 32) (bits : Fin 33) (c : Chronicle) :
    Prop where
  session : Session.Inv a bits c.session
  history : ∀ e ∈ c.session.history, ∀ eps, e.1.call = .postEndpoints eps →
    Genuine nodes c.done e.1.member.nk.pub eps

theorem inv_start (w : Disco.World) (nodes : Bytes → Node) (a : BitVec 32)
    (bits : Fin 33) : (start w a bits).Inv nodes a bits :=
  ⟨Session.inv_start w a bits, by simp [start, Session.start]⟩

theorem Inv.step {nodes : Bytes → Node} {a : BitVec 32} {bits : Fin 33} {c : Chronicle}
    (h : c.Inv nodes a bits) (w : Disco.World) (d : Deed) :
    (c.step w nodes d).Inv nodes a bits := by
  have hsub : c.done ⊆ c.done ++ [d] := List.subset_append_left c.done [d]
  unfold Chronicle.step
  cases hx : d.exchange nodes with
  | none => exact ⟨h.session, fun e he eps hcall => (h.history e he eps hcall).mono hsub⟩
  | some x =>
      refine ⟨h.session.step w x, fun e he eps hcall => ?_⟩
      rcases List.mem_cons.1 he with rfl | he
      · exact (genuine_of_exchange hx hcall).mono (List.subset_append_right c.done [d])
      · exact (h.history e he eps hcall).mono hsub

theorem Inv.lastEndpoints {nodes : Bytes → Node} {a : BitVec 32} {bits : Fin 33}
    {c : Chronicle} (h : c.Inv nodes a bits) (k : Bytes) :
    c.session.history.lastEndpoints k = [] ∨
      Genuine nodes c.done k (c.session.history.lastEndpoints k) := by
  unfold History.lastEndpoints
  cases hfind : c.session.history.findSome? (posting k) with
  | none => exact Or.inl rfl
  | some eps =>
      right
      obtain ⟨e, he, hposting⟩ := List.exists_of_findSome?_eq_some hfind
      unfold posting at hposting
      split at hposting
      · rename_i hcall _
        split at hposting
        · rename_i hk
          subst hk
          obtain rfl := Option.some.inj hposting
          exact h.history e he _ hcall
        · cases hposting
      · cases hposting

end Chronicle

/-- Advertised endpoints are genuine. Let any nodes register, post the endpoints they
collect, at the start and in any rounds later, and ask for the peers, one call after the
other, in any order and with any failures. The endpoints that a list shows for a node are
those of one collection that the node has posted before: each is the global unicast IPv4
address of one of its interfaces with the port of its disco socket, or the address that a
STUN response reported which had the transaction ID of a request of the node; and only the
collection of `Run` can go without the latter. -/
theorem listed_endpoints_collected (w : Disco.World) (a : BitVec 32) (bits : Fin 33)
    (nodes : Bytes → Node) (deeds : List Deed) :
    EachStep (Chronicle.step w nodes) (fun c d => ∀ x peers etag,
        d.exchange nodes = some x → (x.run w c.session.store).1 = .listed peers etag →
        ∀ p ∈ peers, p.endpoints = [] ∨ ∃ r, Collected c.done p.nodeKey r ∧
          (nodes p.nodeKey).Advertises r p.endpoints)
      (Chronicle.start w a bits) deeds := by
  refine eachStep_of_invariant (P := fun _ _ => True) (I := Chronicle.Inv nodes a bits)
    (fun c d hc _ => hc.step w d) ?_ (Chronicle.inv_start w nodes a bits)
    (eachStep_of_forall_mem (fun _ _ => trivial) _)
  intro c d hc _ x peers etag _ hlisted p hp
  obtain ⟨l, hl, rfl⟩ := Exchange.perm_of_listed hlisted
  have hwritten := hc.session.asWritten parseIPv6 (hc.session.registry.sortedPeers hl)
  rw [hwritten.endpoints p hp]
  exact hc.lastEndpoints p.nodeKey

end Daemon

end Gretun
