import Gretun.Coord.Integrity
import Gretun.Coord.RegistryInv
import Gretun.Disco.Exchange
import Gretun.Foundation.Run
import Gretun.Net.ParseAddr

/-!
# Clients see the registry as it was written

A run is a list of calls by any number of clients, one after the other, against
one server. What the calls returned is its history, the latest call first, and
everything a client may expect of a list of peers is said in terms of it: which
nodes are in the list, and for each one its last registration, the address that
every registration of it returned, and the endpoints of its last post. What
calls that overlap can do to a list that is still being encoded is not the
matter here.
-/

namespace Gretun

namespace Disco

open Foundation.Assoc
open Foundation.Run
open Gretun.Net
open Gretun.Coord

/-! ## The history of a run -/

/-- The calls made so far and what they returned, the latest first. -/
abbrev History := List (Exchange × Result)

def registration (k : Bytes) (e : Exchange × Result) :
    Option (Key × String × String) :=
  match e.1.call, e.2 with
  | .register name, .registered cidr _ =>
      if e.1.member.nk.pub = k then some (e.1.member.dk, name, cidr) else none
  | _, _ => none

def posting (k : Bytes) (e : Exchange × Result) : Option (List RemoteEndpoint) :=
  match e.1.call, e.2 with
  | .postEndpoints eps, .posted => if e.1.member.nk.pub = k then some eps else none
  | _, _ => none

namespace History

def lastRegister (h : History) (k : Bytes) : Option (Key × String) :=
  (h.findSome? (registration k)).map fun r => (r.1, r.2.1)

def tunnelCIDRs (h : History) (k : Bytes) : List String :=
  (h.filterMap (registration k)).map fun r => r.2.2

def lastEndpoints (h : History) (k : Bytes) : List RemoteEndpoint :=
  (h.findSome? (posting k)).getD []

end History

/-- A list of peers shows what was written: the registered nodes, each one once and
as its history has it. -/
structure AsWritten (parseIPv6 : List Char → Option Addr) (h : History)
    (peers : List RemotePeer) : Prop where
  nodup : (peers.map (·.nodeKey)).Nodup
  registered : ∀ k, k ∈ peers.map (·.nodeKey) ↔ (h.lastRegister k).isSome
  last : ∀ p ∈ peers, h.lastRegister p.nodeKey = some (p.discoKey, p.name)
  tunnelIP : ∀ p ∈ peers, ∀ cidr ∈ h.tunnelCIDRs p.nodeKey,
    (parsePrefix parseIPv6 cidr.toList).map (·.addr) = some p.tunnelIP
  endpoints : ∀ p ∈ peers, p.endpoints = h.lastEndpoints p.nodeKey

/-! ## Runs -/

structure Session where
  store : Store
  history : History

namespace Session

def start (w : World) (a : BitVec 32) (bits : Fin 33) : Session where
  store := Store.new w.server.newEtag (Prefix.ofV4 a bits)
  history := []

def step (w : World) (s : Session) (x : Exchange) : Session where
  store := (x.run w s.store).2
  history := (x, (x.run w s.store).1) :: s.history

end Session

/-! ## The registry and the history -/

structure Recorded (h : History) (k : Bytes) (p : Peer) : Prop where
  nodeKey : p.nodeKey = k
  last : h.lastRegister k = some (p.discoKey, p.name)
  tunnelIP : ∀ cidr ∈ h.tunnelCIDRs k, cidr = p.tunnelIP.string ++ "/24"
  endpoints : p.endpoints.map RemoteEndpoint.ofEndpoint = h.lastEndpoints k

def Unrecorded (h : History) (k : Bytes) : Prop :=
  ∀ e ∈ h, registration k e = none ∧ posting k e = none

/-- What the registry keeps under the key of a node agrees with the history. -/
def Agrees (h : History) (k : Bytes) : Option Peer → Prop
  | none => Unrecorded h k
  | some p => Recorded h k p

theorem Unrecorded.lastRegister {h : History} {k : Bytes} (hk : Unrecorded h k) :
    h.lastRegister k = none := by
  rw [History.lastRegister, Option.map_eq_none_iff, List.findSome?_eq_none_iff]
  exact fun e he => (hk e he).1

theorem Unrecorded.tunnelCIDRs {h : History} {k : Bytes} (hk : Unrecorded h k) :
    h.tunnelCIDRs k = [] := by
  rw [History.tunnelCIDRs, List.map_eq_nil_iff, List.filterMap_eq_nil_iff]
  exact fun e he => (hk e he).1

theorem Unrecorded.lastEndpoints {h : History} {k : Bytes} (hk : Unrecorded h k) :
    h.lastEndpoints k = [] := by
  have hnone : h.findSome? (posting k) = none :=
    List.findSome?_eq_none_iff.2 fun e he => (hk e he).2
  rw [History.lastEndpoints, hnone]
  rfl

section Cons

variable {h : History} {k : Bytes} {e : Exchange × Result}

theorem lastRegister_cons_of_none (hr : registration k e = none) :
    History.lastRegister (e :: h) k = h.lastRegister k := by
  simp [History.lastRegister, hr]

theorem tunnelCIDRs_cons_of_none (hr : registration k e = none) :
    History.tunnelCIDRs (e :: h) k = h.tunnelCIDRs k := by
  simp [History.tunnelCIDRs, hr]

theorem lastEndpoints_cons_of_none (hp : posting k e = none) :
    History.lastEndpoints (e :: h) k = h.lastEndpoints k := by
  simp [History.lastEndpoints, hp]

/-- A call that wrote nothing about a node changes nothing for it. -/
theorem Agrees.silent {o : Option Peer} (ho : Agrees h k o)
    (hr : registration k e = none) (hp : posting k e = none) :
    Agrees (e :: h) k o := by
  cases o with
  | none =>
      intro e' he'
      rcases List.mem_cons.1 he' with rfl | he'
      · exact ⟨hr, hp⟩
      · exact ho e' he'
  | some p =>
      refine ⟨ho.nodeKey, ?_, ?_, ?_⟩
      · rw [lastRegister_cons_of_none hr]
        exact ho.last
      · rw [tunnelCIDRs_cons_of_none hr]
        exact ho.tunnelIP
      · rw [lastEndpoints_cons_of_none hp]
        exact ho.endpoints

theorem Recorded.first (hk : Unrecorded h k) {dk : Key} {name : String} {p : Peer}
    (hr : registration k e = some (dk, name, p.tunnelIP.string ++ "/24"))
    (hp : posting k e = none) (hnode : p.nodeKey = k) (hdisco : p.discoKey = dk)
    (hname : p.name = name) (heps : p.endpoints = []) : Recorded (e :: h) k p where
  nodeKey := hnode
  last := by simp [History.lastRegister, hr, hdisco, hname]
  tunnelIP := by
    have hnone : (h : History).tunnelCIDRs k = [] := hk.tunnelCIDRs
    rw [History.tunnelCIDRs] at hnone
    simp [History.tunnelCIDRs, hr, List.map_eq_nil_iff.1 hnone]
  endpoints := by rw [lastEndpoints_cons_of_none hp, hk.lastEndpoints, heps, List.map_nil]

/-- A registration of a node that has a record keeps its address and its
endpoints. -/
theorem Recorded.again {q : Peer} (hq : Recorded h k q) {dk : Key} {name : String}
    {p : Peer} (hr : registration k e = some (dk, name, q.tunnelIP.string ++ "/24"))
    (hp : posting k e = none) (hnode : p.nodeKey = q.nodeKey)
    (hdisco : p.discoKey = dk) (hname : p.name = name)
    (hip : p.tunnelIP = q.tunnelIP) (heps : p.endpoints = q.endpoints) :
    Recorded (e :: h) k p where
  nodeKey := hnode.trans hq.nodeKey
  last := by simp [History.lastRegister, hr, hdisco, hname]
  tunnelIP := by
    intro cidr hcidr
    rw [History.tunnelCIDRs, List.filterMap_cons_some hr, List.map_cons] at hcidr
    rw [hip]
    rcases List.mem_cons.1 hcidr with rfl | hcidr
    · rfl
    · exact hq.tunnelIP cidr hcidr
  endpoints := by rw [lastEndpoints_cons_of_none hp, heps, hq.endpoints]

theorem Recorded.post {q : Peer} (hq : Recorded h k q) {eps : List RemoteEndpoint}
    {p : Peer} (hr : registration k e = none) (hp : posting k e = some eps)
    (hnode : p.nodeKey = q.nodeKey) (hdisco : p.discoKey = q.discoKey)
    (hname : p.name = q.name) (hip : p.tunnelIP = q.tunnelIP)
    (heps : p.endpoints = eps.map RemoteEndpoint.toEndpoint) :
    Recorded (e :: h) k p where
  nodeKey := hnode.trans hq.nodeKey
  last := by rw [lastRegister_cons_of_none hr, hq.last, hdisco, hname]
  tunnelIP := by
    rw [tunnelCIDRs_cons_of_none hr, hip]
    exact hq.tunnelIP
  endpoints := by
    have hid : RemoteEndpoint.ofEndpoint ∘ RemoteEndpoint.toEndpoint = id :=
      funext ofEndpoint_toEndpoint
    simp [History.lastEndpoints, hp, heps, hid]

end Cons

namespace Session

variable {w : World} {a : BitVec 32} {bits : Fin 33} {s : Session} {x : Exchange}

structure Inv (a : BitVec 32) (bits : Fin 33) (s : Session) : Prop where
  registry : RegistryInv a bits s.store.registry
  agrees : ∀ k, Agrees s.history k (s.store.registry.peers.lookup (base64Encode k))

theorem inv_start (w : World) (a : BitVec 32) (bits : Fin 33) :
    Inv a bits (start w a bits) where
  registry := registryInv_new w.server.newEtag a bits
  agrees := by
    intro k e he
    cases he

theorem agrees_insert {h : History} {peers peers' : AList fun _ : String => Peer}
    (hagrees : ∀ k, Agrees h k (peers.lookup (base64Encode k))) {pub : Bytes}
    {p : Peer} (hpeers : peers' = peers.insert (base64Encode pub) p)
    {e : Exchange × Result} (hself : Recorded (e :: h) pub p)
    (hother : ∀ k, pub ≠ k → registration k e = none ∧ posting k e = none) (k : Bytes) :
    Agrees (e :: h) k (peers'.lookup (base64Encode k)) := by
  rw [hpeers]
  by_cases hk : pub = k
  · subst hk
    rw [AList.lookup_insert]
    exact hself
  · rw [AList.lookup_insert_ne (Registry.base64Encode_ne (Ne.symm hk))]
    exact (hagrees k).silent (hother k hk).1 (hother k hk).2

theorem agrees_register (hs : Inv a bits s) {name : String}
    (hcall : x.call = .register name) (k : Bytes) :
    Agrees (s.step w x).history k
      ((s.step w x).store.registry.peers.lookup (base64Encode k)) := by
  rcases x.run_register w s.store hcall with
    ⟨hfailed, hsame⟩ | ⟨ctx, now, ip, etag, hregister, hresult⟩
  · simp only [step, hsame, hfailed]
    exact (hs.agrees k).silent (by simp [registration, hcall])
      (by simp [posting, hcall])
  · simp only [step, hresult]
    have hself := hs.agrees x.member.nk.pub
    have hpost : ∀ k, posting k (x, .registered (ip.string ++ "/24") etag) = none := by
      simp [posting, hcall]
    have hother : ∀ k, x.member.nk.pub ≠ k →
        registration k (x, .registered (ip.string ++ "/24") etag) = none ∧
          posting k (x, .registered (ip.string ++ "/24") etag) = none := by
      intro k hk
      exact ⟨by simp [registration, hcall, hk], hpost k⟩
    rcases Registry.register_eq_ok hregister with
      ⟨q, hq, rfl, hpeers⟩ | ⟨hnew, hpeers⟩
    · rw [hq] at hself
      refine agrees_insert hs.agrees hpeers ?_ hother k
      exact Recorded.again hself (by simp [registration, hcall]) (hpost _) rfl rfl rfl
        rfl rfl
    · rw [hnew] at hself
      refine agrees_insert hs.agrees hpeers ?_ hother k
      exact Recorded.first hself (by simp [registration, hcall]) (hpost _) rfl rfl rfl
        rfl

theorem agrees_postEndpoints (hs : Inv a bits s) {eps : List RemoteEndpoint}
    (hcall : x.call = .postEndpoints eps) (k : Bytes) :
    Agrees (s.step w x).history k
      ((s.step w x).store.registry.peers.lookup (base64Encode k)) := by
  rcases x.run_postEndpoints w s.store hcall with
    ⟨hfailed, hsame⟩ | ⟨ctx, now, hset, hresult⟩
  · simp only [step, hsame, hfailed]
    exact (hs.agrees k).silent (by simp [registration, hcall])
      (by simp [posting, hcall])
  · simp only [step, hresult]
    have hself := hs.agrees x.member.nk.pub
    have hregister : ∀ k, registration k (x, .posted) = none := by
      simp [registration, hcall]
    obtain ⟨q, hq, hpeers⟩ := Registry.setEndpoints_eq_ok hset
    rw [hq] at hself
    refine agrees_insert hs.agrees hpeers ?_ ?_ k
    · exact Recorded.post hself (hregister _) (by simp [posting, hcall]) rfl rfl rfl
        rfl rfl
    · intro k hk
      exact ⟨hregister k, by simp [posting, hcall, hk]⟩

/-- Every call keeps the registry in agreement with the history. -/
theorem Inv.step (hs : Inv a bits s) (w : World) (x : Exchange) :
    Inv a bits (s.step w x) := by
  cases hcall : x.call with
  | register name =>
      refine ⟨?_, agrees_register hs hcall⟩
      rcases x.run_register w s.store hcall with
        ⟨-, hsame⟩ | ⟨ctx, now, ip, etag, hregister, -⟩
      · simp only [Session.step, hsame]
        exact hs.registry
      · have hcalled := registryInv_call hs.registry w.server.newEtag (.register ctx now
          { nodeKey := x.member.nk.pub, discoKey := x.member.dk, name := name })
        rwa [Registry.call, hregister] at hcalled
  | postEndpoints eps =>
      refine ⟨?_, agrees_postEndpoints hs hcall⟩
      rcases x.run_postEndpoints w s.store hcall with ⟨-, hsame⟩ | ⟨ctx, now, hset, -⟩
      · simp only [Session.step, hsame]
        exact hs.registry
      · have hcalled := registryInv_call hs.registry w.server.newEtag (.setEndpoints ctx
          now x.member.nk.pub (eps.map RemoteEndpoint.toEndpoint))
        rwa [Registry.call, hset] at hcalled
  | peers since =>
      obtain ⟨hsame, -⟩ := x.run_peers w s.store hcall
      refine ⟨?_, fun k => ?_⟩
      · simp only [Session.step, hsame]
        exact hs.registry
      · simp only [Session.step, hsame]
        exact (hs.agrees k).silent (by simp [registration, hcall])
          (by simp [posting, hcall])

def Reached (w : World) (a : BitVec 32) (bits : Fin 33) (s : Session) : Prop :=
  ∃ is : List ServerInput,
    (is.foldl (Server.step w.env) (Server.start w.env (Prefix.ofV4 a bits))).store =
        s.store ∧
      (is.foldl (Server.step w.env)
        (Server.start w.env (Prefix.ofV4 a bits))).inflight = fun _ => none

theorem Reached.step (hs : Reached w a bits s) (x : Exchange) :
    Reached w a bits (s.step w x) := by
  obtain ⟨is, hstore, hinflight⟩ := hs
  rcases x.run_cases w s.store with heq | ⟨req, resp, store, -, hserve, heq⟩
  · exact ⟨is, by simpa [Session.step, heq] using hstore, hinflight⟩
  · rw [← hstore] at hserve
    obtain ⟨js, hjs⟩ := Server.exists_run_of_request (congrFun hinflight 0) hserve
    refine ⟨is ++ js, ?_, ?_⟩
    · rw [List.foldl_append, hjs]
      simp [Session.step, heq]
    · rw [List.foldl_append, hjs]
      exact hinflight

/-- The calls are requests that the server serves one by one: its runs include
them. -/
theorem reached_run (w : World) (a : BitVec 32) (bits : Fin 33) (xs : List Exchange) :
    Reached w a bits (xs.foldl (Session.step w) (start w a bits)) :=
  invariant_foldl (fun _ x hs => hs.step x) ⟨[], rfl, rfl⟩ xs

/-! ## What a client sees -/

/-- The address of a record, as the client reads it out of the answer to a
registration. -/
theorem parsePrefix_tunnelIP (parseIPv6 : List Char → Option Addr) {ip : Addr}
    (hip : Assignable a bits ip) :
    (parsePrefix parseIPv6 (ip.string ++ "/24").toList).map (·.addr) = some ip := by
  obtain ⟨b, rfl⟩ := hip.exists_v4
  have htext : (Addr.string (.v4 b) ++ "/24").toList =
      string4Chars b ++ '/' :: Nat.toDigits 10 ((24 : Fin 33) : ℕ) := by
    rw [String.toList_append]
    simp only [Addr.string, string4, String.toList_ofList]
    rfl
  rw [htext, parsePrefix_string4]
  rfl

/-- A list made of every record of the registry shows what was written. -/
theorem Inv.asWritten (hs : Inv a bits s) (parseIPv6 : List Char → Option Addr)
    {ps : List Peer} (hps : SortedPeers s.store.registry ps) :
    AsWritten parseIPv6 s.history (ps.map .ofPeer) := by
  have hkeys : (ps.map RemotePeer.ofPeer).map (·.nodeKey) = ps.map (·.nodeKey) := by
    rw [List.map_map]
    rfl
  have hlookup : ∀ p ∈ ps,
      s.store.registry.peers.lookup (base64Encode p.nodeKey) = some p := by
    intro p hp
    obtain ⟨key, hkey⟩ := (hps.mem_iff p).1 hp
    rwa [← (hs.registry.keyed key p hkey).2]
  have hrecorded : ∀ p ∈ ps, Recorded s.history p.nodeKey p := by
    intro p hp
    have hagrees := hs.agrees p.nodeKey
    rwa [hlookup p hp] at hagrees
  refine ⟨?_, ?_, ?_, ?_, ?_⟩
  · rw [hkeys]
    refine List.Nodup.map_on ?_ hps.nodup
    intro p hp q hq hpq
    have hsame := hlookup p hp
    rw [hpq, hlookup q hq] at hsame
    exact (Option.some.inj hsame).symm
  · intro k
    rw [hkeys]
    constructor
    · intro hk
      obtain ⟨p, hp, rfl⟩ := List.mem_map.1 hk
      rw [(hrecorded p hp).last]
      rfl
    · intro hk
      have hagrees := hs.agrees k
      cases hfound : s.store.registry.peers.lookup (base64Encode k) with
      | none =>
          rw [hfound] at hagrees
          rw [Unrecorded.lastRegister hagrees] at hk
          cases hk
      | some p =>
          rw [hfound] at hagrees
          exact List.mem_map.2
            ⟨p, (hps.mem_iff p).2 ⟨_, hfound⟩, Recorded.nodeKey hagrees⟩
  · rintro _ hmem
    obtain ⟨p, hp, rfl⟩ := List.mem_map.1 hmem
    exact (hrecorded p hp).last
  · rintro _ hmem cidr hcidr
    obtain ⟨p, hp, rfl⟩ := List.mem_map.1 hmem
    rw [(hrecorded p hp).tunnelIP cidr hcidr]
    exact parsePrefix_tunnelIP parseIPv6 (hs.registry.assignable _ p (hlookup p hp))
  · rintro _ hmem
    obtain ⟨p, hp, rfl⟩ := List.mem_map.1 hmem
    exact (hrecorded p hp).endpoints

/-- Every list of peers that a call returns in a run shows what the calls before it
wrote. -/
theorem listed_asWritten (w : World) (parseIPv6 : List Char → Option Addr)
    (a : BitVec 32) (bits : Fin 33) (xs : List Exchange) :
    EachStep (step w) (fun s x => ∀ peers etag,
        (x.run w s.store).1 = .listed peers etag → AsWritten parseIPv6 s.history peers)
      (start w a bits) xs := by
  refine eachStep_of_invariant (P := fun _ _ => True) (I := Inv a bits)
    (fun s x hs _ => hs.step w x) ?_ (inv_start w a bits)
    (eachStep_of_forall_mem (fun _ _ => trivial) _)
  intro s x hs _ peers etag hlisted
  obtain ⟨l, hl, rfl⟩ := Exchange.perm_of_listed hlisted
  exact hs.asWritten parseIPv6 (hs.registry.sortedPeers hl)

end Session

end Disco

end Gretun
