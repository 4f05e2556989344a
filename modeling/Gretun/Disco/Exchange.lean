import Gretun.Coord.Serve
import Gretun.Coord.Wire
import Gretun.Disco.Client
import Gretun.Disco.Message

/-!
# Calls of the coordinator's client

`Register`, `PostEndpoints` and `Peers` from the arguments of the call to the
values it returns: the client encodes its own wire structs, the request reaches
the server at the route it was sent to, the handler runs, and the client decodes
the response with its own structs again. The two sides share no type, so the
fields of a message match by their tags only. `Exchange.run_cases` says all that
a call can come to.
-/

namespace Gretun

namespace Net

namespace URL

/-- The segments of the escaped path, each one unescaped, as the multiplexer
compares them with its patterns. The patterns are ASCII, so a byte may stand for a
character. -/
def segments (u : URL) : List String :=
  (u.escapedPath.splitOn 47).tail.map fun seg =>
    String.ofList (((unescape seg).getD seg).map fun c => Char.ofNat c.toNat)

end URL

end Net

namespace Disco

open Foundation.Assoc
open Foundation.Tagged
open Foundation.Tagged.Doc
open Gretun.Net
open Gretun.Coord

/-! ## Messages -/

def RemoteEndpoint.toJson (e : RemoteEndpoint) : JsonValue :=
  obj [("addr", JsonValue.addrPort e.addr), ("source", JsonValue.text e.source)]

def RemoteEndpoint.ofJson (v : JsonValue) : Option RemoteEndpoint := do
  let fs ← v.fields
  let addr ← readField fs "addr" .zero JsonValue.readAddrPort
  let source ← readField fs "source" "" JsonValue.readText
  return { addr := addr, source := source }

def registerJson (pub : Bytes) (dk : Key) (name : String) : JsonValue :=
  obj [("node_pubkey", JsonValue.bytes pub),
    ("disco_pubkey", JsonValue.key dk),
    ("node_name", JsonValue.text name)]

def endpointsJson (eps : List RemoteEndpoint) : JsonValue :=
  obj [("endpoints", list (eps.map RemoteEndpoint.toJson))]

/-- What `Register` reads: the tunnel address in CIDR notation and the etag. -/
def registerOfJson (v : JsonValue) : Option (String × String) := do
  let fs ← v.fields
  let tunnelIP ← readField fs "tunnel_ip" "" JsonValue.readText
  let etag ← readField fs "peers_etag" "" JsonValue.readText
  return (tunnelIP, etag)

def RemotePeer.ofJson (v : JsonValue) : Option RemotePeer := do
  let fs ← v.fields
  let nodeKey ← readField fs "node_pubkey" [] JsonValue.readBytes
  let discoKey ← readField fs "disco_pubkey" (Vector.replicate 32 0) JsonValue.readKey
  let name ← readField fs "node_name" "" JsonValue.readText
  let tunnelIP ← readField fs "tunnel_ip" .zero JsonValue.readAddr
  let endpoints ← readField fs "endpoints" [] (readList RemoteEndpoint.ofJson)
  let updatedAt ← readField fs "updated_at" 0 JsonValue.readTime
  return {
    nodeKey := nodeKey
    discoKey := discoKey
    name := name
    tunnelIP := tunnelIP
    endpoints := endpoints
    updatedAt := updatedAt }

def peersOfJson (v : JsonValue) : Option (List RemotePeer × String) := do
  let fs ← v.fields
  let etag ← readField fs "etag" "" JsonValue.readText
  let peers ← readField fs "peers" [] (readList RemotePeer.ofJson)
  return (peers, etag)

/-! ## What one side reads of what the other side wrote -/

def RemoteEndpoint.toEndpoint (e : RemoteEndpoint) : Endpoint := ⟨e.addr, e.source⟩

def RemoteEndpoint.ofEndpoint (e : Endpoint) : RemoteEndpoint := ⟨e.addr, e.source⟩

def RemotePeer.ofPeer (p : Peer) : RemotePeer where
  nodeKey := p.nodeKey
  discoKey := p.discoKey
  name := p.name
  tunnelIP := p.tunnelIP
  endpoints := p.endpoints.map RemoteEndpoint.ofEndpoint
  updatedAt := p.updatedAt

@[simp] theorem ofEndpoint_toEndpoint (e : RemoteEndpoint) :
    RemoteEndpoint.ofEndpoint e.toEndpoint = e := rfl

theorem registerReq_ofJson (pub : Bytes) (dk : Key) (name : String) :
    RegisterReq.ofJson (registerJson pub dk name) = some ⟨pub, dk, name⟩ := by
  simp [RegisterReq.ofJson, registerJson, readField, List.lookup_cons]

theorem endpoint_ofJson (e : RemoteEndpoint) :
    Endpoint.ofJson e.toJson = some e.toEndpoint := by
  simp [Endpoint.ofJson, RemoteEndpoint.toJson, readField, List.lookup_cons,
    RemoteEndpoint.toEndpoint]

theorem endpointsOfJson_endpointsJson (eps : List RemoteEndpoint) :
    endpointsOfJson (endpointsJson eps) = some (eps.map RemoteEndpoint.toEndpoint) := by
  simp [endpointsOfJson, endpointsJson, readField, readList_list endpoint_ofJson]

theorem remoteEndpoint_ofJson (e : Endpoint) :
    RemoteEndpoint.ofJson e.toJson = some (.ofEndpoint e) := by
  simp [RemoteEndpoint.ofJson, Endpoint.toJson, readField, List.lookup_cons,
    RemoteEndpoint.ofEndpoint]

theorem remotePeer_ofJson (p : Peer) : RemotePeer.ofJson p.toJson = some (.ofPeer p) := by
  simp [RemotePeer.ofJson, Peer.toJson, readField, List.lookup_cons,
    readList_list remoteEndpoint_ofJson, RemotePeer.ofPeer]

theorem registerOfJson_toBytes (json : JsonLibrary) (tunnelIP etag : String) :
    (json.unmarshal ((ResponseBody.register tunnelIP etag).toBytes json)).bind
      registerOfJson = some (tunnelIP, etag) := by
  simp [ResponseBody.toBytes, json.unmarshal_marshal, registerOfJson, readField,
    List.lookup_cons]

theorem peersOfJson_toBytes (json : JsonLibrary) (etag : String) (ps : List Peer) :
    (json.unmarshal ((ResponseBody.peers etag ps).toBytes json)).bind peersOfJson =
      some (ps.map RemotePeer.ofPeer, etag) := by
  simp [ResponseBody.toBytes, json.unmarshal_marshal, peersOfJson, readField,
    List.lookup_cons, readList_list remotePeer_ofJson]

/-! ## A call, from its arguments to its results -/

/-- What the calls depend on. `since` is what the server reads as the parameter of
that name out of a query. -/
structure World where
  client : ClientEnv
  server : ServerEnv
  json : JsonLibrary
  quote : String → String
  since : Bytes → String

def World.env (w : World) : ServerEnv :=
  { w.server.overJson w.json with
    crypto := standard w.quote w.client.sha256 w.client.verify }

/-- A `CoordClient` with the public half of its disco key. Its base URL has no path
of its own. -/
structure Member extends CoordClient where
  dk : Key
  isBase : URL.IsBase base

inductive ApiCall where
  | register (name : String)
  | postEndpoints (eps : List RemoteEndpoint)
  | peers (since : Bytes)

inductive Result where
  | failed
  | registered (tunnelCIDR etag : String)
  | posted
  | listed (peers : List RemotePeer) (etag : String)

/-- The request of `Register`, which is not signed. -/
def registerDo (env : ClientEnv) (c : CoordClient) (body : Bytes) :
    Except UrlError Wire := do
  let u ← URL.parse env.parseAuthority (c.base ++ utf8 "/v1/register")
  return {
    method := "POST"
    uri := u.requestURI
    timestamp := ""
    node := ""
    authorization := ""
    body := body }

def Wire.receive (w : World) (wire : Wire) : Except UrlError HttpRequest := do
  let u ← URL.parseRequestURI w.client.parseAuthority wire.uri
  return {
    method := wire.method
    path := u.path
    segments := u.segments
    since := w.since u.rawQuery
    timestamp := wire.timestamp
    node := wire.node
    authorization := wire.authorization
    body := wire.body }

namespace ApiCall

def request (w : World) (m : Member) (now : Time) : ApiCall → Except UrlError Wire
  | register name =>
      registerDo w.client m.toCoordClient
        (w.json.marshal (registerJson m.nk.pub m.dk name))
  | postEndpoints eps =>
      (ClientCall.postEndpoints (w.json.marshal (endpointsJson eps))).send w.client
        m.toCoordClient now
  | peers since => (ClientCall.peers since).send w.client m.toCoordClient now

def result (json : JsonLibrary) (resp : Response) (call : ApiCall) : Result :=
  if resp.status ≠ 200 then .failed
  else match call with
    | register _ =>
        ((json.unmarshal (resp.body.toBytes json)).bind registerOfJson).elim .failed
          fun r => .registered r.1 r.2
    | postEndpoints _ => .posted
    | peers _ =>
        ((json.unmarshal (resp.body.toBytes json)).bind peersOfJson).elim .failed
          fun r => .listed r.1 r.2

end ApiCall

/-- A call of a client, with the clocks of the two sides and what the environment
decides about the calls of the handler. A long poll reads the registry when its
wait is over, and that is when it takes place. -/
structure Exchange where
  member : Member
  call : ApiCall
  sentAt : Time
  servedAt : Time
  decisions : ℕ → Decision

namespace Exchange

def delivered (w : World) (x : Exchange) : Option HttpRequest :=
  ((x.call.request w x.member x.sentAt).bind (Wire.receive w)).toOption

/-- The response of the server and its store after the call; none when no request
reaches it or when the handler blocks, which only a long poll does. -/
def served (w : World) (x : Exchange) (s : Store) : Option (Response × Store) :=
  (x.delivered w).bind fun req =>
    serve w.env (serveHTTP w.env x.servedAt req) x.decisions s

def run (w : World) (x : Exchange) (s : Store) : Result × Store :=
  (x.served w s).elim (.failed, s) fun r => (x.call.result w.json r.1, r.2)

end Exchange

/-! ## All that a call can come to -/

/-- A request for a route reaches the server at that route. -/
theorem Wire.receive_eq_ok {w : World} {m : Member} {route query : Bytes} {u : URL}
    (hroute : URL.Plain route) (hquery : query.head? ≠ some 35)
    (hparse : URL.parse w.client.parseAuthority (m.base ++ URL.withQuery route query) =
      .ok u) {wire : Wire} (huri : wire.uri = u.requestURI) {req : HttpRequest}
    (h : wire.receive w = .ok req) :
    req.method = wire.method ∧ req.segments = URL.segments { path := route } ∧
      req.node = wire.node ∧ req.body = wire.body := by
  obtain ⟨hrequest, hctl⟩ :=
    URL.requestURI_of_parse w.client.parseAuthority m.isBase hroute hquery hparse
  obtain ⟨u', hu', hreq⟩ := Foundation.Checks.bind_eq_ok.1 h
  rw [huri, hrequest, URL.parseRequestURI_withQuery _ hroute hctl] at hu'
  cases hu'
  cases hreq
  exact ⟨rfl, rfl, rfl, rfl⟩

theorem segments_routes :
    URL.segments { path := utf8 "/v1/register" } = ["v1", "register"] ∧
      URL.segments { path := utf8 "/v1/endpoints" } = ["v1", "endpoints"] ∧
      URL.segments { path := utf8 "/v1/peers" } = ["v1", "peers"] := by
  decide +kernel

theorem plain_register : URL.Plain (utf8 "/v1/register") := by
  decide +kernel

/-- The server takes an accepted request for one of the node that its header
names. -/
theorem eq_of_verifyRequest {quote : String → String} {sha256 : Bytes → Bytes}
    {verify : Bytes → Bytes → Bytes → Bool} {now : Time} {r : HttpRequest}
    {pub k body : Bytes} (hnode : r.node = encodeToString pub)
    (h : verifyRequest (standard quote sha256 verify) now r = .ok (k, body)) :
    k = pub ∧ body = r.body := by
  obtain ⟨sig, ts, hpasses⟩ := verifyRequest_eq_ok_iff.1 h
  have hdecode := hpasses.node
  rw [hnode] at hdecode
  exact ⟨Except.ok.inj (hdecode.symm.trans (decodeString_encodeToString pub)),
    hpasses.whole.symm⟩

namespace Exchange

variable {w : World} {x : Exchange} {s s' : Store} {req : HttpRequest}
  {resp : Response}

theorem delivered_eq_some (h : x.delivered w = some req) :
    ∃ wire, x.call.request w x.member x.sentAt = .ok wire ∧
      wire.receive w = .ok req := by
  unfold delivered at h
  cases hbind : (x.call.request w x.member x.sentAt).bind (Wire.receive w) with
  | error e =>
      rw [hbind] at h
      cases h
  | ok r =>
      rw [hbind] at h
      cases h
      exact Foundation.Checks.bind_eq_ok.1 hbind

theorem delivered_register {name : String} (hcall : x.call = .register name)
    (h : x.delivered w = some req) :
    route req = some .register ∧
      req.body = w.json.marshal (registerJson x.member.nk.pub x.member.dk name) := by
  obtain ⟨wire, hwire, hreq⟩ := delivered_eq_some h
  rw [hcall] at hwire
  obtain ⟨u, hparse, hok⟩ := Foundation.Checks.bind_eq_ok.1 hwire
  cases hok
  have hquery : ([] : Bytes).head? ≠ some 35 := by simp
  obtain ⟨hmethod, hsegments, -, hbody⟩ :=
    Wire.receive_eq_ok plain_register hquery hparse rfl hreq
  refine ⟨?_, hbody⟩
  simp [route, hsegments, segments_routes.1, hmethod]

theorem delivered_signed {call : ClientCall}
    (hcall : x.call.request w x.member x.sentAt =
      call.send w.client x.member.toCoordClient x.sentAt)
    (h : x.delivered w = some req) :
    req.method = call.method ∧ req.segments = URL.segments { path := call.route } ∧
      req.node = encodeToString x.member.nk.pub ∧ req.body = call.body := by
  obtain ⟨wire, hwire, hreq⟩ := delivered_eq_some h
  obtain ⟨u, hparse, rfl⟩ := send_eq_ok (hcall.symm.trans hwire)
  rw [call.path_eq] at hparse
  exact Wire.receive_eq_ok call.plain_route call.head_query hparse rfl hreq

theorem request_postEndpoints {eps : List RemoteEndpoint}
    (hcall : x.call = .postEndpoints eps) : x.call.request w x.member x.sentAt =
      (ClientCall.postEndpoints (w.json.marshal (endpointsJson eps))).send w.client
        x.member.toCoordClient x.sentAt := by
  rw [hcall]
  rfl

theorem request_peers {since : Bytes} (hcall : x.call = .peers since) :
    x.call.request w x.member x.sentAt =
      (ClientCall.peers since).send w.client x.member.toCoordClient x.sentAt := by
  rw [hcall]
  rfl

theorem delivered_postEndpoints {eps : List RemoteEndpoint}
    (hcall : x.call = .postEndpoints eps) (h : x.delivered w = some req) :
    route req = some .endpoints ∧ req.node = encodeToString x.member.nk.pub ∧
      req.body = w.json.marshal (endpointsJson eps) := by
  obtain ⟨hmethod, hsegments, hnode, hbody⟩ :=
    delivered_signed (request_postEndpoints hcall) h
  refine ⟨?_, hnode, hbody⟩
  simp [route, hsegments, ClientCall.route, segments_routes.2.1, hmethod,
    ClientCall.method]

theorem delivered_peers {since : Bytes} (hcall : x.call = .peers since)
    (h : x.delivered w = some req) :
    route req = some .peers ∧ req.node = encodeToString x.member.nk.pub := by
  obtain ⟨hmethod, hsegments, hnode, -⟩ := delivered_signed (request_peers hcall) h
  refine ⟨?_, hnode⟩
  simp [route, hsegments, ClientCall.route, segments_routes.2.2, hmethod,
    ClientCall.method]

/-- A call gets no answer and changes nothing, or it returns what it makes of the
answer of the server. -/
theorem run_cases (w : World) (x : Exchange) (s : Store) :
    x.run w s = (.failed, s) ∨ ∃ req resp s', x.delivered w = some req ∧
      serve w.env (serveHTTP w.env x.servedAt req) x.decisions s = some (resp, s') ∧
      x.run w s = (x.call.result w.json resp, s') := by
  cases hserved : x.served w s with
  | none => exact Or.inl (by rw [run, hserved, Option.elim_none])
  | some r =>
      obtain ⟨req, hreq, hserve⟩ := Option.bind_eq_some_iff.1 hserved
      exact Or.inr ⟨req, r.1, r.2, hreq, hserve, by rw [run, hserved, Option.elim_some]⟩

theorem result_of_status (json : JsonLibrary) {resp : Response}
    (h : resp.status ≠ 200) (call : ApiCall) : call.result json resp = .failed :=
  if_pos h

theorem serve_authed {pub : Bytes} (hnode : req.node = encodeToString pub)
    {now : Time} {h : Bytes → Bytes → Handler Response} {ω : ℕ → Decision}
    (hserve : serve w.env (authed w.env now req h) ω s = some (resp, s')) :
    resp.status ≠ 200 ∧ s' = s ∨
      serve w.env (h pub req.body) ω s = some (resp, s') := by
  unfold authed at hserve
  split at hserve
  · cases hserve
    exact Or.inl ⟨by simp, rfl⟩
  · rename_i pub' body hverify
    obtain ⟨rfl, rfl⟩ := eq_of_verifyRequest hnode hverify
    exact Or.inr hserve

/-- A registration: nothing happens, or the node is registered and told its
address. -/
theorem run_register (w : World) (s : Store) {name : String}
    (hcall : x.call = .register name) :
    (x.run w s).1 = .failed ∧ (x.run w s).2.registry = s.registry ∨
      ∃ ctx now ip etag,
        s.registry.register w.server.newEtag ctx now
            { nodeKey := x.member.nk.pub, discoKey := x.member.dk, name := name } =
          (.ok ip, (x.run w s).2.registry) ∧
        (x.run w s).1 = .registered (ip.string ++ "/24") etag := by
  rcases x.run_cases w s with heq | ⟨req, resp, s', hreq, hserve, heq⟩
  · exact Or.inl (by simp [heq])
  · obtain ⟨hroute, hbody⟩ := delivered_register hcall hreq
    simp only [serveHTTP, hroute] at hserve
    have hdecode : w.env.decodeRegister req.body req.bodyErr =
        some ⟨x.member.nk.pub, x.member.dk, name⟩ := by
      change (w.json.unmarshal req.body).bind RegisterReq.ofJson = _
      rw [hbody, w.json.unmarshal_marshal]
      exact registerReq_ofJson _ _ _
    rw [heq]
    rcases serve_handleRegister hdecode hserve with
      ⟨hstatus, hsame⟩ | ⟨ctx, now, ip, etag, hregister, rfl⟩
    · exact Or.inl ⟨result_of_status _ hstatus _, hsame⟩
    · refine Or.inr ⟨ctx, now, ip, etag, hregister, ?_⟩
      simp [hcall, ApiCall.result, registerOfJson_toBytes]

/-- A post: nothing happens, or the endpoints of the node are replaced. -/
theorem run_postEndpoints (w : World) (s : Store) {eps : List RemoteEndpoint}
    (hcall : x.call = .postEndpoints eps) :
    (x.run w s).1 = .failed ∧ (x.run w s).2.registry = s.registry ∨
      ∃ ctx now,
        s.registry.setEndpoints w.server.newEtag ctx now x.member.nk.pub
            (eps.map RemoteEndpoint.toEndpoint) = (.ok (), (x.run w s).2.registry) ∧
        (x.run w s).1 = .posted := by
  rcases x.run_cases w s with heq | ⟨req, resp, s', hreq, hserve, heq⟩
  · exact Or.inl (by simp [heq])
  · obtain ⟨hroute, hnode, hbody⟩ := delivered_postEndpoints hcall hreq
    simp only [serveHTTP, hroute] at hserve
    have hdecode : w.env.decodeEndpoints req.body =
        some (eps.map RemoteEndpoint.toEndpoint) := by
      change (w.json.unmarshal req.body).bind endpointsOfJson = _
      rw [hbody, w.json.unmarshal_marshal]
      exact endpointsOfJson_endpointsJson eps
    rw [heq]
    rcases serve_authed hnode hserve with ⟨hstatus, rfl⟩ | hserve
    · exact Or.inl ⟨result_of_status _ hstatus _, rfl⟩
    · rcases serve_handleEndpoints hdecode hserve with
        ⟨hstatus, hsame⟩ | ⟨ctx, now, hset, rfl⟩
      · exact Or.inl ⟨result_of_status _ hstatus _, hsame⟩
      · exact Or.inr ⟨ctx, now, hset, by simp [hcall, ApiCall.result]⟩

/-- A look at the list: it fails, or gives every record of the registry. -/
theorem run_peers (w : World) (s : Store) {since : Bytes}
    (hcall : x.call = .peers since) :
    (x.run w s).2 = s ∧ ((x.run w s).1 = .failed ∨ ∃ l : List Peer,
      l.Perm (values s.registry.peers) ∧
        (x.run w s).1 = .listed ((l.mergeSort Registry.byTunnelIP).map .ofPeer)
          s.registry.peersEtag) := by
  rcases x.run_cases w s with heq | ⟨req, resp, s', hreq, hserve, heq⟩
  · exact ⟨by rw [heq], Or.inl (by rw [heq])⟩
  · obtain ⟨hroute, hnode⟩ := delivered_peers hcall hreq
    simp only [serveHTTP, hroute] at hserve
    rw [heq]
    rcases serve_authed hnode hserve with ⟨hstatus, rfl⟩ | hserve
    · exact ⟨rfl, Or.inl (result_of_status _ hstatus _)⟩
    · rcases serve_handlePeers hserve with ⟨rfl, hstatus | ⟨l, hl, rfl⟩⟩
      · exact ⟨rfl, Or.inl (result_of_status _ hstatus _)⟩
      · refine ⟨rfl, Or.inr ⟨l, hl, ?_⟩⟩
        simp [hcall, ApiCall.result, peersOfJson_toBytes]

/-- Whatever call returns a list has read every record of the registry. -/
theorem perm_of_listed {peers : List RemotePeer} {etag : String}
    (h : (x.run w s).1 = .listed peers etag) :
    ∃ l : List Peer, l.Perm (values s.registry.peers) ∧
      peers = (l.mergeSort Registry.byTunnelIP).map .ofPeer := by
  cases hcall : x.call with
  | register name =>
      rcases x.run_register w s hcall with ⟨hrun, -⟩ | ⟨_, _, _, _, -, hrun⟩
      · cases hrun.symm.trans h
      · cases hrun.symm.trans h
  | postEndpoints eps =>
      rcases x.run_postEndpoints w s hcall with ⟨hrun, -⟩ | ⟨_, _, -, hrun⟩
      · cases hrun.symm.trans h
      · cases hrun.symm.trans h
  | peers since =>
      rcases x.run_peers w s hcall with ⟨-, hrun | ⟨l, hl, hrun⟩⟩
      · cases hrun.symm.trans h
      · cases hrun.symm.trans h
        exact ⟨l, hl, rfl⟩

/-! ## A call that succeeds -/

/-- A signed call that is sent reaches the server, which accepts it as long as the
signature is right and the clocks agree. -/
theorem exists_delivered_signed {call : ClientCall} {wire : Wire}
    (hcall : x.call.request w x.member x.sentAt =
      call.send w.client x.member.toCoordClient x.sentAt)
    (hsent : call.send w.client x.member.toCoordClient x.sentAt = .ok wire)
    (hsign : ∀ msg, w.client.verify x.member.nk.pub msg
      (w.client.sign x.member.nk.priv msg) = true)
    (hclock : |(unix x.servedAt).toInt - (unix x.sentAt).toInt| ≤ 60) :
    ∃ req query, x.delivered w = some req ∧ req.since = w.since query ∧
      (call.query = [] → query = []) ∧
      verifyRequest w.env.crypto x.servedAt req = .ok (x.member.nk.pub, call.body) := by
  obtain ⟨u, hparse, rfl⟩ := send_eq_ok hsent
  have hnormal : normalisePath call.path = call.route := by
    rw [call.path_eq, normalisePath_withQuery call.plain_route.query]
  rw [call.path_eq] at hparse
  obtain ⟨huri, hctl⟩ := URL.requestURI_of_parse w.client.parseAuthority x.member.isBase
    call.plain_route call.head_query hparse
  have hreceive := URL.parseRequestURI_withQuery w.client.parseAuthority
    call.plain_route hctl
  rw [← huri] at hreceive
  have hdelivered : x.delivered w = some
      { method := call.method
        path := call.route
        segments := URL.segments
          { path := call.route, rawQuery := (Foundation.Cut.cut 35 call.query).1 }
        since := w.since (Foundation.Cut.cut 35 call.query).1
        timestamp := formatInt (unix x.sentAt)
        node := encodeToString x.member.nk.pub
        authorization := "Gretun " ++
          encodeToString (signature w.client x.member.toCoordClient x.sentAt call)
        body := call.body } := by
    rw [delivered, hcall, hsent]
    simp only [Except.bind, Wire.receive, hreceive]
    rfl
  refine ⟨_, _, hdelivered, rfl, ?_, ?_⟩
  · intro hnil
    rw [hnil]
    rfl
  · exact verifyRequest_eq_ok_iff.2 ⟨_, _, passes_of_headers hsign w.quote hclock rfl
      hnormal.symm rfl rfl rfl rfl rfl⟩

/-- A client whose signature is right and whose clock agrees with the server's gets
a list when it asks for one. -/
theorem exists_listed {wire : Wire} (hcall : x.call = .peers [])
    (hsent : x.call.request w x.member x.sentAt = .ok wire)
    (hsign : ∀ msg, w.client.verify x.member.nk.pub msg
      (w.client.sign x.member.nk.priv msg) = true)
    (hclock : |(unix x.servedAt).toInt - (unix x.sentAt).toInt| ≤ 60)
    (hsince : w.since [] = "") (hctx : (x.decisions 0).ctx = none) :
    ∃ peers etag, (x.run w s).1 = .listed peers etag := by
  have hrequest := request_peers (w := w) hcall
  obtain ⟨req, query, hreq, hquery, hnil, hverify⟩ :=
    exists_delivered_signed hrequest (hrequest ▸ hsent) hsign hclock
  obtain ⟨hroute, -⟩ := delivered_peers hcall hreq
  rw [hnil rfl, hsince] at hquery
  have hserved : x.served w s = some (⟨200, .peers s.registry.peersEtag
      (((x.decisions 0).order (values s.registry.peers)).mergeSort
        Registry.byTunnelIP)⟩, s) := by
    rw [served, hreq]
    simp [serveHTTP, hroute, authed, hverify, handlePeers, hquery, handleDebugPeers,
      serve, Store.answer, Registry.peersIn, hctx]
  have hresult : (x.run w s).1 = .listed
      ((((x.decisions 0).order (values s.registry.peers)).mergeSort
        Registry.byTunnelIP).map .ofPeer) s.registry.peersEtag := by
    simp [run, hserved, hcall, ApiCall.result, peersOfJson_toBytes]
  exact ⟨_, _, hresult⟩

end Exchange

end Disco

end Gretun
