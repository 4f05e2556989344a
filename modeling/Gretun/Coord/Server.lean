import Gretun.Coord.Auth
import Gretun.Coord.SignalPoll
import Gretun.Foundation.Command

/-!
# The HTTP server

The handlers are programs over the calls of the store. The parts of a store call
that run under a lock, and a receive from a channel, are single commands, so
`EnqueueSignal` and the two waits take several. `Server.step` lets a request
arrive, or lets one of the requests in flight take its next command: any
interleaving of any number of handlers is a run. The JSON decoders, and what the
multiplexer answers when no pattern matches, are parameters. A response carries
the value that is encoded, not its text.
-/

namespace Gretun

namespace Coord

open Gretun.Net
open Foundation.Assoc
open Foundation.Channel
open Foundation.Command

/-! ## Store calls -/

structure Store where
  registry : Registry
  signals : Signals

inductive StoreCall where
  | now
  | register (p : Peer)
  | setEndpoints (nodeKey : Bytes) (eps : List Endpoint)
  | peers
  | waitChannel (since : String)
  | receivePeers (ch : ℕ)
  | enqueueLocked (dst : Key) (env : Envelope)
  | closeWake (wake : Option ℕ)
  | popSignals (dst : Key)
  | waitLocked (dst : Key)
  | receiveWake (ch : ℕ)
  deriving DecidableEq

abbrev Answer : StoreCall → Type
  | .now => Time
  | .register _ => Except StoreError Addr
  | .setEndpoints .. => Except StoreError Unit
  | .peers => Except StoreError (List Peer × String)
  | .waitChannel _ => Option ℕ
  | .receivePeers _ => Except CtxError Unit
  | .enqueueLocked .. => Except CtxError (Option ℕ)
  | .closeWake _ => Unit
  | .popSignals _ => Except CtxError (List Envelope)
  | .waitLocked _ => Option ℕ
  | .receiveWake _ => Except CtxError Unit

abbrev Handler := Prog StoreCall Answer

/-- What the environment decides about one call: whether the context is done, the
clock reading, the spare capacity of a grown array, and the order in which the
map of peers is iterated. -/
structure Decision where
  ctx : Option CtxError := none
  now : Time := 0
  extra : ℕ := 0
  order : List Peer → List Peer := id
  order_perm : ∀ l, (order l).Perm l := by exact fun l => .refl l

namespace Store

def new (newEtag : ℕ → String) (pool : Prefix) : Store where
  registry := Registry.new newEtag pool
  signals := Signals.empty

def receive (d : Decision) (chans : Chans) (ch : ℕ) : Option (Except CtxError Unit) :=
  match d.ctx with
  | some e => some (.error e)
  | none => if chans.IsOpen ch then none else some (.ok ())

/-- The answer to a call and the store after it; none when the call blocks. -/
def answer (newEtag : ℕ → String) (limits : Limits) (d : Decision) :
    (c : StoreCall) → Store → Option (Answer c × Store)
  | .now, s => some (d.now, s)
  | .register p, s =>
      let r := s.registry.register newEtag d.ctx d.now p
      some (r.1, { s with registry := r.2 })
  | .setEndpoints nodeKey eps, s =>
      let r := s.registry.setEndpoints newEtag d.ctx d.now nodeKey eps
      some (r.1, { s with registry := r.2 })
  | .peers, s =>
      some (s.registry.peersIn d.ctx (d.order (values s.registry.peers)), s)
  | .waitChannel since, s => some (s.registry.waitChannel since, s)
  | .receivePeers ch, s => (receive d s.registry.chans ch).map (·, s)
  | .enqueueLocked dst env, s =>
      match d.ctx with
      | some e => some (.error e, s)
      | none =>
          let r := s.signals.enqueueLocked limits d.extra dst env
          some (.ok r.1, { s with signals := r.2 })
  | .closeWake wake, s => some ((), { s with signals := s.signals.closeWake wake })
  | .popSignals dst, s =>
      let r := s.signals.popSignals limits d.ctx d.now dst
      some (r.1.map (·.toList r.2.heap), { s with signals := r.2 })
  | .waitLocked dst, s =>
      let r := s.signals.waitLocked dst
      some (r.1, { s with signals := r.2 })
  | .receiveWake ch, s => (receive d s.signals.chans ch).map (·, s)

end Store

def waitForPeersChange (since : String) : Handler (Except CtxError Unit) := do
  match ← Prog.perform (StoreCall.waitChannel since) with
  | none => return .ok ()
  | some ch => Prog.perform (StoreCall.receivePeers ch)

def enqueueSignal (dst : Key) (env : Envelope) : Handler (Except CtxError Unit) := do
  match ← Prog.perform (StoreCall.enqueueLocked dst env) with
  | .error e => return .error e
  | .ok wake =>
      let _ ← Prog.perform (StoreCall.closeWake wake)
      return .ok ()

def waitForSignal (dst : Key) : Handler (Except CtxError Unit) := do
  match ← Prog.perform (StoreCall.waitLocked dst) with
  | none => return .ok ()
  | some ch => Prog.perform (StoreCall.receiveWake ch)

/-! ## Handlers -/

inductive ResponseBody where
  | text (s : String)
  | register (tunnelIP etag : String)
  | ok
  | peers (etag : String) (peers : List Peer)
  | queued
  | signals (envelopes : List Envelope)
  deriving DecidableEq

structure Response where
  status : ℕ
  body : ResponseBody
  deriving DecidableEq

def httpError (text : String) (status : ℕ) : Response :=
  ⟨status, .text (text ++ "\n")⟩

/-- `RegisterReq`, less the requested address, which no handler reads. -/
structure RegisterReq where
  nodePubkey : Bytes
  discoPubkey : Key
  nodeName : String
  deriving DecidableEq

/-- `SignalReq`; `dst` is its `To` field. -/
structure SignalReq where
  dst : Key
  «sealed» : Bytes

/-- What a `Server` depends on. `decodeRegister` reads from the stream, so it gets
the read error as well. -/
structure ServerEnv where
  crypto : Crypto
  decodeRegister : Bytes → Option String → Option RegisterReq
  decodeEndpoints : Bytes → Option (List Endpoint)
  decodeSignal : Bytes → Option SignalReq
  unmatched : HttpRequest → Response
  ctxText : CtxError → String
  newEtag : ℕ → String
  limits : Limits

def RegisterReq.peer (req : RegisterReq) : Peer where
  nodeKey := req.nodePubkey
  discoKey := req.discoPubkey
  name := req.nodeName

def handleRegister (env : ServerEnv) (r : HttpRequest) : Handler Response := do
  match env.decodeRegister r.body r.bodyErr with
  | none => return httpError "bad json" 400
  | some req =>
      if req.nodePubkey.length ≠ publicKeySize then
        return httpError "bad node_pubkey length" 400
      else match ← Prog.perform (StoreCall.register req.peer) with
        | .error err => return httpError (err.text env.ctxText) 500
        | .ok tunnelIP => match ← Prog.perform StoreCall.peers with
          | .error _ => return ⟨200, .register (tunnelIP.string ++ "/24") ""⟩
          | .ok (_, etag) => return ⟨200, .register (tunnelIP.string ++ "/24") etag⟩

def handleEndpoints (env : ServerEnv) (pub body : Bytes) : Handler Response := do
  match env.decodeEndpoints body with
  | none => return httpError "bad json" 400
  | some eps => match ← Prog.perform (StoreCall.setEndpoints pub eps) with
    | .error err => return httpError (err.text env.ctxText) 404
    | .ok () => return ⟨200, .ok⟩

/-- `handleDebugPeers`, and the end of `handlePeers`. -/
def handleDebugPeers (env : ServerEnv) : Handler Response := do
  match ← Prog.perform StoreCall.peers with
  | .error err => return httpError (err.text env.ctxText) 500
  | .ok (peers, etag) => return ⟨200, .peers etag peers⟩

def handlePeers (env : ServerEnv) (r : HttpRequest) : Handler Response := do
  if r.since = "" then handleDebugPeers env
  else
    let _ ← waitForPeersChange r.since
    handleDebugPeers env

def handleSignal (env : ServerEnv) (body : Bytes) : Handler Response := do
  match env.decodeSignal body with
  | none => return httpError "bad json" 400
  | some req =>
      let now ← Prog.perform StoreCall.now
      match ← enqueueSignal req.dst ⟨Vector.replicate 32 0, req.sealed, now⟩ with
      | .error e => return httpError (env.ctxText e) 500
      | .ok () => return ⟨200, .queued⟩

/-- The search of `discoKeyForNodeKey` in the list that `Peers` gave. -/
def discoKeyIn (env : ServerEnv) (nodeKey : Bytes) :
    Except StoreError (List Peer × String) → Except String Key
  | .error err => .error (err.text env.ctxText)
  | .ok (peers, _) => match peers.find? (·.nodeKey = nodeKey) with
    | some p => .ok p.discoKey
    | none => .error "unregistered node"

def discoKeyForNodeKey (env : ServerEnv) (nodeKey : Bytes) :
    Handler (Except String Key) := do
  let peers ← Prog.perform StoreCall.peers
  return discoKeyIn env nodeKey peers

/-- The second pop of `handleSignalPull`. -/
def popAgain (dst : Key) : Handler Response := do
  match ← Prog.perform (StoreCall.popSignals dst) with
  | .error _ => return ⟨200, .signals []⟩
  | .ok envs => return ⟨200, .signals envs⟩

/-- The wait of `handleSignalPull` and the pop after it. -/
def pullAgain (dst : Key) : Handler Response := do
  match ← waitForSignal dst with
  | .error _ => return ⟨200, .signals []⟩
  | .ok () => popAgain dst

/-- The part of `handleSignalPull` that knows the queue. -/
def pullFrom (dst : Key) : Handler Response := do
  match ← Prog.perform (StoreCall.popSignals dst) with
  | .ok (e :: envs) => return ⟨200, .signals (e :: envs)⟩
  | _ => pullAgain dst

/-- The part of `handleSignalPull` after the lookup. -/
def pullFound : Except String Key → Handler Response
  | .error text => return httpError text 400
  | .ok dst => pullFrom dst

def handleSignalPull (env : ServerEnv) (pub : Bytes) : Handler Response := do
  pullFound (← discoKeyForNodeKey env pub)

/-! ## Routes -/

inductive Route where
  | register
  | endpoints
  | peers
  | signal
  | signalPull
  | debugPeers
  deriving DecidableEq

/-- The patterns of `NewServer`; a pattern for `GET` matches `HEAD` as well. -/
def route (r : HttpRequest) : Option Route :=
  let get := r.method = "GET" ∨ r.method = "HEAD"
  let post := r.method = "POST"
  match r.segments with
  | ["v1", "register"] => if post then some .register else none
  | ["v1", "endpoints"] => if post then some .endpoints else none
  | ["v1", "peers"] => if get then some .peers else none
  | ["v1", "signal"] =>
      if post then some .signal else if get then some .signalPull else none
  | ["debug", "peers"] => if get then some .debugPeers else none
  | _ => none

def authed (env : ServerEnv) (now : Time) (r : HttpRequest)
    (h : Bytes → Bytes → Handler Response) : Handler Response :=
  match verifyRequest env.crypto now r with
  | .error err => return httpError err.text 401
  | .ok (pub, body) => h pub body

def serveHTTP (env : ServerEnv) (now : Time) (r : HttpRequest) : Handler Response :=
  match route r with
  | none => return env.unmatched r
  | some .register => handleRegister env r
  | some .endpoints => authed env now r (handleEndpoints env)
  | some .peers => authed env now r fun _ _ => handlePeers env r
  | some .signal => authed env now r fun _ body => handleSignal env body
  | some .signalPull => authed env now r fun pub _ => handleSignalPull env pub
  | some .debugPeers => handleDebugPeers env

/-! ## The calls that a handler makes -/

section Calls

variable {P : StoreCall → Prop}

theorem allCalls_waitForPeersChange {since : String} (hcheck : P (.waitChannel since))
    (hreceive : ∀ ch, P (.receivePeers ch)) :
    Prog.AllCalls P (waitForPeersChange since) := by
  refine ⟨hcheck, fun r => ?_⟩
  cases r with
  | none => trivial
  | some ch => exact ⟨hreceive ch, fun _ => trivial⟩

theorem allCalls_waitForSignal {dst : Key} (hcheck : P (.waitLocked dst))
    (hreceive : ∀ ch, P (.receiveWake ch)) : Prog.AllCalls P (waitForSignal dst) := by
  refine ⟨hcheck, fun r => ?_⟩
  cases r with
  | none => trivial
  | some ch => exact ⟨hreceive ch, fun _ => trivial⟩

theorem allCalls_handleRegister {env : ServerEnv} {r : HttpRequest}
    (hregister : ∀ req, env.decodeRegister r.body r.bodyErr = some req →
      req.nodePubkey.length = publicKeySize → P (.register req.peer))
    (hpeers : P .peers) : Prog.AllCalls P (handleRegister env r) := by
  unfold handleRegister
  cases hreq : env.decodeRegister r.body r.bodyErr with
  | none => trivial
  | some req =>
      by_cases hlen : req.nodePubkey.length = publicKeySize
      · simp only [hlen, ne_eq, not_true_eq_false, if_false]
        refine ⟨hregister req hreq hlen, fun a => ?_⟩
        cases a with
        | error err => trivial
        | ok ip =>
            refine ⟨hpeers, fun a => ?_⟩
            cases a <;> trivial
      · simp only [hlen, ne_eq, not_false_eq_true, if_true]
        trivial

theorem allCalls_handleEndpoints {env : ServerEnv} {pub : Bytes}
    (hset : ∀ eps, P (.setEndpoints pub eps)) (body : Bytes) :
    Prog.AllCalls P (handleEndpoints env pub body) := by
  unfold handleEndpoints
  cases env.decodeEndpoints body with
  | none => trivial
  | some eps =>
      refine ⟨hset eps, fun a => ?_⟩
      cases a <;> trivial

theorem allCalls_handleDebugPeers {env : ServerEnv} (hpeers : P .peers) :
    Prog.AllCalls P (handleDebugPeers env) := by
  refine ⟨hpeers, fun a => ?_⟩
  cases a <;> trivial

theorem allCalls_handlePeers {env : ServerEnv} {r : HttpRequest} (hpeers : P .peers)
    (hcheck : P (.waitChannel r.since)) (hreceive : ∀ ch, P (.receivePeers ch)) :
    Prog.AllCalls P (handlePeers env r) := by
  unfold handlePeers
  split
  · exact allCalls_handleDebugPeers hpeers
  · exact (allCalls_waitForPeersChange hcheck hreceive).bind fun _ =>
      allCalls_handleDebugPeers hpeers

theorem allCalls_handleSignal {env : ServerEnv} (hnow : P .now)
    (henqueue : ∀ dst e, P (.enqueueLocked dst e)) (hclose : ∀ wake, P (.closeWake wake))
    (body : Bytes) : Prog.AllCalls P (handleSignal env body) := by
  unfold handleSignal
  cases env.decodeSignal body with
  | none => trivial
  | some req =>
      refine ⟨hnow, fun t => ⟨henqueue _ _, fun a => ?_⟩⟩
      cases a with
      | error e => trivial
      | ok wake => exact ⟨hclose wake, fun _ => trivial⟩

theorem allCalls_pullFrom {dst : Key} (hpop : P (.popSignals dst))
    (hcheck : P (.waitLocked dst)) (hreceive : ∀ ch, P (.receiveWake ch)) :
    Prog.AllCalls P (pullFrom dst) := by
  have hagain : Prog.AllCalls P (pullAgain dst) := by
    refine (allCalls_waitForSignal hcheck hreceive).bind fun a => ?_
    cases a with
    | error e => trivial
    | ok u =>
        refine ⟨hpop, fun a => ?_⟩
        cases a <;> trivial
  refine ⟨hpop, fun a => ?_⟩
  rcases a with e | (_ | ⟨e, envs⟩)
  · exact hagain
  · exact hagain
  · trivial

theorem handleSignalPull_eq (env : ServerEnv) (k : Bytes) :
    handleSignalPull env k =
      .call .peers fun peers => pullFound (discoKeyIn env k peers) := rfl

theorem allCalls_handleSignalPull {env : ServerEnv} {pub : Bytes} (hpeers : P .peers)
    (hpull : ∀ dst, Prog.AllCalls P (pullFrom dst)) :
    Prog.AllCalls P (handleSignalPull env pub) := by
  rw [handleSignalPull_eq]
  refine ⟨hpeers, fun a => ?_⟩
  change Prog.AllCalls P (pullFound (discoKeyIn env pub a))
  cases discoKeyIn env pub a with
  | error text => trivial
  | ok dst => exact hpull dst

theorem allCalls_authed {env : ServerEnv} {now : Time} {r : HttpRequest}
    {h : Bytes → Bytes → Handler Response}
    (hh : ∀ pub body, SignedBy env.crypto now pub r → Prog.AllCalls P (h pub body)) :
    Prog.AllCalls P (authed env now r h) := by
  unfold authed
  cases hverify : verifyRequest env.crypto now r with
  | error err => trivial
  | ok v => exact hh v.1 v.2 ⟨v.2, hverify⟩

end Calls

/-! ## Runs -/

structure InFlight where
  req : HttpRequest
  now : Time
  prog : Handler Response

structure Server where
  store : Store
  inflight : ℕ → Option InFlight
  sent : List (ℕ × Response)

inductive ServerInput where
  | arrive (id : ℕ) (req : HttpRequest) (now : Time)
  | advance (id : ℕ) (d : Decision)

namespace Server

def start (env : ServerEnv) (pool : Prefix) : Server where
  store := Store.new env.newEtag pool
  inflight _ := none
  sent := []

def advance (env : ServerEnv) (d : Decision) (s : Server) (id : ℕ) (f : InFlight) :
    Server :=
  match f.prog with
  | .ret resp =>
      { s with
        inflight := Function.update s.inflight id none
        sent := s.sent ++ [(id, resp)] }
  | .call c k => match s.store.answer env.newEtag env.limits d c with
    | none => s
    | some (a, store) =>
        { s with
          store := store
          inflight := Function.update s.inflight id (some { f with prog := k a }) }

def step (env : ServerEnv) (s : Server) : ServerInput → Server
  | .arrive id req now => match s.inflight id with
    | some _ => s
    | none =>
        { s with
          inflight := Function.update s.inflight id
            (some ⟨req, now, serveHTTP env now req⟩) }
  | .advance id d => match s.inflight id with
    | none => s
    | some f => s.advance env d id f

end Server

end Coord

end Gretun
