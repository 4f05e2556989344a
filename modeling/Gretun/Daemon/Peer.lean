import Gretun.Disco.Message
import Gretun.Tunnel.Gre

/-!
# The per-peer state machine

`peerFSM` runs in one goroutine that handles queued events, punch ticks and
keepalive ticks one at a time. `World` is what that goroutine works on: the
fields of the machine, the deadline that its loop keeps in a local variable, the
kernel, and how many clock readings and transaction IDs it has used. `Env` fixes
what is outside: the dependencies, the value of each clock reading and of each
transaction ID, and the text parsers. `step` handles one input; the interface
addresses and the fate of the netlink calls during that step come with it.

`update` first queues its event and then replaces the peer snapshot, from
another goroutine. The two are separate inputs here, `update` and `setPeer`.
-/

namespace Gretun

namespace Daemon

open Gretun.Net
open Gretun.Disco
open Gretun.Tunnel

inductive PeerState where
  | unknown
  | haveEndpoints
  | punching
  | direct
  | relay
  deriving DecidableEq

def punchAttemptDur : Duration := 5 * Time.second
def pongMissDeadline : Duration := 75 * Time.second

/-- `peerDeps`, less the handles that the environment stands for. `self` is the
public disco key, `selfNode` the base64 text of the node key, and `metrics` says
whether metrics are kept. -/
structure PeerDeps where
  self : Key
  selfNode : String
  ifaceName : String
  fouPort : Port
  selfTunnel : Addr
  metrics : Bool
  deriving DecidableEq

structure PeerFSM where
  peer : RemotePeer
  state : PeerState
  winning : AddrPort
  tunnelUp : Bool
  lastPong : Time
  punchStart : Time
  deriving DecidableEq

/-- What the machine does to the outside, in order: the envelopes it is about to send over
the disco socket and over the coordinator, and the metrics it records. An envelope that
cannot be built or written counts too, since the machine goes on all the same. -/
inductive Effect where
  | udp (dst : AddrPort) (recipient : Key) (body : Body)
  | signal (recipient : Key) (body : Body)
  | pingSent
  | pongRecv
  | holePunch (d : Duration)
  deriving DecidableEq

def newPeerFSM (peer : RemotePeer) : PeerFSM where
  peer := peer
  state := .unknown
  winning := AddrPort.zero
  tunnelUp := false
  lastPong := 0
  punchStart := 0

structure World where
  fsm : PeerFSM
  punchDeadline : Time
  kernel : Kernel
  reads : ℕ
  txs : ℕ
  effects : List Effect

structure Env where
  deps : PeerDeps
  clock : ℕ → Time
  newTxID : ℕ → String
  parseAddrPort : String → Option AddrPort
  parsers : Parsers

inductive Event where
  | setPeer (peer : RemotePeer)
  | update
  | udp (src : AddrPort) (body : Body)
  | signal (body : Body)
  | tick
  | keepalive
  deriving DecidableEq

structure Input where
  event : Event
  ifaceAddrs : List IP
  faults : ℕ → NlCall → Fault

namespace World

def now (e : Env) (w : World) : Time := e.clock w.reads

def setState (s : PeerState) (w : World) : World :=
  { w with fsm := { w.fsm with state := s } }

def emit (x : Effect) (w : World) : World :=
  { w with effects := w.effects ++ [x] }

def record (e : Env) (x : Effect) (w : World) : World :=
  if e.deps.metrics then w.emit x else w

end World

/-! ## Sending -/

/-- The call of `sendDisco`, which ignores both of its errors. -/
def sendDisco (dst : AddrPort) (body : Body) (w : World) : World :=
  w.emit (.udp dst w.fsm.peer.discoKey body)

def sendPing (e : Env) (dst : AddrPort) (w : World) : World :=
  let w := sendDisco dst
    { type := .ping, tx := e.newTxID w.txs, nodeKey := e.deps.selfNode } w
  let w := { w with txs := w.txs + 1 }
  w.record e .pingSent

def pingAll (e : Env) (dsts : List AddrPort) (w : World) : World :=
  dsts.foldl (fun w dst => sendPing e dst w) w

def sendPong (dst : AddrPort) (tx : String) (w : World) : World :=
  sendDisco dst { type := .pong, tx := tx, src := dst.string } w

def gatherLocalAddrPorts (ifaceAddrs : List IP) (port : ℕ) : List String :=
  (ifaceAddrs.filterMap IP.to4).filterMap fun v4 =>
    if v4.isLoopback then none else some (v4.string ++ ":" ++ toString port)

def sendCallMeMaybe (ifaceAddrs : List IP) (port : ℕ) (w : World) : World :=
  w.emit (.signal w.fsm.peer.discoKey
    { type := .callMeMaybe, endpoints := gatherLocalAddrPorts ifaceAddrs port })

/-! ## Bringing up the tunnel -/

def firstGlobalV4 (ifaceAddrs : List IP) : Addr :=
  match (ifaceAddrs.filterMap IP.to4).find?
      fun v4 => !v4.isLoopback && v4.isGlobalUnicast with
  | some v4 => IP.addrFromSlice v4
  | none => .zero

def tunnelConfig (e : Env) (src : Addr) (dst : AddrPort) : Config where
  name := e.deps.ifaceName
  localIP := src.asSlice
  remoteIP := dst.addr.asSlice
  encap := .fou
  encapDport := dst.port
  encapSport := e.deps.fouPort
  encapChecksum := true

/-- The netlink requests of `bringUpTunnel`: create the link, then assign the
tunnel address when both sides have one. A failure of the latter is ignored. -/
def bringUp (e : Env) (peerTunnel : Addr) (cfg : Config) :
    Netlink (Except TunnelErr Unit) := do
  match ← create none cfg with
  | .error err => return .error err
  | .ok () =>
      if e.deps.selfTunnel.isValid && peerTunnel.isValid then
        let _ ← assignIP e.parsers none e.deps.ifaceName
          (e.deps.selfTunnel.string ++ "/30")
        return .ok ()
      else return .ok ()

def bringUpTunnel (e : Env) (i : Input) (dst : AddrPort) (w : World) : World :=
  if w.fsm.tunnelUp then w
  else if !(firstGlobalV4 i.ifaceAddrs).isValid then w
  else
    let cfg := tunnelConfig e (firstGlobalV4 i.ifaceAddrs) dst
    let r := exec (bringUp e w.fsm.peer.tunnelIP cfg) i.faults w.kernel
    match r.1 with
    | .error _ => { w with kernel := r.2 }
    | .ok () => { w with kernel := r.2, fsm := { w.fsm with tunnelUp := true } }

/-! ## Handling events -/

def absorbEndpoints (e : Env) (addrs : List String) (w : World) : World :=
  let add (eps : List RemoteEndpoint) (s : String) : List RemoteEndpoint :=
    match e.parseAddrPort s with
    | none => eps
    | some ap =>
        if ap ∈ eps.map (·.addr) then eps
        else eps ++ [⟨ap, "call_me_maybe"⟩]
  { w with fsm := { w.fsm with
      peer := { w.fsm.peer with
        endpoints := addrs.foldl add w.fsm.peer.endpoints } } }

def onPeerUpdate (e : Env) (w : World) : World :=
  if w.fsm.peer.endpoints ≠ [] ∧ w.fsm.state = .unknown then
    let w := (w.setState .haveEndpoints).setState .punching
    { w with
      fsm := { w.fsm with punchStart := e.clock w.reads }
      punchDeadline := e.clock (w.reads + 1) + punchAttemptDur
      reads := w.reads + 2 }
  else w

/-- A pong while the path is not direct: it selects the endpoint it came from. -/
def onPongNew (e : Env) (i : Input) (src : AddrPort) (w : World) : World :=
  let since := Time.sub (e.clock (w.reads + 1)) w.fsm.punchStart
  let w := { w with
    fsm := { w.fsm with winning := src, lastPong := e.clock w.reads }
    reads := w.reads + 2 }
  let w := w.setState .direct
  let w := if w.fsm.punchStart.isZero then w else w.record e (.holePunch since)
  bringUpTunnel e i src w

def onPong (e : Env) (i : Input) (src : AddrPort) (w : World) : World :=
  let w := w.record e .pongRecv
  if w.fsm.state ≠ .direct then onPongNew e i src w
  else { w with
    fsm := { w.fsm with lastPong := e.clock w.reads }
    reads := w.reads + 1 }

def onDiscoUDP (e : Env) (i : Input) (src : AddrPort) (body : Body) (w : World) :
    World :=
  match body.type with
  | .ping => sendPong src body.tx w
  | .pong => onPong e i src w
  | .callMeMaybe => onPeerUpdate e (absorbEndpoints e body.endpoints w)
  | .other _ => w

/-- A message over the coordinator is handled like one over the socket, with the
zero address as its source. -/
def onDiscoSignal (e : Env) (i : Input) (body : Body) (w : World) : World :=
  onDiscoUDP e i AddrPort.zero body w

def tickPunch (e : Env) (w : World) : World :=
  if w.fsm.state ≠ .punching then w
  else
    let now := w.now e
    let w := { w with reads := w.reads + 1 }
    if w.punchDeadline < now then w.setState .relay
    else pingAll e (w.fsm.peer.endpoints.map (·.addr)) w

def keepalive (e : Env) (w : World) : World :=
  if w.fsm.state ≠ .direct then w
  else
    let now := w.now e
    let w := { w with reads := w.reads + 1 }
    if pongMissDeadline < Time.sub now w.fsm.lastPong then w.setState .punching
    else sendPing e w.fsm.winning w

def step (e : Env) (w : World) (i : Input) : World :=
  match i.event with
  | .setPeer peer => { w with fsm := { w.fsm with peer := peer } }
  | .update => onPeerUpdate e w
  | .udp src body => onDiscoUDP e i src body w
  | .signal body => onDiscoSignal e i body w
  | .tick => tickPunch e w
  | .keepalive => keepalive e w

def startRun (peer : RemotePeer) (ifaceAddrs : List IP) (discoPort : ℕ)
    (kernel : Kernel) : World :=
  sendCallMeMaybe ifaceAddrs discoPort
    { fsm := newPeerFSM peer
      punchDeadline := 0
      kernel := kernel
      reads := 0
      txs := 0
      effects := [] }

end Daemon

end Gretun
