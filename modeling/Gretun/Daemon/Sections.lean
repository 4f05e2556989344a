import Gretun.Daemon.Mailbox
import Gretun.Foundation.Weave

/-!
# The critical sections of a machine

The functions of a machine take its lock for a few lines at a time, and release it before
they send, before they make netlink requests and before they call one another. `update`
is called from another goroutine and can store its snapshot at any of these points. Here
every function is cut into sections, one for each stretch under the lock, each message
that is sent and each netlink request.

All sections but a few have nothing to do with the snapshot, which has the key of the
machine, so a handler may be taken as one step of `step`. The handler of a call_me_maybe
reads the snapshot twice. If another one is stored in between, the endpoints it has
absorbed are gone, and what is left of it is an update.
-/

namespace Gretun

namespace Daemon

open Gretun.Net
open Gretun.Disco
open Gretun.Tunnel
open Foundation.Command
open Foundation.Weave
open Foundation.Weave.Work

namespace Sections

/-! ## The functions in sections -/

def onPeerUpdate (e : Env) : Work World :=
  .sect id fun w =>
    if w.fsm.peer.endpoints ≠ [] ∧ w.fsm.state = .unknown then
      each [World.setState .haveEndpoints, World.setState .punching,
        fun w => { w with
          fsm := { w.fsm with punchStart := w.now e }
          reads := w.reads + 1 },
        fun w => { w with
          punchDeadline := w.now e + punchAttemptDur
          reads := w.reads + 1 }]
    else .done

/-- Netlink requests, one section each; what comes next is told their result and the fate
of the requests after them. -/
def requests {α : Type} : Netlink α → (ℕ → NlCall → Fault) →
    (α → (ℕ → NlCall → Fault) → Work World) → Work World
  | .ret a, ω, k => k a ω
  | .call c m, ω, k =>
      .sect (fun w => { w with kernel := (Kernel.handle (ω 0 c) c w.kernel).2 }) fun w =>
        requests (m (Kernel.handle (ω 0 c) c w.kernel).1) (fun n => ω (n + 1)) k

def tunnelUp : Work World :=
  each [fun w => { w with fsm := { w.fsm with tunnelUp := true } }]

/-- The sections of `bringUpTunnel`. The tunnel address of the peer is read when the link
is there. -/
def bringUpTunnel (e : Env) (i : Input) (dst : AddrPort) : Work World :=
  .sect id fun w =>
    if w.fsm.tunnelUp then .done
    else if !(firstGlobalV4 i.ifaceAddrs).isValid then .done
    else
      requests (create none (tunnelConfig e (firstGlobalV4 i.ifaceAddrs) dst)) i.faults
        fun r ω =>
          match r with
          | .error _ => .done
          | .ok () =>
              .sect id fun w =>
                if e.deps.selfTunnel.isValid && w.fsm.peer.tunnelIP.isValid then
                  requests (assignIP e.parsers none e.deps.ifaceName
                    (e.deps.selfTunnel.string ++ "/30")) ω fun _ _ => tunnelUp
                else tunnelUp

def onPong (e : Env) (i : Input) (src : AddrPort) : Work World :=
  .sect (World.record e .pongRecv) fun _ =>
  .sect (fun w =>
      if w.fsm.state ≠ .direct then { w with
        fsm := { w.fsm with winning := src, lastPong := w.now e }
        reads := w.reads + 2 }
      else { w with
        fsm := { w.fsm with lastPong := w.now e }
        reads := w.reads + 1 }) fun w =>
    if w.fsm.state ≠ .direct then
      let since := Time.sub (e.clock (w.reads + 1)) w.fsm.punchStart
      .sect (World.setState .direct) fun _ =>
      .sect (fun w =>
        if w.fsm.punchStart.isZero then w else w.record e (.holePunch since)) fun _ =>
      bringUpTunnel e i src
    else .done

def onDiscoUDP (e : Env) (i : Input) (src : AddrPort) (body : Body) : Work World :=
  match body.type with
  | .ping => each [sendPong src body.tx]
  | .pong => onPong e i src
  | .callMeMaybe => (each [absorbEndpoints e body.endpoints]).seq (onPeerUpdate e)
  | .other _ => .done

def sendPing (e : Env) (dst : AddrPort) : List (World → World) :=
  [fun w => { sendDisco dst
      { type := .ping, tx := e.newTxID w.txs, nodeKey := e.deps.selfNode } w with
        txs := w.txs + 1 },
    World.record e .pingSent]

def tickPunch (e : Env) : Work World :=
  .sect id fun w =>
    if w.fsm.state ≠ .punching then .done
    else
      let eps := w.fsm.peer.endpoints
      .sect (fun w => { w with reads := w.reads + 1 }) fun w =>
        if w.punchDeadline < w.now e then each [World.setState .relay]
        else each ((eps.map (·.addr)).flatMap (sendPing e))

def keepalive (e : Env) : Work World :=
  .sect id fun w =>
    if w.fsm.state ≠ .direct then .done
    else
      let peerAddr := w.fsm.winning
      let last := w.fsm.lastPong
      .sect (fun w => { w with reads := w.reads + 1 }) fun w =>
        if pongMissDeadline < Time.sub (w.now e) last then
          each [World.setState .punching]
        else each (sendPing e peerAddr)

/-- What the run loop does for an input; a snapshot is none of its inputs. -/
def handle (e : Env) (i : Input) : Work World :=
  match i.event with
  | .setPeer _ => .done
  | .update => onPeerUpdate e
  | .udp src body => onDiscoUDP e i src body
  | .signal body => onDiscoUDP e i AddrPort.zero body
  | .tick => tickPunch e
  | .keepalive => keepalive e

/-! ## Without an interruption -/

theorem run_onPeerUpdate (e : Env) (w : World) :
    (onPeerUpdate e).run w = Daemon.onPeerUpdate e w := by
  rw [onPeerUpdate, run_sect, Daemon.onPeerUpdate]
  split
  · rw [run_each]
    rfl
  · rfl

theorem run_requests {α : Type} (m : Netlink α) (ω : ℕ → NlCall → Fault)
    (k : α → (ℕ → NlCall → Fault) → Work World) (w : World) :
    (requests m ω k).run w =
      (k (exec m ω w.kernel).1 (m.left Kernel.handle ω w.kernel)).run
        { w with kernel := (exec m ω w.kernel).2 } := by
  induction m generalizing ω w with
  | ret a => rfl
  | call c m ih => exact ih _ _ _

theorem exec_bringUp_of_error {e : Env} {peerTunnel : Addr} {cfg : Config}
    {ω : ℕ → NlCall → Fault} {k : Kernel} {err : TunnelErr}
    (h : (exec (create none cfg) ω k).1 = .error err) :
    exec (bringUp e peerTunnel cfg) ω k =
      (.error err, (exec (create none cfg) ω k).2) := by
  unfold exec at h ⊢
  rw [bringUp, Prog.run_bind, h]
  rfl

theorem exec_bringUp_of_ok {e : Env} {peerTunnel : Addr} {cfg : Config}
    {ω : ℕ → NlCall → Fault} {k : Kernel} (h : (exec (create none cfg) ω k).1 = .ok ()) :
    exec (bringUp e peerTunnel cfg) ω k =
      (.ok (), if e.deps.selfTunnel.isValid && peerTunnel.isValid then
        (exec (assignIP e.parsers none e.deps.ifaceName (e.deps.selfTunnel.string ++ "/30"))
          ((create none cfg).left Kernel.handle ω k) (exec (create none cfg) ω k).2).2
        else (exec (create none cfg) ω k).2) := by
  unfold exec at h ⊢
  rw [bringUp, Prog.run_bind, h]
  cases e.deps.selfTunnel.isValid && peerTunnel.isValid with
  | true => exact Prog.run_bind ..
  | false => rfl

theorem run_bringUpTunnel (e : Env) (i : Input) (dst : AddrPort) (w : World) :
    (bringUpTunnel e i dst).run w = Daemon.bringUpTunnel e i dst w := by
  rw [bringUpTunnel, run_sect, Daemon.bringUpTunnel]
  split
  · rfl
  · split
    · rfl
    · rw [run_requests, id_eq]
      cases hr : (exec (create none (tunnelConfig e (firstGlobalV4 i.ifaceAddrs) dst))
          i.faults w.kernel).1 with
      | error err =>
          simp only [exec_bringUp_of_error hr]
          rfl
      | ok u =>
          simp only [exec_bringUp_of_ok hr, run_sect, id_eq]
          split
          · rw [run_requests]
            rfl
          · rfl

theorem run_onPong (e : Env) (i : Input) (src : AddrPort) (w : World) :
    (onPong e i src).run w = Daemon.onPong e i src w := by
  rw [onPong, run_sect, run_sect, Daemon.onPong]
  by_cases hdirect : (w.record e .pongRecv).fsm.state = .direct
  · simp only [hdirect, ne_eq, not_true_eq_false, if_false, run_done]
    rfl
  · simp only [hdirect, ne_eq, not_false_eq_true, if_true, run_sect, run_bringUpTunnel]
    rfl

theorem run_onDiscoUDP (e : Env) (i : Input) (src : AddrPort) (body : Body) (w : World) :
    (onDiscoUDP e i src body).run w = Daemon.onDiscoUDP e i src body w := by
  unfold onDiscoUDP Daemon.onDiscoUDP
  cases body.type with
  | ping => rfl
  | pong => exact run_onPong e i src w
  | callMeMaybe =>
      rw [run_seq, run_onPeerUpdate]
      rfl
  | other t => rfl

theorem foldl_sendPing (e : Env) (dst : AddrPort) (w : World) :
    (sendPing e dst).foldl (fun w act => act w) w = Daemon.sendPing e dst w := rfl

theorem run_tickPunch (e : Env) (w : World) :
    (tickPunch e).run w = Daemon.tickPunch e w := by
  have hpings : ∀ (dsts : List AddrPort) (w : World),
      (dsts.flatMap (sendPing e)).foldl (fun w act => act w) w = pingAll e dsts w := by
    intro dsts w
    rw [List.foldl_flatMap]
    rfl
  rw [tickPunch, run_sect, Daemon.tickPunch]
  split
  · rfl
  · simp only [run_sect, id_eq]
    split
    · rw [run_each]
      rfl
    · rw [run_each, hpings]

theorem run_keepalive (e : Env) (w : World) :
    (keepalive e).run w = Daemon.keepalive e w := by
  rw [keepalive, run_sect, Daemon.keepalive]
  split
  · rfl
  · simp only [run_sect, id_eq]
    split
    · rfl
    · rw [run_each, foldl_sendPing]

/-- A handler that nobody interrupts is a step of the machine. -/
theorem run_handle (e : Env) {i : Input} (hi : ∀ peer, i.event ≠ .setPeer peer)
    (w : World) : (handle e i).run w = step e w i := by
  unfold handle step
  cases hev : i.event with
  | setPeer peer => exact absurd hev (hi peer)
  | update => exact run_onPeerUpdate e w
  | udp src body => exact run_onDiscoUDP e i src body w
  | signal body => exact run_onDiscoUDP e i _ body w
  | tick => exact run_tickPunch e w
  | keepalive => exact run_keepalive e w

/-! ## What has to do with the snapshot -/

def Snapshot (k : Key) : Type := { peer : RemotePeer // peer.discoKey = k }

def store {k : Key} (w : World) (p : Snapshot k) : World :=
  { w with fsm := { w.fsm with peer := p.1 } }

/-- The goroutines that call `update`. They store snapshots with the key of the machine. -/
def others (k : Key) : Others (Snapshot k) World where
  act := store
  Inv w := w.fsm.peer.discoKey = k
  inv_act _ p _ := p.2

section Apart

variable {k : Key}

theorem apart_of_eq {act : World → World}
    (hkey : ∀ w, (act w).fsm.peer.discoKey = w.fsm.peer.discoKey)
    (hmoves : ∀ w (p : Snapshot k), act (store w p) = store (act w) p) :
    Apart (others k) act :=
  fun w hw => ⟨(hkey w).trans hw, hmoves w⟩

theorem apart_setState (s : PeerState) : Apart (others k) (World.setState s) :=
  apart_of_eq (fun _ => rfl) fun _ _ => rfl

theorem apart_record (e : Env) (x : Effect) : Apart (others k) (World.record e x) := by
  refine apart_of_eq (fun w => ?_) fun w p => ?_ <;> unfold World.record <;> split <;> rfl

theorem apart_holePunch (e : Env) (since : Duration) :
    Apart (others k) fun w =>
      if w.fsm.punchStart.isZero then w else w.record e (.holePunch since) := by
  intro w hw
  obtain ⟨hkey, hmoves⟩ := apart_record e (.holePunch since) w hw
  cases hzero : w.fsm.punchStart.isZero with
  | true =>
      simp only [hzero, if_true]
      exact ⟨hw, fun p => if_pos hzero⟩
  | false =>
      simp only [hzero, Bool.false_eq_true, if_false]
      exact ⟨hkey, fun p => (if_neg (ne_true_of_eq_false hzero)).trans (hmoves p)⟩

/-- What is sent is sealed for a key that no snapshot changes. -/
theorem sendDisco_store {w : World} (hw : w.fsm.peer.discoKey = k) (p : Snapshot k)
    (dst : AddrPort) (body : Body) :
    sendDisco dst body (store w p) = store (sendDisco dst body w) p := by
  have hkey : (store w p).fsm.peer.discoKey = w.fsm.peer.discoKey := p.2.trans hw.symm
  rw [sendDisco, sendDisco, hkey]
  rfl

theorem apart_sendPong (dst : AddrPort) (tx : String) :
    Apart (others k) (sendPong dst tx) :=
  fun _ hw => ⟨hw, fun p => sendDisco_store hw p dst _⟩

theorem apart_of_mem_sendPing {e : Env} {dst : AddrPort} {act : World → World}
    (h : act ∈ sendPing e dst) : Apart (others k) act := by
  rcases List.mem_cons.1 h with rfl | h
  · refine fun w hw => ⟨hw, fun p => ?_⟩
    change { sendDisco dst _ (store w p) with txs := w.txs + 1 } = _
    rw [sendDisco_store hw]
    rfl
  · rw [List.mem_singleton.1 h]
    exact apart_record e .pingSent

theorem late_onPeerUpdate_rest (e : Env) :
    Late (others k) (each [World.setState .haveEndpoints, World.setState .punching,
      fun w => { w with
        fsm := { w.fsm with punchStart := w.now e }
        reads := w.reads + 1 },
      fun w => { w with
        punchDeadline := w.now e + punchAttemptDur
        reads := w.reads + 1 }]) := by
  refine late_each fun act hact => ?_
  simp only [List.mem_cons, List.not_mem_nil, or_false] at hact
  rcases hact with rfl | rfl | rfl | rfl
  · exact apart_setState _
  · exact apart_setState _
  · exact apart_of_eq (fun _ => rfl) fun _ _ => rfl
  · exact apart_of_eq (fun _ => rfl) fun _ _ => rfl

theorem early_onPeerUpdate (e : Env) : Early (others k) (onPeerUpdate e) := by
  refine Or.inr fun w hw => ⟨hw, ?_⟩
  dsimp only
  split
  · exact late_onPeerUpdate_rest e
  · trivial

theorem apart_request (f : Fault) (c : NlCall) :
    Apart (others k) fun w => { w with kernel := (Kernel.handle f c w.kernel).2 } :=
  apart_of_eq (fun _ => rfl) fun _ _ => rfl

theorem late_requests {α : Type} (m : Netlink α) {ω : ℕ → NlCall → Fault}
    {next : α → (ℕ → NlCall → Fault) → Work World}
    (h : ∀ a ω, Late (others k) (next a ω)) : Late (others k) (requests m ω next) := by
  induction m generalizing ω with
  | ret a => exact h a ω
  | call c m ih => exact ⟨apart_request _ c, fun _ _ _ => rfl, fun _ _ => ih _⟩

theorem early_requests {α : Type} (m : Netlink α) {ω : ℕ → NlCall → Fault}
    {next : α → (ℕ → NlCall → Fault) → Work World}
    (h : ∀ a ω, Early (others k) (next a ω)) : Early (others k) (requests m ω next) := by
  induction m generalizing ω with
  | ret a => exact h a ω
  | call c m ih => exact Or.inl ⟨apart_request _ c, fun _ _ _ => rfl, fun _ _ => ih _⟩

theorem late_tunnelUp : Late (others k) tunnelUp := by
  refine late_each fun act hact => ?_
  rw [List.mem_singleton.1 hact]
  exact apart_of_eq (fun _ => rfl) fun _ _ => rfl

theorem early_bringUpTunnel (e : Env) (i : Input) (dst : AddrPort) :
    Early (others k) (bringUpTunnel e i dst) := by
  refine Or.inl ⟨apart_id, fun _ _ _ => rfl, fun w hw => ?_⟩
  dsimp only
  split
  · trivial
  · split
    · trivial
    · refine early_requests _ fun r ω => ?_
      cases r with
      | error err => trivial
      | ok u =>
          -- the tunnel address of the peer is read here, and nowhere else
          refine Or.inr fun w hw => ⟨hw, ?_⟩
          dsimp only
          split
          · exact late_requests _ fun _ _ => late_tunnelUp
          · exact late_tunnelUp

theorem early_onPong (e : Env) (i : Input) (src : AddrPort) :
    Early (others k) (onPong e i src) := by
  refine Or.inl ⟨apart_record e .pongRecv, fun _ _ _ => rfl, fun w hw => ?_⟩
  refine Or.inl ⟨?_, fun _ _ _ => rfl, fun w hw => ?_⟩
  · refine apart_of_eq (fun w => ?_) fun w p => ?_
    · split <;> rfl
    · by_cases hdirect : w.fsm.state = .direct <;> simp [store, hdirect, World.now]
  · dsimp only
    split
    · refine Or.inl ⟨apart_setState .direct, fun _ _ _ => rfl, fun w hw => ?_⟩
      exact Or.inl ⟨apart_holePunch e _, fun _ _ _ => rfl,
        fun w hw => early_bringUpTunnel e i src⟩
    · trivial

theorem late_tickPunch_rest (e : Env) (dsts : List AddrPort) :
    Late (others k) (each (dsts.flatMap (sendPing e))) := by
  refine late_each fun act hact => ?_
  obtain ⟨dst, -, hact⟩ := List.mem_flatMap.1 hact
  exact apart_of_mem_sendPing hact

theorem apart_reads : Apart (others k) fun w => { w with reads := w.reads + 1 } :=
  apart_of_eq (fun _ => rfl) fun _ _ => rfl

theorem late_setState (s : PeerState) : Late (others k) (each [World.setState s]) :=
  late_each fun _ hact => List.mem_singleton.1 hact ▸ apart_setState s

theorem early_tickPunch (e : Env) : Early (others k) (tickPunch e) := by
  refine Or.inr fun w hw => ⟨hw, ?_⟩
  dsimp only
  split
  · trivial
  · refine ⟨apart_reads, fun _ _ _ => rfl, fun w hw => ?_⟩
    dsimp only
    split
    · exact late_setState .relay
    · exact late_tickPunch_rest e _

theorem early_keepalive (e : Env) : Early (others k) (keepalive e) := by
  refine Or.inr fun w hw => ⟨hw, ?_⟩
  dsimp only
  split
  · trivial
  · refine ⟨apart_reads, fun _ _ _ => rfl, fun w hw => ?_⟩
    dsimp only
    split
    · exact late_setState .punching
    · exact late_each fun _ hact => apart_of_mem_sendPing hact

end Apart

/-! ## A handler that is interrupted -/

end Sections

def Input.IsCallMeMaybe (i : Input) : Prop :=
  ∃ body, body.type = .callMeMaybe ∧
    (i.event = .signal body ∨ ∃ src, i.event = .udp src body)

namespace Sections

variable {k : Key}

theorem early_onDiscoUDP (e : Env) (i : Input) (src : AddrPort) {body : Body}
    (h : body.type ≠ .callMeMaybe) : Early (others k) (onDiscoUDP e i src body) := by
  unfold onDiscoUDP
  cases hbody : body.type with
  | ping =>
      refine (late_each fun act hact => ?_).early
      rw [List.mem_singleton.1 hact]
      exact apart_sendPong src body.tx
  | pong => exact early_onPong e i src
  | callMeMaybe => exact absurd hbody h
  | other t => trivial

theorem early_handle (e : Env) {i : Input} (hi : ¬ i.IsCallMeMaybe) :
    Early (others k) (handle e i) := by
  unfold handle
  cases hev : i.event with
  | setPeer peer => trivial
  | update => exact early_onPeerUpdate e
  | udp src body =>
      exact early_onDiscoUDP e i src fun h => hi ⟨body, h, Or.inr ⟨src, hev⟩⟩
  | signal body =>
      exact early_onDiscoUDP e i _ fun h => hi ⟨body, h, Or.inl hev⟩
  | tick => exact early_tickPunch e
  | keepalive => exact early_keepalive e

/-- A snapshot takes what was absorbed before with it. -/
theorem foldl_store_absorb (e : Env) (addrs : List String) {xs : List (Snapshot k)}
    (hxs : xs ≠ []) (w : World) :
    xs.foldl store (absorbEndpoints e addrs w) = xs.foldl store w := by
  obtain ⟨x, xs, rfl⟩ := List.exists_cons_of_ne_nil hxs
  rfl

theorem handle_of_callMeMaybe {e : Env} {i : Input} (hi : i.IsCallMeMaybe) :
    ∃ addrs, handle e i = (each [absorbEndpoints e addrs]).seq (onPeerUpdate e) := by
  obtain ⟨body, hbody, hev | ⟨src, hev⟩⟩ := hi <;>
    exact ⟨body.endpoints, by simp only [handle, hev, onDiscoUDP, hbody]⟩

/-- Snapshots come before a call_me_maybe is absorbed, between that and the look at the
endpoints, and afterwards. -/
theorem weave_callMeMaybe {e : Env} {addrs : List String} {w w' : World}
    (hw : w.fsm.peer.discoKey = k) {slots : List (Option (Snapshot k))}
    (hover : slots.foldl (weave (others k))
      ((each [absorbEndpoints e addrs]).seq (onPeerUpdate e), w) = (.done, w')) :
    ∃ xs zs ys, slots.reduceOption = xs ++ (zs ++ ys) ∧
      w' = ys.foldl store (Daemon.onPeerUpdate e
        (zs.foldl store (absorbEndpoints e addrs (xs.foldl store w)))) := by
  obtain ⟨slots₁, slots₂, w₁, rfl, hfirst, hrest⟩ := weave_seq hover
  have habsorb : Early (others k) (each [absorbEndpoints e addrs]) :=
    Or.inr fun w hw => ⟨hw, trivial⟩
  obtain ⟨xs, zs₁, hslots₁, hw₁⟩ := weave_early habsorb hw hfirst
  have hinv : (others k).Inv w₁ := by
    rw [hw₁]
    refine inv_foldl ?_ zs₁
    exact inv_foldl (o := others k) hw xs
  obtain ⟨zs₂, ys, hslots₂, hw'⟩ := weave_early (early_onPeerUpdate e) hinv hrest
  refine ⟨xs, zs₁ ++ zs₂, ys, ?_, ?_⟩
  · rw [List.reduceOption_append, hslots₁, hslots₂]
    simp only [List.append_assoc]
  · rw [hw', run_onPeerUpdate, hw₁, List.foldl_append]
    rfl

/-- A handler that is interrupted is a step of the machine all the same, somewhere among
the snapshots. A call_me_maybe may be overtaken by one, and is then no more than an
update after it. -/
theorem weave_handle {e : Env} {i : Input} (hi : ∀ peer, i.event ≠ .setPeer peer)
    {w w' : World} (hw : w.fsm.peer.discoKey = k) {slots : List (Option (Snapshot k))}
    (hover : slots.foldl (weave (others k)) (handle e i, w) = (.done, w')) :
    ∃ xs ys, slots.reduceOption = xs ++ ys ∧
      (w' = ys.foldl store (step e (xs.foldl store w) i) ∨
        i.IsCallMeMaybe ∧ xs ≠ [] ∧
          w' = ys.foldl store (step e (xs.foldl store w) { i with event := .update })) := by
  by_cases hcall : i.IsCallMeMaybe
  · obtain ⟨addrs, hhandle⟩ := handle_of_callMeMaybe (e := e) hcall
    rw [hhandle] at hover
    obtain ⟨xs, zs, ys, hslots, hw'⟩ := weave_callMeMaybe hw hover
    by_cases hzs : zs = []
    · subst hzs
      refine ⟨xs, ys, hslots, Or.inl ?_⟩
      rw [hw', ← run_handle e hi, hhandle, run_seq, run_onPeerUpdate]
      rfl
    · refine ⟨xs ++ zs, ys, by rw [hslots, List.append_assoc], Or.inr ⟨hcall, ?_, ?_⟩⟩
      · exact fun hnil => hzs (List.append_eq_nil_iff.1 hnil).2
      · rw [hw', foldl_store_absorb e addrs hzs, List.foldl_append]
        rfl
  · obtain ⟨xs, ys, hslots, hw'⟩ := weave_early (early_handle e hcall) hw hover
    refine ⟨xs, ys, hslots, Or.inl ?_⟩
    rw [hw', run_handle e hi]
    rfl

end Sections

end Daemon

end Gretun
