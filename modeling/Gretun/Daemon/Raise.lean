import Gretun.Daemon.BringUp
import Gretun.Tunnel.Holding

/-!
# Bringing up a tunnel, request by request

`raiseTunnel` is `bringUpTunnel` as a program of netlink requests: it returns what the
flag `tunnelUp` is afterwards. Run on its own it is `bringUpTunnel`; run side by side
with the machines of other peers it follows the discipline of `Create`.
-/

namespace Gretun

namespace Daemon

open Gretun.Net
open Gretun.Tunnel
open Foundation.Command
open Foundation.Interleave

def isOk : Except TunnelErr Unit → Bool
  | .ok () => true
  | .error _ => false

def raiseTunnel (e : Env) (ifaceAddrs : List IP) (dst : AddrPort) (fsm : PeerFSM) :
    Netlink Bool :=
  if fsm.tunnelUp then pure true
  else if !(firstGlobalV4 ifaceAddrs).isValid then pure false
  else (bringUp e fsm.peer.tunnelIP
    (tunnelConfig e (firstGlobalV4 ifaceAddrs) dst)).bind fun r => .ret (isOk r)

/-- A machine that is alone with the kernel makes these requests one after the
other. -/
theorem bringUpTunnel_eq_raiseTunnel (e : Env) (i : Input) (dst : AddrPort)
    (w : World) :
    bringUpTunnel e i dst w =
      { w with
        kernel := (exec (raiseTunnel e i.ifaceAddrs dst w.fsm) i.faults w.kernel).2
        fsm := { w.fsm with tunnelUp :=
          (exec (raiseTunnel e i.ifaceAddrs dst w.fsm) i.faults w.kernel).1 } } := by
  unfold bringUpTunnel raiseTunnel
  cases hup : w.fsm.tunnelUp with
  | true =>
      simp only [if_true]
      rw [← hup]
      rfl
  | false =>
      simp only [Bool.false_eq_true, if_false]
      split
      · change w = { w with fsm := { w.fsm with tunnelUp := false } }
        rw [← hup]
      · rw [exec, exec, Prog.run_map]
        simp only
        split
        · rename_i hr
          rw [hr, isOk, ← hup]
        · rename_i hr
          rw [hr, isOk]

/-- A pong that ends the search for a path moves the machine to `direct`, and its
requests are those for the address it came from. -/
theorem onPong_eq_raiseTunnel (e : Env) (i : Input) (src : AddrPort) {w : World}
    (h : w.fsm.state ≠ .direct) :
    (onPong e i src w).fsm.state = .direct ∧
      (onPong e i src w).fsm.tunnelUp =
        (exec (raiseTunnel e i.ifaceAddrs src w.fsm) i.faults w.kernel).1 ∧
      (onPong e i src w).kernel =
        (exec (raiseTunnel e i.ifaceAddrs src w.fsm) i.faults w.kernel).2 := by
  refine ⟨onPong_state e i src w, ?_⟩
  rw [onPong_of_ne_direct e i src h]
  unfold onPongNew
  rw [bringUpTunnel_eq_raiseTunnel]
  split <;> simp [raiseTunnel, World.setState]

/-! ## An event, up to the requests -/

/-- `onPongNew` up to the call of `bringUpTunnel`. -/
def selectPath (e : Env) (src : AddrPort) (w : World) : World :=
  let since := Time.sub (e.clock (w.reads + 1)) w.fsm.punchStart
  let w := { w with
    fsm := { w.fsm with winning := src, lastPong := e.clock w.reads }
    reads := w.reads + 2 }
  let w := w.setState .direct
  if w.fsm.punchStart.isZero then w else w.record e (.holePunch since)

/-- The endpoint for which handling the event brings up the tunnel. -/
def raises (w : World) (ev : Event) : Option AddrPort :=
  if w.fsm.state = .direct then none else ev.pongFrom

/-- Handling an event, up to the call of `bringUpTunnel` if it makes one. -/
def settle (e : Env) (w : World) (i : Input) : World :=
  match raises w i.event with
  | none => step e w i
  | some src => selectPath e src (w.record e .pongRecv)

/-- The step of a machine is what it does before its requests, and then the requests
one after the other. -/
theorem step_eq_settle (e : Env) (w : World) (i : Input) :
    step e w i = (raises w i.event).elim (settle e w i)
      fun dst => bringUpTunnel e i dst (settle e w i) := by
  unfold settle
  cases hraises : raises w i.event with
  | none => rfl
  | some src =>
      unfold raises at hraises
      split at hraises
      · cases hraises
      · rename_i hstate
        rw [step_of_pongFrom e w i hraises, onPong_of_ne_direct e i src hstate]
        rfl

/-- Before its requests a machine does not touch the flag. -/
theorem tunnelUp_settle (e : Env) (w : World) (i : Input) :
    (settle e w i).fsm.tunnelUp = w.fsm.tunnelUp := by
  unfold settle
  cases hraises : raises w i.event with
  | none =>
      unfold raises at hraises
      split at hraises
      · rename_i hstate
        cases hpong : i.event.pongFrom with
        | none => exact (step_sameTunnel e w i hpong).tunnelUp
        | some src =>
            rw [step_of_pongFrom e w i hpong]
            exact (onPong_of_direct e i src hstate).1.tunnelUp
      · exact (step_sameTunnel e w i hraises).tunnelUp
  | some src =>
      simp only [selectPath]
      split <;> simp [World.setState]

/-- What the machine holds when the requests are over: without a local address there
were none, and otherwise it is what `Create` has left. -/
structure RaiseHolds (ifaceAddrs : List IP) (cfg : Config) (h : Hold) (up : Bool) :
    Prop where
  hasLocal : up = true → (firstGlobalV4 ifaceAddrs).isValid = true
  create : (firstGlobalV4 ifaceAddrs).isValid = true →
    ∃ r, isOk r = up ∧ CreateHolds none cfg h r
  nothing : (firstGlobalV4 ifaceAddrs).isValid = false → h = {}

theorem eq_ok_of_isOk {r : Except TunnelErr Unit} (h : isOk r = true) : r = .ok () := by
  cases r with
  | ok u => rfl
  | error e => cases h

/-- Unless a link could not be deleted, the machine holds one exactly when the flag
goes up. -/
theorem RaiseHolds.link_eq {ifaceAddrs : List IP} {cfg : Config} {h : Hold} {up : Bool}
    (hraise : RaiseHolds ifaceAddrs cfg h up) (hkept : h.kept = false) :
    h.link = up := by
  cases hlocal : (firstGlobalV4 ifaceAddrs).isValid with
  | false =>
      have hdown : up = false := by
        by_contra hne
        rw [hraise.hasLocal (by simpa using hne)] at hlocal
        cases hlocal
      rw [hraise.nothing hlocal, hdown]
  | true =>
      obtain ⟨r, rfl, hcreate⟩ := hraise.create hlocal
      cases r with
      | ok u => exact (hcreate.ok rfl).1
      | error e =>
          by_contra hne
          have hlink : h.link = true := by simpa [isOk] using hne
          exact absurd ((hcreate.undone (by simp)).2 hlink) (by simp [hkept])

theorem RaiseHolds.validateTunnelName {ifaceAddrs : List IP} {cfg : Config} {h : Hold}
    (hraise : RaiseHolds ifaceAddrs cfg h true) :
    validateTunnelName cfg.name = .ok () := by
  obtain ⟨r, hr, hcreate⟩ := hraise.create (hraise.hasLocal rfl)
  exact (checked_of_validateConfig (hcreate.valid (eq_ok_of_isOk hr)).2).name

theorem follows_bringUp (e : Env) (peerTunnel : Addr) {cfg : Config}
    (hname : cfg.name = e.deps.ifaceName) :
    Follows (holding cfg) (CreateHolds none cfg) {} (bringUp e peerTunnel cfg) := by
  rw [bringUp, follows_bind]
  refine (follows_create none cfg).mono ?_
  intro h r hr
  cases r with
  | error err => exact hr
  | ok u =>
      simp only
      split
      · rw [follows_bind, ← hname]
        refine (follows_assignIP (hr.ok rfl).1 e.parsers _).mono ?_
        rintro h' - rfl
        exact hr
      · exact hr

theorem follows_raiseTunnel (e : Env) (ifaceAddrs : List IP) (dst : AddrPort)
    {fsm : PeerFSM} (hdown : fsm.tunnelUp = false) :
    Follows (holding (tunnelConfig e (firstGlobalV4 ifaceAddrs) dst))
      (RaiseHolds ifaceAddrs (tunnelConfig e (firstGlobalV4 ifaceAddrs) dst)) {}
      (raiseTunnel e ifaceAddrs dst fsm) := by
  rw [raiseTunnel, hdown]
  simp only [Bool.false_eq_true, if_false]
  cases hlocal : (firstGlobalV4 ifaceAddrs).isValid with
  | false =>
      exact ⟨by simp, by simp [hlocal], fun _ => rfl⟩
  | true =>
      simp only [Bool.not_true, Bool.false_eq_true, if_false]
      refine follows_bind.2 ((follows_bringUp e fsm.peer.tunnelIP rfl).mono ?_)
      intro h r hr
      exact ⟨fun _ => hlocal, fun _ => ⟨r, rfl, hr⟩, by simp [hlocal]⟩

end Daemon

end Gretun
