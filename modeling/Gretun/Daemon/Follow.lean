import Gretun.Daemon.BringUp
import Gretun.Foundation.Run

/-!
# Does the tunnel follow the winning endpoint?

A pong that finds the path not direct selects its source as `winning`, but
`bringUpTunnel` makes a link only when there is none. So the link leads to the
endpoint that won first. It agrees with `winning` after every event exactly when
no later winner differs, that is, when every pong that arrives while the tunnel
is up and the path is not direct comes from the endpoint that already won.
-/

namespace Gretun

namespace Daemon

open Gretun.Net
open Gretun.Disco
open Gretun.Tunnel
open Foundation.Run

/-- On a direct path the tunnel is up and its link leads to `winning`. -/
def FollowsWinning (e : Env) (w : World) : Prop :=
  w.fsm.state = .direct → w.fsm.tunnelUp = true ∧
    linkEndpoint w.kernel e.deps.ifaceName = some (farEnd w.fsm.winning)

instance (e : Env) (w : World) : Decidable (FollowsWinning e w) :=
  inferInstanceAs (Decidable (_ → _))

/-- Pongs come from usable endpoints, a local address exists and no netlink call
fails. -/
structure TunnelInput (i : Input) : Prop where
  pong : ∀ src ∈ i.event.pongFrom, UsableFrom (firstGlobalV4 i.ifaceAddrs) src
  hasLocal : (firstGlobalV4 i.ifaceAddrs).isValid = true
  noFault : ∀ n c, i.faults n c = none

/-- A pong that arrives while the tunnel is up and the path is not direct comes
from the endpoint that already won. -/
def RepunchSame (w : World) (i : Input) : Prop :=
  w.fsm.tunnelUp = true → w.fsm.state ≠ .direct →
    ∀ src ∈ i.event.pongFrom, src = w.fsm.winning

instance (w : World) (i : Input) : Decidable (RepunchSame w i) :=
  inferInstanceAs (Decidable (_ → _ → _))

/-- Before the first pong the name is free; from then on the link leads to
`winning`. -/
structure TunnelInv (e : Env) (w : World) : Prop where
  down : w.fsm.tunnelUp = false →
    w.fsm.state ≠ .direct ∧ e.deps.ifaceName ∉ w.kernel.links
  up : w.fsm.tunnelUp = true → unicastV4 w.fsm.winning.addr = true ∧
    linkEndpoint w.kernel e.deps.ifaceName = some (farEnd w.fsm.winning)

theorem TunnelInv.followsWinning {e : Env} {w : World} (h : TunnelInv e w) :
    FollowsWinning e w := by
  intro hdirect
  cases hup : w.fsm.tunnelUp with
  | false => exact absurd hdirect (h.down hup).1
  | true => exact ⟨rfl, (h.up hup).2⟩

theorem TunnelInv.of_sameTunnel {e : Env} {w w' : World} (h : TunnelInv e w)
    (hsame : SameTunnel w w')
    (hdirect : w'.fsm.state = .direct → w.fsm.state = .direct) :
    TunnelInv e w' := by
  constructor
  · intro hdown
    rw [hsame.tunnelUp] at hdown
    rw [hsame.kernel]
    exact ⟨fun hd => (h.down hdown).1 (hdirect hd), (h.down hdown).2⟩
  · intro hup
    rw [hsame.tunnelUp] at hup
    rw [hsame.winning, hsame.kernel]
    exact h.up hup

theorem tunnelInv_onPong_down {e : Env} {i : Input} {src : AddrPort} {w : World}
    (hname : ValidIface e.deps.ifaceName) (hinv : TunnelInv e w)
    (hi : TunnelInput i) (hsrc : i.event.pongFrom = some src)
    (hdown : w.fsm.tunnelUp = false) : TunnelInv e (onPong e i src w) := by
  have husable := hi.pong src hsrc
  obtain ⟨w', heq, hw'⟩ := onPong_selects e i src (hinv.down hdown).1
  have hup : (bringUpTunnel e i src w').fsm.tunnelUp = true := by
    refine bringUpTunnel_up hname hi.hasLocal husable hi.noFault ?_
    rw [hw'.kernel]
    exact (hinv.down hdown).2
  rw [heq]
  constructor
  · intro hdown'
    exact absurd (hup.symm.trans hdown') (by decide)
  · intro _
    rw [bringUpTunnel_linkEndpoint e i src (hw'.tunnelUp.trans hdown) hup,
      bringUpTunnel_fsm, hw'.winning]
    exact ⟨husable.unicast, rfl⟩

/-- A later winner: the link stays, so it agrees with `winning` just when the
endpoint is the one that won before. -/
theorem onPong_up {e : Env} {i : Input} {src : AddrPort} {w : World}
    (hinv : TunnelInv e w) (hi : TunnelInput i)
    (hsrc : i.event.pongFrom = some src) (hup : w.fsm.tunnelUp = true)
    (hdirect : w.fsm.state ≠ .direct) :
    (FollowsWinning e (onPong e i src w) ↔ src = w.fsm.winning) ∧
      (src = w.fsm.winning → TunnelInv e (onPong e i src w)) := by
  have husable := hi.pong src hsrc
  obtain ⟨hv4, hlink⟩ := hinv.up hup
  obtain ⟨w', heq, hw'⟩ := onPong_selects e i src hdirect
  have hup' : w'.fsm.tunnelUp = true := hw'.tunnelUp.trans hup
  rw [heq, bringUpTunnel_of_up e i src hup']
  constructor
  · rw [FollowsWinning, hup', hw'.winning, hw'.kernel, hlink]
    constructor
    · intro h
      exact eq_of_farEnd_eq husable.unicast hv4
        (Option.some.inj (h hw'.state).2).symm
    · intro h _
      exact ⟨rfl, by rw [h]⟩
  · intro h
    constructor
    · intro hdown
      exact absurd (hup'.symm.trans hdown) (by decide)
    · intro _
      rw [hw'.winning, hw'.kernel, h]
      exact ⟨hv4, hlink⟩

/-- One event: the link follows `winning` just when the step is not a change of
winner, and then the invariant is kept. -/
theorem followsWinning_step {e : Env} (hname : ValidIface e.deps.ifaceName)
    {w : World} {i : Input} (hinv : TunnelInv e w) (hi : TunnelInput i) :
    (FollowsWinning e (step e w i) ↔ RepunchSame w i) ∧
      (RepunchSame w i → TunnelInv e (step e w i)) := by
  cases hpong : i.event.pongFrom with
  | none =>
      have hinv' := hinv.of_sameTunnel (step_sameTunnel e w i hpong)
        (direct_of_step_direct hpong)
      have hsame : RepunchSame w i := by
        intro _ _ src hsrc
        rw [hpong] at hsrc
        cases hsrc
      exact ⟨iff_of_true hinv'.followsWinning hsame, fun _ => hinv'⟩
  | some src =>
      rw [step_of_pongFrom e w i hpong]
      have hsame : RepunchSame w i ↔ (w.fsm.tunnelUp = true →
          w.fsm.state ≠ .direct → src = w.fsm.winning) := by
        simp [RepunchSame, hpong]
      rw [hsame]
      by_cases hdirect : w.fsm.state = .direct
      · have hkeep := onPong_of_direct e i src hdirect
        have hinv' := hinv.of_sameTunnel hkeep.1 fun _ => hdirect
        exact ⟨iff_of_true hinv'.followsWinning
          fun _ hne => absurd hdirect hne, fun _ => hinv'⟩
      · cases hup : w.fsm.tunnelUp with
        | false =>
            have hinv' := tunnelInv_onPong_down hname hinv hi hpong hup
            exact ⟨iff_of_true hinv'.followsWinning (fun h => by cases h),
              fun _ => hinv'⟩
        | true =>
            obtain ⟨hiff, hkeep⟩ := onPong_up hinv hi hpong hup hdirect
            simp only [hdirect, not_false_eq_true, ne_eq, forall_const]
            exact ⟨hiff, hkeep⟩

/-- Over a whole run, the link leads to `winning` whenever the path is direct
exactly when no re-punching ever selects another endpoint. -/
theorem followsWinning_iff_repunchSame {e : Env}
    (hname : ValidIface e.deps.ifaceName) (peer : RemotePeer)
    (ifaceAddrs : List IP) (discoPort : ℕ) {k : Kernel}
    (hfree : e.deps.ifaceName ∉ k.links) {is : List Input}
    (his : ∀ i ∈ is, TunnelInput i) :
    EachStep (step e) (fun w i => FollowsWinning e (step e w i))
        (startRun peer ifaceAddrs discoPort k) is ↔
      EachStep (step e) RepunchSame (startRun peer ifaceAddrs discoPort k) is := by
  have hstart : TunnelInv e (startRun peer ifaceAddrs discoPort k) := by
    constructor
    · exact fun _ => ⟨by simp [startRun, sendCallMeMaybe, World.emit, newPeerFSM],
        hfree⟩
    · exact fun hup => absurd hup (by
        simp [startRun, sendCallMeMaybe, World.emit, newPeerFSM])
  refine eachStep_congr (A := fun _ i => TunnelInput i) (I := TunnelInv e)
    (fun w i hinv hi => (followsWinning_step hname hinv hi).1) ?_ hstart
    (eachStep_of_forall_mem his _)
  intro w i hinv hi hfollows
  have hstep := followsWinning_step hname hinv hi
  exact hstep.2 (hstep.1.1 hfollows)

/-! ## A run that re-punches -/

/-- A pong from `192.0.2.1`, a keepalive 99 seconds later, and a pong from `a`. -/
def repunchInputs (a : BitVec 32) : List Input :=
  [sampleInput .update, sampleInput .tick,
    sampleInput (.udp ⟨.v4 0xc0000201, 4000⟩ { type := .pong, tx := "0" }),
    sampleInput .keepalive,
    sampleInput (.udp ⟨.v4 a, 4000⟩ { type := .pong, tx := "1" })]

theorem tunnelInput_sampleInput {ev : Event}
    (h : ∀ src ∈ ev.pongFrom, UsableFrom (.v4 0xc0a8010a) src) :
    TunnelInput (sampleInput ev) where
  pong := h
  hasLocal := by change (Addr.v4 _).isValid = true; rfl
  noFault _ _ := rfl

theorem tunnelInput_repunchInputs {a : BitVec 32}
    (h : UsableFrom (.v4 0xc0a8010a) ⟨.v4 a, 4000⟩) :
    ∀ i ∈ repunchInputs a, TunnelInput i := by
  simp only [repunchInputs, List.forall_mem_cons]
  refine ⟨tunnelInput_sampleInput (by decide),
    tunnelInput_sampleInput (by decide), tunnelInput_sampleInput (by decide),
    tunnelInput_sampleInput (by decide), tunnelInput_sampleInput ?_, by simp⟩
  simpa [Event.pongFrom] using h

/-- Re-punching from the endpoint that already won keeps the link right. -/
theorem followsWinning_of_repunch_same :
    EachStep (step sampleEnv)
      (fun w i => FollowsWinning sampleEnv (step sampleEnv w i))
      (startRun samplePeer [] 40001 sampleKernel)
      (repunchInputs 0xc0000201) :=
  (followsWinning_iff_repunchSame (by decide +kernel) samplePeer [] 40001
    (by decide) (tunnelInput_repunchInputs (by decide))).2 (by decide +kernel)

/-- After a keepalive loss a pong from `192.0.2.2` wins, and the link still leads
to `192.0.2.1`. -/
theorem not_followsWinning_of_repunch_other :
    (∀ i ∈ repunchInputs 0xc0000202, TunnelInput i) ∧
      Monotone sampleEnv.clock ∧ ValidIface sampleEnv.deps.ifaceName ∧
      sampleEnv.deps.ifaceName ∉ sampleKernel.links ∧
      ¬ EachStep (step sampleEnv)
        (fun w i => FollowsWinning sampleEnv (step sampleEnv w i))
        (startRun samplePeer [] 40001 sampleKernel)
        (repunchInputs 0xc0000202) :=
  ⟨tunnelInput_repunchInputs (by decide), monotone_sampleEnv_clock,
    by decide +kernel, by decide, by decide +kernel⟩

end Daemon

end Gretun
