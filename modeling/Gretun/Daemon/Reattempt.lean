import Gretun.Daemon.Follow
import Gretun.Daemon.Raise

/-!
# Trying again after a failed bring-up

A machine switches to `direct` before it brings up the tunnel, and a failure is only
logged. In `direct` a pong is a sign of life and nothing else, so the tunnel is not tried
again while pongs keep coming: the machine stays in `direct` without a tunnel until a
keepalive finds the last pong too old. A run in which every pong on a direct path finds
the tunnel up is one in which no bring-up that fails is followed by such a pong.
-/

namespace Gretun

namespace Daemon

open Gretun.Net
open Gretun.Disco
open Gretun.Tunnel
open Foundation.Run

def Event.udpPong : Event → Bool
  | .udp _ body => body.type = .pong
  | _ => false

def attempt (w : World) (ev : Event) : Option AddrPort :=
  if w.fsm.tunnelUp then none else raises w ev

def Retried (w : World) (i : Input) : Prop :=
  w.fsm.state = .direct → w.fsm.tunnelUp = false → i.event.udpPong = true →
    (attempt w i.event).isSome = true

instance (w : World) (i : Input) : Decidable (Retried w i) :=
  inferInstanceAs (Decidable (_ → _ → _ → _))

def PongFindsTunnel (w : World) (i : Input) : Prop :=
  i.event.udpPong = true → w.fsm.state = .direct → w.fsm.tunnelUp = true

instance (w : World) (i : Input) : Decidable (PongFindsTunnel w i) :=
  inferInstanceAs (Decidable (_ → _ → _))

/-- A pong that is to bring up the tunnel comes from a usable endpoint, at a time when a
local address exists and no netlink call fails. -/
def Granted (w : World) (i : Input) : Prop :=
  (attempt w i.event).isSome = true → TunnelInput i

/-! ## Attempts -/

theorem step_of_attempt {e : Env} {w : World} {i : Input} {dst : AddrPort}
    (h : attempt w i.event = some dst) :
    step e w i = bringUpTunnel e i dst (settle e w i) ∧
      (settle e w i).fsm.tunnelUp = false := by
  unfold attempt at h
  split at h
  · cases h
  · rename_i hdown
    rw [step_eq_settle, h, tunnelUp_settle]
    exact ⟨rfl, by simpa using hdown⟩

/-- Without an attempt the flag and the kernel stay as they are. -/
theorem step_of_no_attempt {e : Env} {w : World} {i : Input}
    (h : attempt w i.event = none) :
    (step e w i).fsm.tunnelUp = w.fsm.tunnelUp ∧ (step e w i).kernel = w.kernel := by
  cases hpong : i.event.pongFrom with
  | none =>
      have hsame := step_sameTunnel e w i hpong
      exact ⟨hsame.tunnelUp, hsame.kernel⟩
  | some src =>
      rw [step_of_pongFrom e w i hpong]
      by_cases hdirect : w.fsm.state = .direct
      · have hsame := (onPong_of_direct e i src hdirect).1
        exact ⟨hsame.tunnelUp, hsame.kernel⟩
      · have hup : w.fsm.tunnelUp = true := by
          by_contra hdown
          rw [attempt, if_neg hdown, raises, if_neg hdirect, hpong] at h
          cases h
        obtain ⟨w', heq, hw'⟩ := onPong_selects e i src hdirect
        rw [heq, bringUpTunnel_of_up e i src (hw'.tunnelUp.trans hup)]
        exact ⟨hw'.tunnelUp, hw'.kernel⟩

theorem attempt_of_direct {w : World} (h : w.fsm.state = .direct) (ev : Event) :
    attempt w ev = none := by
  rw [attempt, raises, if_pos h, ite_self]

theorem retried_iff_pongFindsTunnel (w : World) (i : Input) :
    Retried w i ↔ PongFindsTunnel w i := by
  constructor
  · intro h hpong hdirect
    by_contra hdown
    have hsome := h hdirect (by simpa using hdown) hpong
    rw [attempt_of_direct hdirect] at hsome
    cases hsome
  · intro h hdirect hdown hpong
    rw [h hpong hdirect] at hdown
    cases hdown

/-! ## Direct without a tunnel -/

structure Stranded (w : World) : Prop where
  direct : w.fsm.state = .direct
  down : w.fsm.tunnelUp = false

/-- Only a lost keepalive leads out. -/
theorem Stranded.step {e : Env} {w : World} {i : Input} (h : Stranded w)
    (hkeep : ¬ KeepaliveLost e w i) :
    Stranded (Daemon.step e w i) ∧ (Daemon.step e w i).kernel = w.kernel := by
  obtain ⟨hup, hkernel⟩ :=
    step_of_no_attempt (e := e) (attempt_of_direct h.direct i.event)
  refine ⟨⟨?_, hup.trans h.down⟩, hkernel⟩
  cases hpong : i.event.pongFrom with
  | some src => rw [step_of_pongFrom e w i hpong, onPong_state]
  | none =>
      rcases step_state_cases e w i hpong with hs | hs | ⟨hs, -⟩ | ⟨hs, -⟩
      · exact hs.state.trans h.direct
      · exact absurd (h.direct.symm.trans hs.unknown) (by decide)
      · exact absurd (h.direct.symm.trans hs.2.1) (by decide)
      · exact absurd hs hkeep

/-- As long as no keepalive is lost, the machine stays in `direct` without a tunnel,
makes no attempt and leaves the kernel alone, whatever else happens. -/
theorem Stranded.foldl {e : Env} {w : World} (h : Stranded w) {is : List Input}
    (hkeep : EachStep (Daemon.step e) (fun w i => ¬ KeepaliveLost e w i) w is) :
    Stranded (is.foldl (Daemon.step e) w) ∧
      (is.foldl (Daemon.step e) w).kernel = w.kernel ∧
      EachStep (Daemon.step e) (fun w i => attempt w i.event = none) w is := by
  have hinv := invariant_of_eachStep (I := fun w' => Stranded w' ∧ w'.kernel = w.kernel)
    (fun s i hs hi => ⟨(hs.1.step hi).1, (hs.1.step hi).2.trans hs.2⟩) ⟨h, rfl⟩ hkeep
  refine ⟨hinv.1, hinv.2, ?_⟩
  exact eachStep_of_invariant (I := Stranded) (fun s i hs hi => (hs.step hi).1)
    (fun s i hs _ => attempt_of_direct hs.direct i.event) h hkeep

/-- After a lost keepalive the next pong does make an attempt. -/
theorem Stranded.attempt_of_keepaliveLost {e : Env} {w : World} {i : Input}
    (h : Stranded w) (hlost : KeepaliveLost e w i) {ev : Event} {src : AddrPort}
    (hpong : ev.pongFrom = some src) :
    attempt (Daemon.step e w i) ev = some src := by
  have hnone : i.event.pongFrom = none := by rw [hlost.1]; rfl
  have hstate : (Daemon.step e w i).fsm.state = .punching := by
    simp only [Daemon.step, hlost.1, keepalive, hlost.2.1, hlost.2.2, ne_eq,
      not_true_eq_false, if_false, if_true]
    rfl
  have hdown := (step_sameTunnel e w i hnone).tunnelUp.trans h.down
  rw [attempt, hdown, raises, hstate, hpong]
  rfl

/-! ## Runs without a failed bring-up -/

def DownFree (e : Env) (w : World) : Prop :=
  w.fsm.tunnelUp = false → w.fsm.state ≠ .direct ∧ e.deps.ifaceName ∉ w.kernel.links

theorem tunnelUp_of_attempt {e : Env} (hname : ValidIface e.deps.ifaceName) {w : World}
    {i : Input} {dst : AddrPort} (hattempt : attempt w i.event = some dst)
    (hfree : e.deps.ifaceName ∉ w.kernel.links) (hi : TunnelInput i) :
    (step e w i).fsm.tunnelUp = true := by
  have hdown : ¬ w.fsm.tunnelUp = true := by
    intro hup
    rw [attempt, if_pos hup] at hattempt
    cases hattempt
  rw [attempt, if_neg hdown, raises] at hattempt
  split at hattempt
  · cases hattempt
  · rename_i hdirect
    obtain ⟨w', heq, hw'⟩ := onPong_selects e i dst hdirect
    rw [step_of_pongFrom e w i hattempt, heq]
    refine bringUpTunnel_up hname hi.hasLocal (hi.pong dst hattempt) hi.noFault ?_
    rwa [hw'.kernel]

theorem DownFree.step {e : Env} (hname : ValidIface e.deps.ifaceName) {w : World}
    {i : Input} (h : DownFree e w) (hi : Granted w i) :
    DownFree e (Daemon.step e w i) := by
  intro hdown'
  cases hattempt : attempt w i.event with
  | some dst =>
      have hdown : w.fsm.tunnelUp = false := by
        rw [← tunnelUp_settle e w i]
        exact (step_of_attempt hattempt).2
      have hsome : (attempt w i.event).isSome = true := by rw [hattempt]; rfl
      have hup := tunnelUp_of_attempt hname hattempt (h hdown).2 (hi hsome)
      rw [hup] at hdown'
      cases hdown'
  | none =>
      obtain ⟨hup, hkernel⟩ := step_of_no_attempt (e := e) hattempt
      rw [hup] at hdown'
      rw [hkernel]
      obtain ⟨hdirect, hfree⟩ := h hdown'
      refine ⟨fun hstate => ?_, hfree⟩
      cases hpong : i.event.pongFrom with
      | none => exact hdirect (direct_of_step_direct hpong hstate)
      | some src =>
          rw [attempt, hdown', raises, if_neg hdirect, hpong] at hattempt
          cases hattempt

theorem DownFree.pongFindsTunnel {e : Env} {w : World} (h : DownFree e w) (i : Input) :
    PongFindsTunnel w i := by
  intro _ hdirect
  by_contra hdown
  exact (h (by simpa using hdown)).1 hdirect

/-- In a run a failed bring-up is tried again at the next pong exactly when there is no
such pong: every pong from the peer on a direct path finds the tunnel up. So it is when
each pong that is to bring up the tunnel finds a local address, a usable endpoint and
netlink calls that succeed. -/
theorem retried_iff_eachStep (e : Env) (peer : RemotePeer) (ifaceAddrs : List IP)
    (discoPort : ℕ) (k : Kernel) (is : List Input) :
    (EachStep (step e) Retried (startRun peer ifaceAddrs discoPort k) is ↔
      EachStep (step e) PongFindsTunnel (startRun peer ifaceAddrs discoPort k) is) ∧
    (ValidIface e.deps.ifaceName → e.deps.ifaceName ∉ k.links →
      EachStep (step e) Granted (startRun peer ifaceAddrs discoPort k) is →
      EachStep (step e) Retried (startRun peer ifaceAddrs discoPort k) is) := by
  have hiff : EachStep (step e) Retried (startRun peer ifaceAddrs discoPort k) is ↔
      EachStep (step e) PongFindsTunnel (startRun peer ifaceAddrs discoPort k) is := by
    have hsame : Retried = PongFindsTunnel :=
      funext₂ fun w i => propext (retried_iff_pongFindsTunnel w i)
    rw [hsame]
  refine ⟨hiff, fun hname hfree hgranted => hiff.mpr ?_⟩
  have hstart : DownFree e (startRun peer ifaceAddrs discoPort k) := by
    intro _
    exact ⟨by simp [startRun, sendCallMeMaybe, World.emit, newPeerFSM], hfree⟩
  exact eachStep_of_invariant (fun w i hw hi => hw.step hname hi)
    (fun w i hw _ => hw.pongFindsTunnel i) hstart hgranted

/-! ## A link that cannot be added once -/

def samplePong : Event := .udp ⟨.v4 0xc0000201, 4000⟩ { type := .pong, tx := "0" }

/-- While this event is handled, adding a link fails. -/
def busyInput (ev : Event) : Input where
  event := ev
  ifaceAddrs := [[192, 168, 1, 10]]
  faults _ c := match c with
    | .linkAdd _ => some (.errno .EBUSY)
    | _ => none

/-- The tunnel comes up at the first pong, and later pongs find it up. -/
theorem retried_of_sampleInput :
    EachStep (step sampleEnv) Retried (startRun samplePeer [] 40001 sampleKernel)
      [sampleInput samplePong, sampleInput .keepalive, sampleInput samplePong] := by
  refine (retried_iff_eachStep sampleEnv samplePeer [] 40001 sampleKernel _).2
    (by decide +kernel) (by decide) ?_
  refine ⟨fun _ => tunnelInput_sampleInput (by decide),
    fun _ => tunnelInput_sampleInput (by decide),
    fun _ => tunnelInput_sampleInput (by decide), trivial⟩

/-- Adding the link fails once. The machine is in `direct` without a tunnel, and the pong
that answers its keepalive makes no attempt although every call would now succeed. -/
theorem not_retried_of_busyInput :
    let w := [busyInput samplePong, sampleInput .keepalive].foldl (step sampleEnv)
      (startRun samplePeer [] 40001 sampleKernel)
    w.fsm.state = .direct ∧ w.fsm.tunnelUp = false ∧
      attempt w samplePong = none ∧
      (step sampleEnv w (sampleInput samplePong)).kernel = w.kernel ∧
      (step sampleEnv w (sampleInput samplePong)).fsm.tunnelUp = false ∧
      ¬ Retried w (sampleInput samplePong) := by
  intro w
  have hstranded : Stranded w := ⟨by decide +kernel, by decide +kernel⟩
  have hnone := attempt_of_direct hstranded.direct samplePong
  obtain ⟨hup, hkernel⟩ :=
    step_of_no_attempt (e := sampleEnv) (i := sampleInput samplePong) hnone
  refine ⟨hstranded.direct, hstranded.down, hnone, hkernel,
    hup.trans hstranded.down, ?_⟩
  intro hretried
  have hsome := hretried hstranded.direct hstranded.down rfl
  rw [show (sampleInput samplePong).event = samplePong from rfl, hnone] at hsome
  cases hsome

end Daemon

end Gretun
