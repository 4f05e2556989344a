import Gretun.Daemon.BringUp
import Gretun.Foundation.Run

/-!
# Two daemons and the network between them

Each side runs its state machine for the other. What a machine has sent stays in
its log of effects, and the network is that log: any envelope in it may be
delivered to the other side, at any later time and any number of times, over the
socket under any source address or over the coordinator. An envelope opens only
for the key it was sealed for, and only the other side's machine seals for it.
-/

namespace Gretun

namespace Daemon

open Gretun.Net
open Gretun.Disco
open Gretun.Tunnel

inductive Side where
  | a
  | b
  deriving DecidableEq

def Side.other : Side → Side
  | a => b
  | b => a

@[simp] theorem Side.other_other (s : Side) : s.other.other = s := by
  cases s <;> rfl

structure Pair where
  env : Side → Env
  disco : Side → AddrPort

inductive Via where
  | udp (src : AddrPort)
  | relay
  deriving DecidableEq

def Via.event (via : Via) (body : Body) : Event :=
  match via with
  | udp src => .udp src body
  | relay => .signal body

/-- Why a side takes a step: an event of its own, or the envelope at position `n`
of the other side's log. -/
inductive Cause where
  | setPeer (peer : RemotePeer)
  | update
  | tick
  | keepalive
  | deliver (n : ℕ) (via : Via)
  deriving DecidableEq

structure PairInput where
  side : Side
  cause : Cause
  ifaceAddrs : List IP
  faults : ℕ → NlCall → Fault

def Effect.bodyFor (key : Key) : Effect → Option Body
  | .udp _ recipient body => if recipient = key then some body else none
  | .signal recipient body => if recipient = key then some body else none
  | _ => none

namespace Pair

/-- The envelope at position `n` of the other side's log, as `s` opens it. -/
def envelope (p : Pair) (σ : Side → World) (s : Side) (n : ℕ) : Option Body :=
  ((σ s.other).effects[n]?).bind (Effect.bodyFor (p.env s).deps.self)

def event (p : Pair) (σ : Side → World) (s : Side) : Cause → Option Event
  | .setPeer peer => some (.setPeer peer)
  | .update => some .update
  | .tick => some .tick
  | .keepalive => some .keepalive
  | .deliver n via => (p.envelope σ s n).map via.event

def step (p : Pair) (σ : Side → World) (i : PairInput) : Side → World :=
  match p.event σ i.side i.cause with
  | some ev =>
      Function.update σ i.side
        (Daemon.step (p.env i.side) (σ i.side) ⟨ev, i.ifaceAddrs, i.faults⟩)
  | none => σ

end Pair

/-- `Run` up to the start of a machine: it opens the receive port, and stops with
an error when that fails. -/
def runDaemon (e : Env) (peer : RemotePeer) (ifaceAddrs : List IP)
    (discoPort : ℕ) (faults : ℕ → NlCall → Fault) (k : Kernel) :
    Except NlError World :=
  let r := exec (ensureFOU e.deps.fouPort .fou) faults k
  match r.1 with
  | .ok _ => .ok (startRun peer ifaceAddrs discoPort r.2)
  | .error err => .error err

/-- Both daemons have started. That a receive port is already open is for the
kernel to say. -/
def Pair.Started (p : Pair) (σ : Side → World) : Prop :=
  ∀ s, ∃ peer ifaceAddrs faults k,
    (∀ n c, faults n c ≠ some (.errno .EEXIST)) ∧
      runDaemon (p.env s) peer ifaceAddrs (p.disco s).port.toNat faults k =
        .ok (σ s)

/-- A step changes one side only, by a step of its machine. -/
theorem Pair.step_cases (p : Pair) (σ : Side → World) (i : PairInput) :
    p.step σ i = σ ∨
      ∃ ev, p.event σ i.side i.cause = some ev ∧
        p.step σ i = Function.update σ i.side
          (Daemon.step (p.env i.side) (σ i.side)
            ⟨ev, i.ifaceAddrs, i.faults⟩) := by
  unfold Pair.step
  cases hev : p.event σ i.side i.cause with
  | none => exact Or.inl rfl
  | some ev => exact Or.inr ⟨ev, rfl, rfl⟩

/-- A property that each machine keeps in every step the system can make it take
is kept on both sides. -/
theorem Pair.step_induction {p : Pair} {σ : Side → World} {i : PairInput}
    {I : Side → World → Prop} (hσ : ∀ s, I s (σ s))
    (hstep : ∀ ev, p.event σ i.side i.cause = some ev →
      I i.side (Daemon.step (p.env i.side) (σ i.side)
        ⟨ev, i.ifaceAddrs, i.faults⟩)) :
    ∀ s, I s (p.step σ i s) := by
  intro s
  rcases p.step_cases σ i with hsame | ⟨ev, hev, heq⟩
  · rw [hsame]
    exact hσ s
  · rw [heq]
    by_cases hs : s = i.side
    · subst hs
      rw [Function.update_self]
      exact hstep ev hev
    · rw [Function.update_of_ne hs]
      exact hσ s

/-- An event is an envelope of the other side's log that is delivered, or it is
local and carries no message. -/
theorem Pair.event_cases {p : Pair} {σ : Side → World} {s : Side} {c : Cause}
    {ev : Event} (hev : p.event σ s c = some ev) :
    (∃ n via body, c = .deliver n via ∧ p.envelope σ s n = some body ∧
      ev = via.event body) ∨
    (∀ n via, c ≠ .deliver n via) ∧
      ((∃ peer, ev = .setPeer peer) ∨ ev = .update ∨ ev = .tick ∨
        ev = .keepalive) := by
  cases c with
  | deliver n via =>
      obtain ⟨body, hbody, rfl⟩ := Option.map_eq_some_iff.1 hev
      exact Or.inl ⟨n, via, body, rfl, hbody, rfl⟩
  | setPeer peer =>
      obtain rfl := Option.some.inj hev
      exact Or.inr ⟨by simp, Or.inl ⟨peer, rfl⟩⟩
  | update =>
      obtain rfl := Option.some.inj hev
      exact Or.inr ⟨by simp, by simp⟩
  | tick =>
      obtain rfl := Option.some.inj hev
      exact Or.inr ⟨by simp, by simp⟩
  | keepalive =>
      obtain rfl := Option.some.inj hev
      exact Or.inr ⟨by simp, by simp⟩

/-- A pong that a side handles came out of the other side's log, under the source
address the network chose. -/
theorem Pair.event_pongFrom {p : Pair} {σ : Side → World} {s : Side} {c : Cause}
    {ev : Event} (hev : p.event σ s c = some ev) {src : AddrPort}
    (hpong : ev.pongFrom = some src) :
    ∃ n via body, c = .deliver n via ∧ p.envelope σ s n = some body ∧
      body.type = .pong ∧
      (via = .udp src ∨ via = .relay ∧ src = AddrPort.zero) := by
  rcases Pair.event_cases hev with ⟨n, via, body, hc, hbody, rfl⟩ | ⟨-, hlocal⟩
  · refine ⟨n, via, body, hc, hbody, ?_⟩
    rcases Event.pongFrom_eq_some.1 hpong with
      ⟨body', hev', htype⟩ | ⟨body', hev', htype, rfl⟩
    · cases via with
      | udp src' =>
          cases hev'
          exact ⟨htype, Or.inl rfl⟩
      | relay => cases hev'
    · cases via with
      | udp src' => cases hev'
      | relay =>
          cases hev'
          exact ⟨htype, Or.inr ⟨rfl, rfl⟩⟩
  · rcases hlocal with ⟨peer, rfl⟩ | rfl | rfl | rfl <;> cases hpong

end Daemon

end Gretun
