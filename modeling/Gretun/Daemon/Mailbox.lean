import Gretun.Daemon.PeerFrame
import Gretun.Foundation.Run

/-!
# The event queue of a machine

Other goroutines talk to a machine through `incoming`, a channel with room for 32
events; an event that finds it full is dropped. `update` puts its event into the
channel first and stores the new peer snapshot afterwards, while the run loop
takes events out and handles them. So the loop may handle the event of an update
whose snapshot is not there yet, and then nothing tells it about the snapshot.

Handling an event is one step here. It takes the lock more than once, and `Daemon.Sections`
says what a snapshot that is stored in between changes.
-/

namespace Gretun

namespace Daemon

open Gretun.Net
open Gretun.Disco
open Gretun.Tunnel
open Foundation.Run

inductive FsmEvent where
  | update
  | udp (addr : AddrPort) (body : Body)
  | signal (body : Body)
  deriving DecidableEq

def FsmEvent.event : FsmEvent → Event
  | update => .update
  | udp addr body => .udp addr body
  | signal body => .signal body

def incomingCap : ℕ := 32

/-- A machine with its queue. `current` is the event the run loop has taken out
and not handled yet, `pending` the snapshot of an update call that has queued its
event and not stored the snapshot yet; calls are made one at a time, under the
lock of the daemon. `last` records, for the statements below only, the peer of the
last update call whose event was accepted. -/
structure Mailbox where
  world : World
  incoming : List FsmEvent
  current : Option FsmEvent
  pending : Option RemotePeer
  last : Option RemotePeer

inductive Action where
  | enqueueUpdate (peer : RemotePeer)
  | storePeer
  | onUDP (addr : AddrPort) (body : Body)
  | onSignal (body : Body)
  | dequeue
  | handle (ifaceAddrs : List IP) (faults : ℕ → NlCall → Fault)
  | tick
  | keepalive

namespace Mailbox

def start (w : World) : Mailbox where
  world := w
  incoming := []
  current := none
  pending := none
  last := none

def enqueue (ev : FsmEvent) (m : Mailbox) : Mailbox :=
  if m.incoming.length < incomingCap then
    { m with incoming := m.incoming ++ [ev] }
  else m

/-- The first half of `update`. When the event is dropped the snapshot is not
stored either. -/
def enqueueUpdate (peer : RemotePeer) (m : Mailbox) : Mailbox :=
  if m.incoming.length < incomingCap then
    { m.enqueue .update with
      pending := some peer
      last := some peer }
  else m

def storePeer (m : Mailbox) : Mailbox :=
  match m.pending with
  | some peer =>
      { m with
        world := { m.world with fsm := { m.world.fsm with peer := peer } }
        pending := none }
  | none => m

def update (peer : RemotePeer) (m : Mailbox) : Mailbox :=
  (m.enqueueUpdate peer).storePeer

def dequeue (m : Mailbox) : Mailbox :=
  match m.current, m.incoming with
  | none, ev :: evs => { m with current := some ev, incoming := evs }
  | _, _ => m

def handle (e : Env) (ifaceAddrs : List IP) (faults : ℕ → NlCall → Fault)
    (m : Mailbox) : Mailbox :=
  match m.current with
  | some ev =>
      { m with
        world := Daemon.step e m.world ⟨ev.event, ifaceAddrs, faults⟩
        current := none }
  | none => m

/-- A timer of the run loop, which waits while an event is being handled. -/
def timer (e : Env) (ev : Event) (m : Mailbox) : Mailbox :=
  match m.current with
  | some _ => m
  | none =>
      { m with world := Daemon.step e m.world ⟨ev, [], fun _ _ => none⟩ }

def step (e : Env) (m : Mailbox) : Action → Mailbox
  | .enqueueUpdate peer =>
      if m.pending.isSome then m else m.enqueueUpdate peer
  | .storePeer => m.storePeer
  | .onUDP addr body => m.enqueue (.udp addr body)
  | .onSignal body => m.enqueue (.signal body)
  | .dequeue => m.dequeue
  | .handle ifaceAddrs faults => m.handle e ifaceAddrs faults
  | .tick => m.timer e .tick
  | .keepalive => m.timer e .keepalive

structure Settled (m : Mailbox) : Prop where
  incoming : m.incoming = []
  current : m.current = none
  pending : m.pending = none

/-- The loop handles the event of the update call under way, in the unknown state
and with a snapshot that has no endpoints, while the one to come has some. -/
def HandlesEarly (m : Mailbox) : Action → Prop
  | .handle _ _ =>
      m.current = some .update ∧ (∃ peer ∈ m.pending, peer.endpoints ≠ []) ∧
        .update ∉ m.incoming ∧
        m.world.fsm.state = .unknown ∧ m.world.fsm.peer.endpoints = []
  | _ => False

instance (m : Mailbox) (a : Action) : Decidable (m.HandlesEarly a) := by
  cases a <;> unfold HandlesEarly <;> infer_instance

end Mailbox

/-! ## What handling an event keeps -/

theorem onPong_peer (e : Env) (i : Input) (src : AddrPort) (w : World) :
    (onPong e i src w).fsm.peer = w.fsm.peer := by
  by_cases h : w.fsm.state = .direct
  · simp [onPong, h]
  · rw [onPong_of_ne_direct e i src h, onPongNew, bringUpTunnel_fsm]
    split <;> simp [World.setState]

theorem onPeerUpdate_peer (e : Env) (w : World) :
    (onPeerUpdate e w).fsm.peer = w.fsm.peer := by
  unfold onPeerUpdate
  split <;> rfl

theorem absorbEndpoints_ne_nil (e : Env) (addrs : List String) {w : World}
    (h : w.fsm.peer.endpoints ≠ []) :
    (absorbEndpoints e addrs w).fsm.peer.endpoints ≠ [] := by
  refine List.foldlRecOn (motive := fun eps : List RemoteEndpoint => eps ≠ [])
    addrs _ h ?_
  intro eps heps s _
  split
  · exact heps
  · split
    · exact heps
    · exact List.append_ne_nil_of_left_ne_nil heps _

/-- Handling an event does not take the last endpoint away. -/
theorem endpoints_ne_nil_step {e : Env} {w : World} {i : Input}
    (hi : ∀ peer, i.event ≠ .setPeer peer) (h : w.fsm.peer.endpoints ≠ []) :
    (step e w i).fsm.peer.endpoints ≠ [] := by
  have hudp : ∀ src body,
      (onDiscoUDP e i src body w).fsm.peer.endpoints ≠ [] := by
    intro src body
    unfold onDiscoUDP
    cases body.type with
    | ping => exact h
    | pong =>
        rw [onPong_peer]
        exact h
    | callMeMaybe =>
        rw [onPeerUpdate_peer]
        exact absorbEndpoints_ne_nil e body.endpoints h
    | other t => exact h
  unfold step
  cases hev : i.event with
  | setPeer peer => exact absurd hev (hi peer)
  | update =>
      rw [onPeerUpdate_peer]
      exact h
  | udp src body => exact hudp src body
  | signal body => exact hudp AddrPort.zero body
  | tick =>
      simp only [tickPunch]
      split
      · exact h
      · split
        · exact h
        · simpa using h
  | keepalive =>
      simp only [keepalive]
      split
      · exact h
      · split
        · exact h
        · simpa using h

theorem state_ne_unknown_onPeerUpdate {e : Env} {w : World}
    (h : w.fsm.peer.endpoints ≠ []) :
    (onPeerUpdate e w).fsm.state ≠ .unknown := by
  unfold onPeerUpdate
  split
  · simp [World.setState]
  · rename_i hno
    exact fun hs => hno ⟨h, hs⟩

theorem FsmEvent.event_ne_setPeer (ev : FsmEvent) (peer : RemotePeer) :
    ev.event ≠ .setPeer peer := by
  cases ev <;> simp [FsmEvent.event]

namespace Mailbox

/-! ## Accepted updates are noticed -/

def Notified (m : Mailbox) : Prop :=
  .update ∈ m.incoming ∨ m.current = some .update

/-- What the queue owes the last update: its endpoints are stored, or about to be,
and an event is on its way, unless the unknown state is over. -/
structure Announced (m : Mailbox) : Prop where
  pending : ∀ peer ∈ m.pending, m.last = some peer
  noticed : ∀ peer ∈ m.last, peer.endpoints ≠ [] →
    m.world.fsm.state ≠ .unknown ∨
      m.Notified ∧ (m.pending = none → m.world.fsm.peer.endpoints ≠ [])

theorem announced_start (w : World) : (start w).Announced :=
  ⟨by simp [start], by simp [start]⟩

theorem Announced.enqueue {m : Mailbox} (h : m.Announced) (ev : FsmEvent) :
    (m.enqueue ev).Announced := by
  unfold Mailbox.enqueue
  split
  · refine ⟨h.pending, fun peer hlast hne => ?_⟩
    rcases h.noticed peer hlast hne with hs | ⟨hnotified, hstored⟩
    · exact Or.inl hs
    · exact Or.inr ⟨hnotified.imp_left (List.mem_append_left _), hstored⟩
  · exact h

theorem Announced.enqueueUpdate {m : Mailbox} (h : m.Announced)
    (peer : RemotePeer) : (m.enqueueUpdate peer).Announced := by
  unfold Mailbox.enqueueUpdate
  split
  · rename_i hroom
    refine ⟨fun p hp => hp, fun p _ _ => Or.inr ⟨Or.inl ?_, by simp⟩⟩
    simp [Mailbox.enqueue, hroom]
  · exact h

theorem Announced.storePeer {m : Mailbox} (h : m.Announced) :
    m.storePeer.Announced := by
  unfold Mailbox.storePeer
  split
  · rename_i peer hpending
    refine ⟨by simp, fun p hlast hne => ?_⟩
    obtain rfl : peer = p :=
      Option.some.inj ((h.pending peer hpending).symm.trans hlast)
    rcases h.noticed peer hlast hne with hs | ⟨hnotified, -⟩
    · exact Or.inl hs
    · exact Or.inr ⟨hnotified, fun _ => hne⟩
  · exact h

theorem Announced.dequeue {m : Mailbox} (h : m.Announced) :
    m.dequeue.Announced := by
  unfold Mailbox.dequeue
  split
  · rename_i ev evs hcurrent hincoming
    refine ⟨h.pending, fun peer hlast hne => ?_⟩
    rcases h.noticed peer hlast hne with hs | ⟨hnotified, hstored⟩
    · exact Or.inl hs
    · refine Or.inr ⟨?_, hstored⟩
      rcases hnotified with hmem | hcur
      · rw [hincoming] at hmem
        rcases List.mem_cons.1 hmem with rfl | hmem
        · exact Or.inr rfl
        · exact Or.inl hmem
      · rw [hcurrent] at hcur
        cases hcur
  · exact h

theorem Announced.timer {e : Env} {m : Mailbox} (h : m.Announced) {ev : Event}
    (hev : ∀ peer, ev ≠ .setPeer peer) : (m.timer e ev).Announced := by
  unfold Mailbox.timer
  split
  · exact h
  · refine ⟨h.pending, fun peer hlast hne => ?_⟩
    rcases h.noticed peer hlast hne with hs | ⟨hnotified, hstored⟩
    · exact Or.inl (state_ne_step (Or.inl rfl) hs)
    · exact Or.inr ⟨hnotified, fun hp => endpoints_ne_nil_step hev (hstored hp)⟩

/-- Handling an event keeps the promise, unless it is handled early. -/
theorem Announced.handle {e : Env} {m : Mailbox} (h : m.Announced)
    {ifaceAddrs : List IP} {faults : ℕ → NlCall → Fault}
    (hearly : ¬ m.HandlesEarly (.handle ifaceAddrs faults)) :
    (m.handle e ifaceAddrs faults).Announced := by
  unfold Mailbox.handle
  split
  · rename_i ev hcurrent
    refine ⟨h.pending, fun peer hlast hne => ?_⟩
    rcases h.noticed peer hlast hne with hs | ⟨hnotified, hstored⟩
    · exact Or.inl (state_ne_step (Or.inl rfl) hs)
    · have hkept : m.pending = none →
          (Daemon.step e m.world ⟨ev.event, ifaceAddrs, faults⟩).fsm.peer.endpoints
            ≠ [] :=
        fun hp => endpoints_ne_nil_step ev.event_ne_setPeer (hstored hp)
      by_cases hmem : .update ∈ m.incoming
      · exact Or.inr ⟨Or.inl hmem, hkept⟩
      · -- this is the event itself, and the endpoints are there
        have hupdate : m.current = some .update := hnotified.resolve_left hmem
        obtain rfl : ev = .update :=
          Option.some.inj (hcurrent.symm.trans hupdate)
        by_cases hunknown : m.world.fsm.state = .unknown
        · refine Or.inl (state_ne_unknown_onPeerUpdate ?_)
          cases hpending : m.pending with
          | none => exact hstored hpending
          | some p =>
              obtain rfl : p = peer :=
                Option.some.inj ((h.pending p hpending).symm.trans hlast)
              exact fun hnil =>
                hearly ⟨hupdate, ⟨p, hpending, hne⟩, hmem, hunknown, hnil⟩
        · exact Or.inl (state_ne_step (Or.inl rfl) hunknown)
  · exact h

theorem Announced.step {e : Env} {m : Mailbox} {a : Action} (h : m.Announced)
    (hearly : ¬ m.HandlesEarly a) : (m.step e a).Announced := by
  cases a with
  | enqueueUpdate peer =>
      simp only [Mailbox.step]
      split
      · exact h
      · exact h.enqueueUpdate peer
  | storePeer => exact h.storePeer
  | onUDP addr body => exact h.enqueue (.udp addr body)
  | onSignal body => exact h.enqueue (.signal body)
  | dequeue => exact h.dequeue
  | handle ifaceAddrs faults => exact h.handle hearly
  | tick => exact h.timer (by simp)
  | keepalive => exact h.timer (by simp)

/-- In every run in which no event is handled early, a machine whose last accepted
update had endpoints has left the unknown state once nothing is left to do. -/
theorem state_ne_unknown_of_settled {e : Env} {w : World} {as : List Action}
    (hrun : EachStep (step e) (fun m a => ¬ m.HandlesEarly a) (start w) as)
    (hsettled : (as.foldl (step e) (start w)).Settled) {peer : RemotePeer}
    (hlast : (as.foldl (step e) (start w)).last = some peer)
    (hne : peer.endpoints ≠ []) :
    (as.foldl (step e) (start w)).world.fsm.state ≠ .unknown := by
  have hinv := invariant_of_eachStep (I := Announced)
    (P := fun m a => ¬ m.HandlesEarly a) (fun _ _ hm ha => hm.step ha)
    (announced_start w) hrun
  rcases hinv.noticed peer hlast hne with hs | ⟨hnotified, -⟩
  · exact hs
  · rcases hnotified with hmem | hcur
    · rw [hsettled.incoming] at hmem
      cases hmem
    · rw [hsettled.current] at hcur
      cases hcur

def sampleWorld : World :=
  startRun { samplePeer with endpoints := [] } [] 4000 sampleKernel

def handleSample : Action := .handle [] fun _ _ => none

/-- When the snapshot is stored before the event is taken out, punching begins. -/
theorem state_of_update_then_handle :
    ([Action.enqueueUpdate samplePeer, .storePeer, .dequeue, handleSample].foldl
      (step sampleEnv) (start sampleWorld)).world.fsm.state ≠ .unknown :=
  state_ne_unknown_of_settled (by decide +kernel)
    ⟨by decide +kernel, by decide +kernel, by decide +kernel⟩
    (by decide +kernel : _ = some samplePeer) (by decide)

/-- When the event is handled in between, the machine stays in the unknown state
with endpoints it was told about. -/
theorem state_of_handle_in_between :
    let m := [Action.enqueueUpdate samplePeer, .dequeue, handleSample,
      .storePeer].foldl (step sampleEnv) (start sampleWorld)
    m.Settled ∧ m.last = some samplePeer ∧ samplePeer.endpoints ≠ [] ∧
      m.world.fsm.state = .unknown :=
  ⟨⟨by decide +kernel, by decide +kernel, by decide +kernel⟩, by decide +kernel,
    by decide, by decide +kernel⟩

end Mailbox

end Daemon

end Gretun
