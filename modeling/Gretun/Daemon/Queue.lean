import Gretun.Daemon.Sections

/-!
# The queue is first in, first out

The run loop of a machine and the goroutines that talk to it share the channel `incoming`
and the peer snapshot. `Shared` has a step for each section of a handler and for each half
of `update`, in any order. The machine then does what it does alone on a list of inputs,
which `Accounts` reads off the handlers that were begun and the snapshots that were
stored: a handler counts as one input, at a place among the snapshots that were stored
before the next one was begun. Only a call_me_maybe that a snapshot overtakes counts as
less.
-/

namespace Gretun

namespace Daemon

open Gretun.Net
open Gretun.Disco
open Gretun.Tunnel
open Foundation.Run
open Foundation.Weave
open Sections

def Input.message (i : Input) : Option FsmEvent :=
  match i.event with
  | .update => some .update
  | .udp addr body => some (.udp addr body)
  | .signal body => some (.signal body)
  | _ => none

theorem message_event (ev : FsmEvent) (ifaceAddrs : List IP)
    (faults : ℕ → NlCall → Fault) :
    Input.message ⟨ev.event, ifaceAddrs, faults⟩ = some ev := by
  cases ev <;> rfl

def Input.bare (ev : Event) : Input := ⟨ev, [], fun _ _ => none⟩

inductive Entry (k : Key) where
  | begun (i : Input)
  | stored (p : Snapshot k)

def Entry.message {k : Key} : Entry k → Option FsmEvent
  | begun i => i.message
  | stored _ => none

def Entry.snapshot {k : Key} : Entry k → Option (Snapshot k)
  | begun _ => none
  | stored p => some p

/-- A machine and its goroutines. `work` is what the run loop has still to do for the
input it handles, `pending` the snapshot of an update call that has queued its event and
not stored the snapshot yet. `log` is kept for the statements below only. -/
structure Shared (k : Key) where
  world : World
  work : Work World
  incoming : List FsmEvent
  pending : Option (Snapshot k)
  log : List (Entry k)

/-- The atomic steps of `update`, `onUDP`, `onSignal` and `run`. Of `run` there are the
cases of its select, and the next section of the handler it is in. -/
inductive Turn (k : Key) where
  | enqueueUpdate (peer : Snapshot k)
  | storePeer
  | onUDP (addr : AddrPort) (body : Body)
  | onSignal (body : Body)
  | receive (ifaceAddrs : List IP) (faults : ℕ → NlCall → Fault)
  | tick
  | keepalive
  | advance

namespace Shared

variable {k : Key}

def start (w : World) : Shared k where
  world := w
  work := .done
  incoming := []
  pending := none
  log := []

def enqueue (ev : FsmEvent) (s : Shared k) : Shared k :=
  if s.incoming.length < incomingCap then { s with incoming := s.incoming ++ [ev] } else s

/-- A case of the select, which waits while a handler is under way. -/
def begin (e : Env) (i : Input) (s : Shared k) : Shared k :=
  match s.work with
  | .done => { s with work := handle e i, log := s.log ++ [.begun i] }
  | .sect _ _ => s

def receive (e : Env) (ifaceAddrs : List IP) (faults : ℕ → NlCall → Fault)
    (s : Shared k) : Shared k :=
  match s.work, s.incoming with
  | .done, ev :: evs => { s with incoming := evs }.begin e ⟨ev.event, ifaceAddrs, faults⟩
  | _, _ => s

def storePeer (s : Shared k) : Shared k :=
  match s.pending with
  | some p =>
      { s with world := store s.world p, pending := none, log := s.log ++ [.stored p] }
  | none => s

def advance (s : Shared k) : Shared k :=
  { s with
    work := (weave (others k) (s.work, s.world) none).1
    world := (weave (others k) (s.work, s.world) none).2 }

def step (e : Env) (s : Shared k) : Turn k → Shared k
  | .enqueueUpdate p =>
      -- update is called under the lock of the daemon, one call at a time
      if s.pending.isSome then s
      else if s.incoming.length < incomingCap then
        { s.enqueue .update with pending := some p }
      else s
  | .storePeer => s.storePeer
  | .onUDP addr body => s.enqueue (.udp addr body)
  | .onSignal body => s.enqueue (.signal body)
  | .receive ifaceAddrs faults => s.receive e ifaceAddrs faults
  | .tick => s.begin e (.bare .tick)
  | .keepalive => s.begin e (.bare .keepalive)
  | .advance => s.advance

def offered (s : Shared k) : Turn k → Option FsmEvent
  | .enqueueUpdate _ => if s.pending.isSome then none else some .update
  | .onUDP addr body => some (.udp addr body)
  | .onSignal body => some (.signal body)
  | _ => none

def accepted (s : Shared k) (a : Turn k) : Option FsmEvent :=
  if s.incoming.length < incomingCap then s.offered a else none

def acceptedPeer (s : Shared k) : Turn k → Option (Snapshot k)
  | .enqueueUpdate p =>
      if s.pending.isSome then none
      else if s.incoming.length < incomingCap then some p else none
  | _ => none

end Shared

/-! ## Handlers as inputs -/

section Accounts

variable {k : Key}

def Sections.Snapshot.input (p : Snapshot k) : Input := .bare (.setPeer p.1)

/-- The inputs are the handlers and the snapshots of a log, where a handler may come after
snapshots that were stored since it was begun. A call_me_maybe may count as an update when
there is such a snapshot. -/
inductive Accounts : List Input → List (Entry k) → Prop where
  | nil : Accounts [] []
  | stored {is : List Input} {log : List (Entry k)} (h : Accounts is log)
      (p : Snapshot k) : Accounts (is ++ [p.input]) (log ++ [.stored p])
  | whole {is : List Input} {log : List (Entry k)} (h : Accounts is log) (i : Input)
      (ps : List (Snapshot k)) :
      Accounts (is ++ (ps.map Snapshot.input ++ [i])) (log ++ .begun i :: ps.map .stored)
  | overtaken {is : List Input} {log : List (Entry k)} (h : Accounts is log) {i : Input}
      (hi : i.IsCallMeMaybe) {ps : List (Snapshot k)} (hps : ps ≠ []) :
      Accounts (is ++ (ps.map Snapshot.input ++ [{ i with event := .update }]))
        (log ++ .begun i :: ps.map .stored)

def Reads (e : Env) (w₀ : World) (log : List (Entry k)) (w : World) : Prop :=
  w.fsm.peer.discoKey = k ∧ ∃ is, Accounts is log ∧ w = is.foldl (Daemon.step e) w₀

theorem foldl_input (e : Env) (w : World) (ps : List (Snapshot k)) :
    (ps.map Snapshot.input).foldl (Daemon.step e) w = ps.foldl store w := by
  rw [List.foldl_map]
  rfl

theorem discoKey_step (e : Env) (w : World) {i : Input}
    (hi : ∀ peer, i.event ≠ .setPeer peer) :
    (Daemon.step e w i).fsm.peer.discoKey = w.fsm.peer.discoKey := by
  have hudp : ∀ src body,
      (Daemon.onDiscoUDP e i src body w).fsm.peer.discoKey = w.fsm.peer.discoKey := by
    intro src body
    unfold Daemon.onDiscoUDP
    cases body.type with
    | ping => rfl
    | pong => rw [onPong_peer]
    | callMeMaybe => rw [onPeerUpdate_peer]; rfl
    | other t => rfl
  unfold Daemon.step
  cases hev : i.event with
  | setPeer peer => exact absurd hev (hi peer)
  | update => rw [onPeerUpdate_peer]
  | udp src body => exact hudp src body
  | signal body => exact hudp _ body
  | tick =>
      simp only [Daemon.tickPunch]
      split
      · rfl
      · split
        · rfl
        · rw [pingAll_fsm]
  | keepalive =>
      simp only [Daemon.keepalive]
      split
      · rfl
      · split
        · rfl
        · rw [sendPing_fsm]

namespace Reads

variable {e : Env} {w₀ w w' : World} {log : List (Entry k)}

theorem stored (h : Reads e w₀ log w) (p : Snapshot k) :
    Reads e w₀ (log ++ [.stored p]) (store w p) := by
  obtain ⟨-, is, his, rfl⟩ := h
  refine ⟨p.2, _, his.stored p, ?_⟩
  rw [List.foldl_append]
  rfl

theorem storeds (h : Reads e w₀ log w) (ps : List (Snapshot k)) :
    Reads e w₀ (log ++ ps.map .stored) (ps.foldl store w) := by
  induction ps generalizing log w with
  | nil => rwa [List.map_nil, List.append_nil]
  | cons p ps ih =>
      rw [List.map_cons, List.append_cons]
      exact ih (h.stored p)

theorem whole (h : Reads e w₀ log w) {i : Input} (hi : ∀ peer, i.event ≠ .setPeer peer)
    (ps : List (Snapshot k)) :
    Reads e w₀ (log ++ .begun i :: ps.map .stored)
      (Daemon.step e (ps.foldl store w) i) := by
  have hkey := inv_foldl (o := others k) h.1 ps
  obtain ⟨-, is, his, rfl⟩ := h
  refine ⟨(discoKey_step e _ hi).trans hkey, _, his.whole i ps, ?_⟩
  rw [List.foldl_append, List.foldl_append, foldl_input]
  rfl

theorem overtaken (h : Reads e w₀ log w) {i : Input} (hi : i.IsCallMeMaybe)
    {ps : List (Snapshot k)} (hps : ps ≠ []) :
    Reads e w₀ (log ++ .begun i :: ps.map .stored)
      (Daemon.step e (ps.foldl store w) { i with event := .update }) := by
  have hkey := inv_foldl (o := others k) h.1 ps
  obtain ⟨-, is, his, rfl⟩ := h
  refine ⟨(discoKey_step e _ (by simp)).trans hkey, _, his.overtaken hi hps, ?_⟩
  rw [List.foldl_append, List.foldl_append, foldl_input]
  rfl

theorem handled (h : Reads e w₀ log w) {i : Input} (hi : ∀ peer, i.event ≠ .setPeer peer)
    {slots : List (Option (Snapshot k))}
    (hover : slots.foldl (weave (others k)) (handle e i, w) = (.done, w')) :
    Reads e w₀ (log ++ .begun i :: slots.reduceOption.map .stored) w' := by
  obtain ⟨ps, qs, hslots, hw'⟩ := weave_handle hi h.1 hover
  rw [hslots, List.map_append, ← List.cons_append, ← List.append_assoc]
  rcases hw' with rfl | ⟨hcall, hps, rfl⟩
  · exact (h.whole hi ps).storeds qs
  · exact (h.overtaken hcall hps).storeds qs

end Reads

end Accounts

/-! ## One step -/

namespace Shared

variable {k : Key} {e : Env} {w₀ : World} {s : Shared k}

/-- The run loop is in its select, or in a handler with some snapshots stored since it
was begun. -/
inductive Inv (e : Env) (w₀ : World) (s : Shared k) : Prop where
  | idle (hwork : s.work = .done) (h : Reads e w₀ s.log s.world)
  | busy {log : List (Entry k)} {w : World} {i : Input}
      (slots : List (Option (Snapshot k))) (hi : ∀ peer, i.event ≠ .setPeer peer)
      (h : Reads e w₀ log w)
      (hwork : slots.foldl (weave (others k)) (handle e i, w) = (s.work, s.world))
      (hlog : s.log = log ++ .begun i :: slots.reduceOption.map .stored)

/-- The handler under way will come to its end, and then counts. -/
theorem Inv.reads (h : s.Inv e w₀) : Reads e w₀ s.log (s.work.run s.world) := by
  cases h with
  | idle hwork h => rwa [hwork]
  | @busy log w i slots hi h hwork hlog =>
      obtain ⟨n, hn⟩ := exists_weave_run (others k) s.work s.world
      have hover : (slots ++ List.replicate n none).foldl (weave (others k))
          (handle e i, w) = (.done, s.work.run s.world) := by
        rw [List.foldl_append, hwork, hn]
      have hreads := h.handled hi hover
      rw [List.reduceOption_append, List.reduceOption_replicate_none, List.append_nil]
        at hreads
      rwa [hlog]

theorem Inv.of_eq (h : s.Inv e w₀) {s' : Shared k} (hworld : s'.world = s.world)
    (hwork : s'.work = s.work) (hlog : s'.log = s.log) : s'.Inv e w₀ := by
  cases h with
  | idle hdone h => exact .idle (hwork.trans hdone) (by rwa [hworld, hlog])
  | busy slots hi h hslots hl =>
      exact .busy slots hi h (by rw [hslots, hwork, hworld]) (hlog.trans hl)

theorem Inv.begin (h : s.Inv e w₀) {i : Input} (hi : ∀ peer, i.event ≠ .setPeer peer) :
    (s.begin e i).Inv e w₀ := by
  have hreads := h.reads
  unfold Shared.begin
  split
  · rename_i hwork
    rw [hwork] at hreads
    exact .busy [] hi hreads rfl rfl
  · exact h

theorem Inv.receive (h : s.Inv e w₀) (ifaceAddrs : List IP)
    (faults : ℕ → NlCall → Fault) : (s.receive e ifaceAddrs faults).Inv e w₀ := by
  unfold Shared.receive
  split
  · rename_i ev evs _ _
    have htaken : Inv e w₀ { s with incoming := evs } := h.of_eq rfl rfl rfl
    exact htaken.begin (FsmEvent.event_ne_setPeer ev)
  · exact h

theorem Inv.storePeer (h : s.Inv e w₀) : s.storePeer.Inv e w₀ := by
  unfold Shared.storePeer
  split
  · rename_i p _
    cases h with
    | idle hwork h => exact .idle hwork (h.stored p)
    | @busy log w i slots hi h hwork hlog =>
        refine .busy (slots ++ [some p]) hi h ?_ ?_
        · rw [List.foldl_append, hwork]
          rfl
        · rw [hlog, List.reduceOption_append, List.map_append, List.append_assoc]
          rfl
  · exact h

theorem Inv.advance (h : s.Inv e w₀) : s.advance.Inv e w₀ := by
  cases h with
  | idle hwork h =>
      refine .idle ?_ ?_
      · rw [Shared.advance, hwork]
        rfl
      · rw [Shared.advance, hwork]
        exact h
  | @busy log w i slots hi h hwork hlog =>
      refine .busy (slots ++ [none]) hi h ?_ ?_
      · rw [List.foldl_append, hwork]
        rfl
      · rw [List.reduceOption_append]
        change s.log = log ++ .begun i :: (slots.reduceOption ++ []).map .stored
        rw [List.append_nil, hlog]

theorem Inv.enqueue (h : s.Inv e w₀) (ev : FsmEvent) : (s.enqueue ev).Inv e w₀ := by
  unfold Shared.enqueue
  split
  · exact h.of_eq rfl rfl rfl
  · exact h

theorem Inv.step (h : s.Inv e w₀) (a : Turn k) : (s.step e a).Inv e w₀ := by
  cases a with
  | enqueueUpdate p =>
      simp only [Shared.step]
      split
      · exact h
      · split
        · exact (h.enqueue .update).of_eq rfl rfl rfl
        · exact h
  | storePeer => exact h.storePeer
  | onUDP addr body => exact h.enqueue _
  | onSignal body => exact h.enqueue _
  | receive ifaceAddrs faults => exact h.receive ifaceAddrs faults
  | tick => exact h.begin (by simp [Input.bare])
  | keepalive => exact h.begin (by simp [Input.bare])
  | advance => exact h.advance

def messages (s : Shared k) : List FsmEvent :=
  s.log.filterMap Entry.message ++ s.incoming

def snapshots (s : Shared k) : List (Snapshot k) :=
  s.log.filterMap Entry.snapshot ++ s.pending.toList

theorem enqueue_eq (ev : FsmEvent) (s : Shared k) :
    s.enqueue ev = { s with incoming := s.incoming ++
      (if s.incoming.length < incomingCap then some ev else none).toList } := by
  unfold enqueue
  split <;> simp

theorem messages_begin {i : Input} (hi : i.message = none) :
    (s.begin e i).messages = s.messages := by
  unfold Shared.begin
  split
  · simp [messages, Entry.message, hi]
  · rfl

theorem messages_step (e : Env) (s : Shared k) (a : Turn k) :
    (s.step e a).messages = s.messages ++ (s.accepted a).toList := by
  cases a with
  | enqueueUpdate p =>
      simp only [Shared.step, accepted, offered, enqueue_eq, messages]
      split
      · simp
      · split <;> simp [*]
  | storePeer =>
      simp only [Shared.step, Shared.storePeer, accepted, offered, messages]
      split <;> simp [Entry.message]
  | onUDP addr body => simp [Shared.step, enqueue_eq, messages, accepted, offered]
  | onSignal body => simp [Shared.step, enqueue_eq, messages, accepted, offered]
  | receive ifaceAddrs faults =>
      simp only [Shared.step, Shared.receive, accepted, offered]
      split
      · rename_i ev evs hwork hincoming
        simp [Shared.begin, messages, Entry.message, hwork, hincoming, message_event]
      · simp
  | tick =>
      rw [Shared.step, messages_begin rfl]
      simp [accepted, offered]
  | keepalive =>
      rw [Shared.step, messages_begin rfl]
      simp [accepted, offered]
  | advance => simp [Shared.step, Shared.advance, messages, accepted, offered]

theorem snapshots_begin (e : Env) (i : Input) (s : Shared k) :
    (s.begin e i).snapshots = s.snapshots := by
  unfold Shared.begin
  split
  · simp [snapshots, Entry.snapshot]
  · rfl

theorem snapshots_step (e : Env) (s : Shared k) (a : Turn k) :
    (s.step e a).snapshots = s.snapshots ++ (s.acceptedPeer a).toList := by
  cases a with
  | enqueueUpdate p =>
      simp only [Shared.step, acceptedPeer, enqueue_eq, snapshots]
      cases hpending : s.pending with
      | some q => simp [hpending]
      | none =>
          simp only [Option.isSome_none, Bool.false_eq_true, if_false]
          split <;> simp [*]
  | storePeer =>
      simp only [Shared.step, Shared.storePeer, acceptedPeer, snapshots]
      split <;> simp [*, Entry.snapshot]
  | onUDP addr body => simp [Shared.step, enqueue_eq, snapshots, acceptedPeer]
  | onSignal body => simp [Shared.step, enqueue_eq, snapshots, acceptedPeer]
  | receive ifaceAddrs faults =>
      simp only [Shared.step, Shared.receive, acceptedPeer]
      split
      · rw [snapshots_begin]
        simp [snapshots]
      · simp
  | tick =>
      rw [Shared.step, snapshots_begin]
      simp [acceptedPeer]
  | keepalive =>
      rw [Shared.step, snapshots_begin]
      simp [acceptedPeer]
  | advance => simp [Shared.step, Shared.advance, snapshots, acceptedPeer]

theorem incoming_begin (e : Env) (i : Input) (s : Shared k) :
    (s.begin e i).incoming = s.incoming := by
  unfold Shared.begin
  split <;> rfl

theorem length_incoming_enqueue {s : Shared k} (h : s.incoming.length ≤ incomingCap)
    (ev : FsmEvent) : (s.enqueue ev).incoming.length ≤ incomingCap := by
  rw [enqueue]
  split
  · simp only [List.length_append, List.length_singleton]
    omega
  · exact h

theorem length_incoming_step (e : Env) {s : Shared k}
    (h : s.incoming.length ≤ incomingCap) (a : Turn k) :
    (s.step e a).incoming.length ≤ incomingCap := by
  cases a with
  | enqueueUpdate p =>
      simp only [Shared.step]
      split
      · exact h
      · split
        · exact length_incoming_enqueue h .update
        · exact h
  | storePeer =>
      simp only [Shared.step, Shared.storePeer]
      split <;> exact h
  | onUDP addr body => exact length_incoming_enqueue h _
  | onSignal body => exact length_incoming_enqueue h _
  | receive ifaceAddrs faults =>
      simp only [Shared.step, Shared.receive]
      split
      · rename_i ev evs _ hincoming
        rw [incoming_begin]
        rw [hincoming] at h
        exact Nat.le_of_succ_le h
      · exact h
  | tick =>
      rw [Shared.step, incoming_begin]
      exact h
  | keepalive =>
      rw [Shared.step, incoming_begin]
      exact h
  | advance => exact h

/-! ## Every run -/

/-- What a run of the goroutines from `s` to `s'` comes to, where `is` are the inputs of
the machine once the handler under way is over. -/
structure FirstInFirstOut (e : Env) (s : Shared k) (as : List (Turn k)) (is : List Input)
    (s' : Shared k) : Prop where
  world : s'.work.run s'.world = is.foldl (Daemon.step e) s.world
  accounts : Accounts is s'.log
  messages : s'.log.filterMap Entry.message ++ s'.incoming =
    outputs (Shared.step e) accepted s as
  snapshots : s'.log.filterMap Entry.snapshot ++ s'.pending.toList =
    outputs (Shared.step e) acceptedPeer s as
  accepted : (outputs (Shared.step e) Shared.accepted s as).Sublist
    (outputs (Shared.step e) offered s as)
  bounded : s'.incoming.length ≤ incomingCap
  full : EachStep (Shared.step e) (fun s a =>
    s.accepted a ≠ s.offered a → s.incoming.length = incomingCap) s as

/-- A call_me_maybe with an address is absorbed, and a snapshot without endpoints is stored
before the handler looks whether there are any. -/
def overtaking : List (Turn samplePeer.discoKey) :=
  [.onSignal { type := .callMeMaybe, endpoints := ["192.0.2.1:4000"] },
    .receive [] fun _ _ => none, .advance,
    .enqueueUpdate ⟨{ samplePeer with endpoints := [] }, rfl⟩, .storePeer, .advance]

example : (overtaking.foldl
    (Shared.step { sampleEnv with parseAddrPort := fun _ => some ⟨.v4 0xc0000201, 4000⟩ })
    (start Mailbox.sampleWorld)).world.fsm.state = .unknown := by decide +kernel

end Shared

end Daemon

end Gretun
