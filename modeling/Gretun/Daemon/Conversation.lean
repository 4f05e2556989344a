import Gretun.Daemon.Messages
import Gretun.Daemon.Roster
import Gretun.Daemon.Table

/-!
# One machine, one peer

A machine belongs to one disco key. What it sends, over the socket or over the
coordinator, is sealed for that key, and what the two reading loops hand to it was opened
with that key as its sender. Lists of peers come in between, with machines made, told of
new snapshots and dropped, and so does the shutdown; `Keyed` is what they all keep.
-/

namespace Gretun

namespace Daemon

open Gretun.Net
open Gretun.Disco
open Gretun.Tunnel
open Foundation.Run

/-! ## What a machine sends -/

def Effect.recipient : Effect → Option Key
  | .udp _ key _ => some key
  | .signal key _ => some key
  | _ => none

structure SealsFor (k : Key) (w : World) : Prop where
  peer : w.fsm.peer.discoKey = k
  sent : ∀ x ∈ w.effects, ∀ k' ∈ x.recipient, k' = k

namespace SealsFor

variable {k : Key} {w w' : World}

theorem of_eq (h : SealsFor k w) (hpeer : w'.fsm.peer.discoKey = w.fsm.peer.discoKey)
    (heffects : w'.effects = w.effects) : SealsFor k w' :=
  ⟨hpeer.trans h.peer, heffects ▸ h.sent⟩

theorem of_append (h : SealsFor k w) (hpeer : w'.fsm.peer.discoKey = w.fsm.peer.discoKey)
    {xs : List Effect} (heffects : w'.effects = w.effects ++ xs)
    (hxs : ∀ x ∈ xs, ∀ k' ∈ x.recipient, k' = k) : SealsFor k w' := by
  refine ⟨hpeer.trans h.peer, fun x hx => ?_⟩
  rw [heffects] at hx
  rcases List.mem_append.1 hx with hx | hx
  · exact h.sent x hx
  · exact hxs x hx

theorem sendPing (h : SealsFor k w) (e : Env) (dst : AddrPort) :
    SealsFor k (sendPing e dst w) := by
  obtain ⟨xs, hxs, heffects⟩ := sendPing_effects e dst w
  refine h.of_append (by rw [sendPing_fsm]) heffects fun x hx k' hk' => ?_
  rcases List.mem_cons.1 hx with rfl | hx
  · exact (Option.some.inj hk').symm.trans h.peer
  · have hnone := hxs x hx
    cases x with
    | udp => cases hnone
    | signal => cases hnone
    | _ => cases hk'

theorem onPong (h : SealsFor k w) (e : Env) (i : Input) (src : AddrPort) :
    SealsFor k (onPong e i src w) := by
  have hpeer : (Daemon.onPong e i src w).fsm.peer.discoKey = w.fsm.peer.discoKey := by
    rw [onPong_peer]
  by_cases hdirect : w.fsm.state = .direct
  · have heffects : (Daemon.onPong e i src w).effects =
        w.effects ++ if e.deps.metrics then [.pongRecv] else [] := by
      simp [Daemon.onPong, hdirect, record_effects]
    refine h.of_append hpeer heffects ?_
    cases e.deps.metrics <;> simp [Effect.recipient]
  · have heffects := onPongNew_effects e i src (w.record e .pongRecv)
    rw [record_effects, List.append_assoc, ← onPong_of_ne_direct e i src hdirect] at heffects
    refine h.of_append hpeer heffects ?_
    cases e.deps.metrics <;> cases (w.record e .pongRecv).fsm.punchStart.isZero <;>
      simp [Effect.recipient]

theorem onDiscoUDP (h : SealsFor k w) (e : Env) (i : Input) (src : AddrPort) (body : Body) :
    SealsFor k (onDiscoUDP e i src body w) := by
  unfold Daemon.onDiscoUDP
  cases body.type with
  | ping =>
      change SealsFor k (sendPong src body.tx w)
      refine h.of_append rfl rfl fun x hx k' hk' => ?_
      rw [List.mem_singleton.1 hx] at hk'
      exact (Option.some.inj hk').symm.trans h.peer
  | pong => exact h.onPong e i src
  | callMeMaybe =>
      refine h.of_eq ?_ ?_
      · rw [onPeerUpdate_peer]
        rfl
      · exact (onPeerUpdate_effects e _).1
  | other t => exact h

theorem step (h : SealsFor k w) (e : Env) {i : Input}
    (hi : ∀ peer, i.event ≠ .setPeer peer) : SealsFor k (step e w i) := by
  unfold Daemon.step
  cases hev : i.event with
  | setPeer peer => exact absurd hev (hi peer)
  | update => exact h.of_eq (by rw [onPeerUpdate_peer]) (onPeerUpdate_effects e w).1
  | udp src body => exact h.onDiscoUDP e i src body
  | signal body => exact h.onDiscoUDP e i AddrPort.zero body
  | tick =>
      simp only [tickPunch]
      split
      · exact h
      · split
        · exact h.of_eq rfl rfl
        · exact pingAll_induction e (I := SealsFor k) (fun dst w hw => hw.sendPing e dst) _
            (h.of_eq rfl rfl)
  | keepalive =>
      simp only [keepalive]
      split
      · exact h
      · split
        · exact h.of_eq rfl rfl
        · have hread : SealsFor k { w with reads := w.reads + 1 } := h.of_eq rfl rfl
          exact hread.sendPing e _

theorem startRun (peer : RemotePeer) (ifaceAddrs : List IP) (discoPort : ℕ)
    (kernel : Kernel) : SealsFor peer.discoKey (startRun peer ifaceAddrs discoPort kernel) := by
  refine ⟨rfl, fun x hx k' hk' => ?_⟩
  rw [List.mem_singleton.1 hx] at hk'
  exact (Option.some.inj hk').symm

end SealsFor

/-! ## A machine and those it hears -/

/-- A step of the run loop, not one of `update`. -/
def Action.own : Action → Bool
  | .dequeue => true
  | .handle _ _ => true
  | .tick => true
  | .keepalive => true
  | _ => false

/-- A machine; `heard` records, for the statements below only, whose messages the reading
loops have handed to it. -/
structure Contact where
  machine : Machine
  heard : List Key

namespace Contact

def hear (sender : Key) (ev : FsmEvent) (m : Contact) : Contact where
  machine := { m.machine with box := m.machine.box.enqueue ev }
  heard := m.heard ++ [sender]

def announce (peer : RemotePeer) (m : Contact) : Contact :=
  { m with machine := { m.machine with box := m.machine.box.enqueueUpdate peer } }

def store (m : Contact) : Contact :=
  { m with machine := { m.machine with box := m.machine.box.storePeer } }

def work (e : Env) (a : Action) (m : Contact) : Contact :=
  if a.own then { m with machine := { m.machine with box := m.machine.box.step e a } }
  else m

structure With (k : Key) (m : Contact) : Prop where
  seals : SealsFor k m.machine.box.world
  pending : ∀ peer ∈ m.machine.box.pending, peer.discoKey = k
  heard : ∀ sender ∈ m.heard, sender = k

end Contact

theorem Mailbox.world_enqueue (ev : FsmEvent) (m : Mailbox) :
    (m.enqueue ev).world = m.world ∧ (m.enqueue ev).pending = m.pending := by
  unfold Mailbox.enqueue
  split <;> exact ⟨rfl, rfl⟩

namespace Contact.With

variable {k : Key} {m : Contact}

theorem hear (h : m.With k) (ev : FsmEvent) : (m.hear k ev).With k := by
  obtain ⟨hworld, hpending⟩ := m.machine.box.world_enqueue ev
  refine ⟨?_, ?_, fun sender hsender => ?_⟩
  · change SealsFor k (m.machine.box.enqueue ev).world
    rw [hworld]
    exact h.seals
  · change ∀ peer ∈ (m.machine.box.enqueue ev).pending, peer.discoKey = k
    rw [hpending]
    exact h.pending
  · rcases List.mem_append.1 hsender with hold | hnew
    · exact h.heard sender hold
    · exact List.mem_singleton.1 hnew

theorem announce (h : m.With k) {peer : RemotePeer} (hpeer : peer.discoKey = k) :
    (m.announce peer).With k := by
  unfold Contact.announce Mailbox.enqueueUpdate
  split
  · obtain ⟨hworld, -⟩ := m.machine.box.world_enqueue .update
    refine ⟨?_, fun p hp => ?_, h.heard⟩
    · change SealsFor k (m.machine.box.enqueue .update).world
      rw [hworld]
      exact h.seals
    · rw [← Option.some.inj hp]
      exact hpeer
  · exact h

theorem store (h : m.With k) : m.store.With k := by
  unfold Contact.store Mailbox.storePeer
  split
  · rename_i peer hpeer
    refine ⟨⟨h.pending peer hpeer, h.seals.sent⟩, fun p hp => ?_, h.heard⟩
    cases hp
  · exact h

theorem work (h : m.With k) (e : Env) (a : Action) : (m.work e a).With k := by
  have htimer : ∀ ev : Event, (∀ peer, ev ≠ .setPeer peer) →
      SealsFor k (m.machine.box.timer e ev).world ∧
        ∀ peer ∈ (m.machine.box.timer e ev).pending, peer.discoKey = k := by
    intro ev hev
    unfold Mailbox.timer
    split
    · exact ⟨h.seals, h.pending⟩
    · exact ⟨h.seals.step e hev, h.pending⟩
  unfold Contact.work
  split
  · rename_i hown
    cases a with
    | dequeue =>
        simp only [Mailbox.step, Mailbox.dequeue]
        split <;> exact ⟨h.seals, h.pending, h.heard⟩
    | handle ifaceAddrs faults =>
        simp only [Mailbox.step, Mailbox.handle]
        split
        · exact ⟨h.seals.step e (FsmEvent.event_ne_setPeer _), h.pending, h.heard⟩
        · exact h
    | tick =>
        obtain ⟨hseals, hpending⟩ := htimer .tick (by simp)
        exact ⟨hseals, hpending, h.heard⟩
    | keepalive =>
        obtain ⟨hseals, hpending⟩ := htimer .keepalive (by simp)
        exact ⟨hseals, hpending, h.heard⟩
    | _ => cases hown
  · exact h

theorem unique {k' : Key} (h : m.With k) (h' : m.With k') : k = k' :=
  h.seals.peer.symm.trans h'.seals.peer

end Contact.With

/-! ## The machines of a daemon -/

namespace Roster

section Keyed

variable {φ : Type} {D : Key → φ → Prop} {t : Roster φ}

def Belongs (D : Key → φ → Prop) (t : Roster φ) (n : ℕ) (k : Key) : Prop :=
  ∃ x, t.fsms[n]? = some x ∧ D k x.body

theorem Belongs.body {n : ℕ} {k : Key} (h : t.Belongs D n k) {x : Instance φ}
    (hx : t.fsms[n]? = some x) : D k x.body := by
  obtain ⟨y, hy, hD⟩ := h
  obtain rfl := Option.some.inj (hx.symm.trans hy)
  exact hD

/-- Every machine belongs to a key other than the node's own, and the map has machines
only under keys they belong to. -/
structure Keyed (c : Kit φ) (D : Key → φ → Prop) (t : Roster φ) : Prop where
  each : ∀ n < t.fsms.length, ∃ k, k ≠ c.self ∧ t.Belongs D n k
  found : ∀ k n, t.find k = some n → t.Belongs D n k

/-- All is keyed as before, and no machine is taken from the key it belongs to. -/
structure KeyedFrom (c : Kit φ) (D : Key → φ → Prop) (t t' : Roster φ) : Prop where
  keyed : t'.Keyed c D
  kept : ∀ n k, t.Belongs D n k → t'.Belongs D n k

theorem keyed_empty (c : Kit φ) : Keyed c D (empty : Roster φ) :=
  ⟨fun _ hn => absurd hn (Nat.not_lt_zero _), fun _ _ hk => by cases hk⟩

theorem Keyed.refl {c : Kit φ} (h : t.Keyed c D) : KeyedFrom c D t t :=
  ⟨h, fun _ _ hk => hk⟩

theorem KeyedFrom.trans {c : Kit φ} {t₁ t₂ : Roster φ} (h : KeyedFrom c D t t₁)
    (h' : KeyedFrom c D t₁ t₂) : KeyedFrom c D t t₂ :=
  ⟨h'.keyed, fun n k hk => h'.kept n k (h.kept n k hk)⟩

theorem KeyedFrom.foldl {c : Kit φ} {α : Type} {f : Roster φ → α → Roster φ}
    (hf : ∀ t a, t.Keyed c D → KeyedFrom c D t (f t a)) (as : List α)
    (h : t.Keyed c D) : KeyedFrom c D t (as.foldl f t) :=
  invariant_foldl (I := KeyedFrom c D t) (fun _ a ht => ht.trans (hf _ a ht.keyed))
    h.refl as

/-- Work on one machine that leaves it with the keys it belongs to. -/
theorem Keyed.modify {c : Kit φ} (h : t.Keyed c D) {n : ℕ} {f : Instance φ → Instance φ}
    (hf : ∀ x k, t.fsms[n]? = some x → D k x.body → D k (f x).body) :
    KeyedFrom c D t (t.modify n f) := by
  have hkept : ∀ m k, t.Belongs D m k → (t.modify n f).Belongs D m k := by
    rintro m k ⟨x, hx, hD⟩
    refine ⟨_, getElem?_modify_of_some f hx, ?_⟩
    split
    · rename_i hnm
      exact hf x k (hnm ▸ hx) hD
    · exact hD
  refine ⟨⟨fun m hm => ?_, fun k m hk => hkept m k (h.found k m hk)⟩, hkept⟩
  rw [Roster.modify, List.length_modify] at hm
  obtain ⟨k, hself, hk⟩ := h.each m hm
  exact ⟨k, hself, hkept m k hk⟩

/-- A machine is added, and the map has it under its key or not at all. -/
theorem Keyed.append {c : Kit φ} {t' : Roster φ} (h : t.Keyed c D) {x : Instance φ}
    (hfsms : t'.fsms = t.fsms ++ [x]) {k : Key} (hself : k ≠ c.self) (hD : D k x.body)
    (hfind : ∀ k' n, t'.find k' = some n →
      t.find k' = some n ∨ k' = k ∧ n = t.fsms.length) : KeyedFrom c D t t' := by
  have hkept : ∀ n k', t.Belongs D n k' → t'.Belongs D n k' := by
    rintro n k' ⟨y, hy, hD'⟩
    refine ⟨y, ?_, hD'⟩
    rw [hfsms, List.getElem?_append_left (List.getElem?_eq_some_iff.1 hy).1, hy]
  have hadded : t'.Belongs D t.fsms.length k :=
    ⟨x, by rw [hfsms, List.getElem?_concat_length], hD⟩
  refine ⟨⟨fun n hn => ?_, fun k' n hk' => ?_⟩, hkept⟩
  · rw [hfsms, List.length_append, List.length_singleton] at hn
    rcases Nat.lt_succ_iff_lt_or_eq.1 hn with hlt | rfl
    · obtain ⟨k', hself', hk'⟩ := h.each n hlt
      exact ⟨k', hself', hkept n k' hk'⟩
    · exact ⟨k, hself, hadded⟩
  · rcases hfind k' n hk' with hold | ⟨rfl, rfl⟩
    · exact hkept n k' (h.found k' n hold)
    · exact hadded

theorem Keyed.stop {c : Kit φ} (h : t.Keyed c D) (n : ℕ) : KeyedFrom c D t (t.stop n) :=
  h.modify fun _ _ _ hk => hk

theorem Keyed.sweepOne {c : Kit φ} (h : t.Keyed c D) (seen : List Key) (k : Key) :
    KeyedFrom c D t (sweepOne seen t k) := by
  unfold Roster.sweepOne
  split
  · exact h.refl
  · rename_i n hn
    split
    · exact h.refl
    · obtain ⟨hkeyed, hkept⟩ := h.stop n
      refine ⟨⟨hkeyed.each, fun k' m hk' => ?_⟩, hkept⟩
      rw [find_drop] at hk'
      split at hk'
      · cases hk'
      · exact hkeyed.found k' m hk'

section Lists

variable {c : Kit φ} (hunique : ∀ k k' x, D k x → D k' x → k = k')
  (hnew : ∀ name p, D p.discoKey (c.new name p))
  (hupdate : ∀ p x, D p.discoKey x → D p.discoKey (c.update p x))

include hunique hnew hupdate

theorem Keyed.reconcileOne (h : t.Keyed c D) (p : RemotePeer) :
    KeyedFrom c D t (reconcileOne c t p) := by
  cases halive : t.panicked with
  | true =>
      rw [Roster.reconcileOne, if_pos (Or.inl halive)]
      exact h.refl
  | false =>
      rcases reconcileOne_cases c halive p with
        ⟨-, heq⟩ | ⟨hself, ⟨n, hn, heq⟩ | ⟨m, hm, -, heq⟩ | ⟨-, heq⟩⟩
      · rw [heq]
        exact h.refl
      · rw [heq]
        refine h.modify fun x k hx hk => ?_
        have hD := (h.found p.discoKey n hn).body hx
        rw [hunique k p.discoKey x.body hk hD]
        exact hupdate p x.body hD
      · rw [heq]
        refine h.append rfl hself (hnew _ p) fun k' n hk' => ?_
        rw [find_create hm] at hk'
        split at hk'
        · rename_i hkey
          exact Or.inr ⟨hkey, (Option.some.inj hk').symm⟩
        · exact Or.inl hk'
      · rw [heq]
        exact h.append rfl hself (hnew _ p) fun k' n hk' => Or.inl hk'

end Lists

theorem Keyed.shutdown {c : Kit φ} (h : t.Keyed c D) : KeyedFrom c D t t.shutdown := by
  have hstopped := KeyedFrom.foldl (f := Roster.stop) (fun _ n ht => ht.stop n)
    (Foundation.Assoc.values (t.peers.getD ∅)) h
  exact ⟨⟨hstopped.keyed.each, fun _ _ hk => by cases hk⟩, hstopped.kept⟩

end Keyed

end Roster

/-! ## Every run -/

def Setup.contacts (d : Setup) (pattern : IfacePattern) : Kit Contact where
  self := d.env.deps.self
  pattern := pattern
  new name p :=
    { machine :=
        { ifaceName := name
          box := .start (startRun p d.ifaceAddrs d.discoPort d.kernel) }
      heard := [] }
  update := Contact.announce

inductive Reader where
  | disco
  | signals
  deriving DecidableEq

structure Handover where
  sender : Key
  fsm : ℕ
  event : FsmEvent

/-- The machines, and what the reading loops hold: the lock is released between the look
into the map and the call of the machine. -/
structure Switchboard where
  roster : Roster Contact
  held : Reader → Option Handover

/-- What happens in a daemon: an entry of a list is reconciled, up to the snapshot, the
snapshot is stored, a key is swept that is not on the list, a reading loop looks up the
sender of a message it has opened, or hands over what it holds, the run loop of a machine
takes a step, or the daemon shuts down. -/
inductive Duty where
  | entry (p : RemotePeer)
  | store (n : ℕ)
  | sweep (seen : List Key) (k : Key)
  | udp (sender : Key) (src : AddrPort) (body : Body)
  | signal (sender : Key) (body : Body)
  | hand (r : Reader)
  | work (n : ℕ) (e : Env) (a : Action)
  | shutdown

namespace Switchboard

def new : Switchboard := ⟨.empty, fun _ => none⟩

/-- The loop looks into the map, unless it has still to call a machine. -/
def look (s : Switchboard) (r : Reader) (sender : Key) (event : FsmEvent) : Switchboard :=
  match s.held r, s.roster.find sender with
  | none, some fsm => { s with held := Function.update s.held r (some ⟨sender, fsm, event⟩) }
  | _, _ => s

def hand (s : Switchboard) (r : Reader) : Switchboard :=
  match s.held r with
  | none => s
  | some h =>
      { roster := s.roster.modify h.fsm fun x =>
          { x with body := x.body.hear h.sender h.event }
        held := Function.update s.held r none }

/-- The lock of the daemon keeps some of these apart; nothing below needs that. -/
def step (c : Kit Contact) (s : Switchboard) : Duty → Switchboard
  | .entry p => { s with roster := s.roster.reconcileOne c p }
  | .store n =>
      { s with roster := s.roster.modify n fun x => { x with body := x.body.store } }
  | .sweep seen k => { s with roster := s.roster.sweepOne seen k }
  | .udp sender src body => s.look .disco sender (.udp src body)
  | .signal sender body => s.look .signals sender (.signal body)
  | .hand r => s.hand r
  | .work n e a =>
      { s with roster := s.roster.modify n fun x => { x with body := x.body.work e a } }
  | .shutdown => { s with roster := s.roster.shutdown }

structure Inv (c : Kit Contact) (s : Switchboard) : Prop where
  keyed : s.roster.Keyed c fun k m => m.With k
  held : ∀ r h, s.held r = some h →
    s.roster.Belongs (fun k m => m.With k) h.fsm h.sender

variable {c : Kit Contact} {s : Switchboard}

theorem Inv.of_roster (h : s.Inv c) {t : Roster Contact}
    (ht : Roster.KeyedFrom c (fun k m => m.With k) s.roster t) :
    Inv c { s with roster := t } :=
  ⟨ht.keyed, fun r x hx => ht.kept _ _ (h.held r x hx)⟩

theorem Inv.hold (h : s.Inv c) (r : Reader) {x : Option Handover}
    (hx : ∀ y ∈ x, s.roster.Belongs (fun k m => m.With k) y.fsm y.sender) :
    Inv c { s with held := Function.update s.held r x } := by
  refine ⟨h.keyed, fun r' y hy => ?_⟩
  change Function.update s.held r x r' = some y at hy
  by_cases hr : r' = r
  · rw [hr, Function.update_self] at hy
    exact hx y hy
  · rw [Function.update_of_ne hr] at hy
    exact h.held r' y hy

theorem Inv.look (h : s.Inv c) (r : Reader) (sender : Key) (event : FsmEvent) :
    (s.look r sender event).Inv c := by
  unfold Switchboard.look
  split
  · rename_i fsm _ hfind
    refine h.hold r fun y hy => ?_
    rw [← Option.some.inj hy]
    exact h.keyed.found sender fsm hfind
  · exact h

theorem Inv.hand (h : s.Inv c) (r : Reader) : (s.hand r).Inv c := by
  unfold Switchboard.hand
  split
  · exact h
  · rename_i hd hheld
    refine (h.of_roster (h.keyed.modify fun x k hx hk => ?_)).hold r (by simp)
    have hwith := (h.held r hd hheld).body hx
    rw [hk.unique hwith]
    exact hwith.hear hd.event

theorem Inv.step {d : Setup} {pattern : IfacePattern} (h : s.Inv (d.contacts pattern))
    (a : Duty) : (s.step (d.contacts pattern) a).Inv (d.contacts pattern) := by
  cases a with
  | entry p =>
      refine h.of_roster (Roster.Keyed.reconcileOne ?_ ?_ ?_ h.keyed p)
      · exact fun k k' m hk hk' => hk.unique hk'
      · intro name p
        refine ⟨SealsFor.startRun .., fun p hp => ?_, by simp [Setup.contacts]⟩
        cases hp
      · exact fun p m hm => hm.announce rfl
  | store n => exact h.of_roster (h.keyed.modify fun x k _ hk => hk.store)
  | sweep seen k => exact h.of_roster (h.keyed.sweepOne seen k)
  | udp sender src body => exact h.look .disco sender _
  | signal sender body => exact h.look .signals sender _
  | hand r => exact h.hand r
  | work n e a => exact h.of_roster (h.keyed.modify fun x k _ hk => hk.work e a)
  | shutdown => exact h.of_roster h.keyed.shutdown

/-- Every machine converses with one peer. Whatever lists, messages, timers and steps of
the run loops come, in whatever interleaving, and whether the daemon has been shut down or not,
each machine that was ever made belongs to one key, which is not the node's own: all it
has sent was sealed for that key, and all that was handed to it was opened with that key
as the sender, also when the machine was dropped before it was called. While the map has
a machine, it has it under this key. -/
theorem conversations_run (d : Setup) (pattern : IfacePattern) (as : List Duty) :
    let s := as.foldl (step (d.contacts pattern)) new
    (∀ (n : ℕ) x, s.roster.fsms[n]? = some x →
      ∃! k, k ≠ d.env.deps.self ∧ x.body.With k) ∧
      ∀ k (n : ℕ) x, s.roster.find k = some n → s.roster.fsms[n]? = some x →
        x.body.With k := by
  intro s
  have hrun : s.Inv (d.contacts pattern) :=
    invariant_foldl (I := Inv (d.contacts pattern)) (fun _ a hs => hs.step a)
      ⟨Roster.keyed_empty _, fun _ _ hx => by cases hx⟩ as
  refine ⟨fun n x hx => ?_, fun k n x hk hx => ?_⟩
  · obtain ⟨k, hself, hk⟩ := hrun.keyed.each n (List.getElem?_eq_some_iff.1 hx).1
    exact ⟨k, ⟨hself, hk.body hx⟩, fun k' hk' => hk'.2.unique (hk.body hx)⟩
  · exact (hrun.keyed.found k n hk).body hx

end Switchboard

end Daemon

end Gretun
