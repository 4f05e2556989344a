import Gretun.Daemon.Mailbox
import Gretun.Foundation.Assoc

/-!
# Reconciling the table of machines

`reconcilePeers` brings the machines of a daemon in line with a list of peers: a
key that has no machine gets one, started on the entry as its snapshot, and a key
that has one gets an update call. Only the latter queues an event, so a machine
that is created with endpoints in its snapshot is not told that it has any.
-/

namespace Gretun

namespace Daemon

open Gretun.Net
open Gretun.Disco
open Gretun.Tunnel
open Foundation.Run

/-! ## Calls that are not interrupted -/

namespace Mailbox

def turn (e : Env) (ifaceAddrs : List IP) (m : Mailbox) : Mailbox :=
  m.dequeue.handle e ifaceAddrs fun _ _ => none

structure Quiet (m : Mailbox) : Prop where
  current : m.current = none
  pending : m.pending = none
  incoming : ∀ ev ∈ m.incoming, ev = .update

def outcome (m : Mailbox) : PeerState :=
  if m.incoming ≠ [] ∧ m.world.fsm.peer.endpoints ≠ [] ∧
      m.world.fsm.state = .unknown then .punching
  else m.world.fsm.state

theorem quiet_start (w : World) : (start w).Quiet :=
  ⟨rfl, rfl, by simp [start]⟩

theorem update_of_room {m : Mailbox} (hroom : m.incoming.length < incomingCap)
    (peer : RemotePeer) :
    m.update peer =
      { m with
        world := { m.world with fsm := { m.world.fsm with peer := peer } }
        incoming := m.incoming ++ [.update]
        pending := none
        last := some peer } := by
  simp [Mailbox.update, enqueueUpdate, enqueue, storePeer, hroom]

theorem update_of_full {m : Mailbox} (hquiet : m.Quiet)
    (hfull : ¬ m.incoming.length < incomingCap) (peer : RemotePeer) :
    m.update peer = m := by
  simp [Mailbox.update, enqueueUpdate, storePeer, hfull, hquiet.pending]

theorem Quiet.update {m : Mailbox} (h : m.Quiet) (peer : RemotePeer) :
    (m.update peer).Quiet := by
  by_cases hroom : m.incoming.length < incomingCap
  · rw [update_of_room hroom]
    refine ⟨h.current, rfl, fun ev hev => ?_⟩
    rcases List.mem_append.1 hev with hold | hnew
    · exact h.incoming ev hold
    · exact List.mem_singleton.1 hnew
  · rwa [update_of_full h hroom]

/-- What a series of update calls leaves behind, when none is dropped. -/
theorem update_foldl {m : Mailbox} {qs : List RemotePeer}
    (hroom : m.incoming.length + qs.length ≤ incomingCap) {p : RemotePeer}
    (hlast : qs.getLast? = some p) :
    let m' := qs.foldl (fun m q => m.update q) m
    m'.incoming ≠ [] ∧ m'.world.fsm.peer = p ∧
      m'.world.fsm.state = m.world.fsm.state := by
  induction qs generalizing m with
  | nil => cases hlast
  | cons q qs ih =>
      rw [List.length_cons] at hroom
      have hone : m.incoming.length < incomingCap := by omega
      rw [List.foldl_cons, update_of_room hone]
      cases qs with
      | nil =>
          obtain rfl := Option.some.inj hlast
          exact ⟨by simp, rfl, rfl⟩
      | cons r qs =>
          refine ih ?_ ((List.getLast?_cons_cons ..).symm.trans hlast)
          rw [List.length_append, List.length_singleton]
          omega

theorem turn_of_nil {e : Env} {addrs : List IP} {m : Mailbox} (h : m.Quiet)
    (hnil : m.incoming = []) : m.turn e addrs = m := by
  simp [turn, dequeue, Mailbox.handle, h.current, hnil]

theorem turn_of_cons {e : Env} {addrs : List IP} {m : Mailbox} (h : m.Quiet)
    {evs : List FsmEvent} (hcons : m.incoming = .update :: evs) :
    m.turn e addrs =
      { m with
        world := onPeerUpdate e m.world
        incoming := evs
        current := none } := by
  simp [turn, dequeue, Mailbox.handle, h.current, hcons, FsmEvent.event,
    Daemon.step]

/-- A turn of the loop brings the queue closer to its outcome. -/
theorem Quiet.turn {e : Env} {addrs : List IP} {m : Mailbox} (h : m.Quiet) :
    (m.turn e addrs).Quiet ∧ (m.turn e addrs).outcome = m.outcome := by
  cases hin : m.incoming with
  | nil =>
      rw [turn_of_nil h hin]
      exact ⟨h, rfl⟩
  | cons ev evs =>
      have hall := h.incoming
      rw [hin] at hall
      obtain rfl := hall ev List.mem_cons_self
      rw [turn_of_cons h hin]
      refine ⟨⟨rfl, h.pending, fun ev hev => hall ev (List.mem_cons_of_mem _ hev)⟩,
        ?_⟩
      by_cases hgo : m.world.fsm.peer.endpoints ≠ [] ∧
          m.world.fsm.state = .unknown
      · simp [outcome, hin, onPeerUpdate, hgo, World.setState]
      · have hstay : ∀ c : Prop, ¬ (c ∧ m.world.fsm.peer.endpoints ≠ [] ∧
            m.world.fsm.state = .unknown) := fun c hc => hgo hc.2
        rw [outcome, outcome, onPeerUpdate, if_neg hgo, if_neg (hstay _),
          if_neg (hstay _)]

theorem outcome_of_nil {m : Mailbox} (h : m.incoming = []) :
    m.outcome = m.world.fsm.state := by
  simp [outcome, h]

end Mailbox

/-! ## The table -/

/-- What the machines of one daemon share: their environment, the interface
pattern, the port of the disco socket, and the interface addresses and kernel they
start with. -/
structure Setup where
  env : Env
  iface : ℕ → String
  discoPort : ℕ
  ifaceAddrs : List IP
  kernel : Kernel

structure Machine where
  ifaceName : String
  box : Mailbox

def Machine.state (m : Machine) : PeerState := m.box.world.fsm.state

/-- The fields of `Daemon` that `reconcilePeers` works on, and the machines it has
stopped. -/
structure Table where
  peers : AList fun _ : Key => Machine
  ifaceSeq : ℕ
  stopped : List Machine

namespace Table

def empty : Table where
  peers := ∅
  ifaceSeq := 0
  stopped := []

def envOf (d : Setup) (m : Machine) : Env :=
  { d.env with deps := { d.env.deps with ifaceName := m.ifaceName } }

def launch (d : Setup) (seq : ℕ) (p : RemotePeer) : Machine where
  ifaceName := d.iface seq
  box := .start (startRun p d.ifaceAddrs d.discoPort d.kernel)

def reconcileOne (d : Setup) (t : Table) (p : RemotePeer) : Table :=
  if p.discoKey = d.env.deps.self then t
  else
    match t.peers.lookup p.discoKey with
    | none =>
        { t with
          peers := t.peers.insert p.discoKey (launch d t.ifaceSeq p)
          ifaceSeq := t.ifaceSeq + 1 }
    | some m =>
        { t with
          peers := t.peers.insert p.discoKey { m with box := m.box.update p } }

def sweepOne (seen : List Key) (t : Table) (k : Key) : Table :=
  match t.peers.lookup k with
  | none => t
  | some m =>
      if k ∈ seen then t
      else { t with peers := t.peers.erase k, stopped := t.stopped ++ [m] }

def seenKeys (d : Setup) (ps : List RemotePeer) : List Key :=
  (ps.map (·.discoKey)).filter (· ≠ d.env.deps.self)

def reconcilePeers (d : Setup) (t : Table) (ps : List RemotePeer) : Table :=
  let t := ps.foldl (reconcileOne d) t
  t.peers.keys.foldl (sweepOne (seenKeys d ps)) t

def turn (d : Setup) (t : Table) (k : Key) : Table :=
  match t.peers.lookup k with
  | none => t
  | some m =>
      { t with
        peers := t.peers.insert k
          { m with box := m.box.turn (envOf d m) d.ifaceAddrs } }

inductive Action where
  | reconcile (ps : List RemotePeer)
  | turn (k : Key)

def step (d : Setup) (t : Table) : Action → Table
  | .reconcile ps => reconcilePeers d t ps
  | .turn k => turn d t k

def Reached (d : Setup) (t : Table) : Prop :=
  ∃ as : List Action, as.foldl (step d) empty = t

def entriesOf (k : Key) (ps : List RemotePeer) : List RemotePeer :=
  ps.filter fun p => p.discoKey = k

/-- How many update calls `reconcilePeers` makes for `k`: the entry that creates
the machine is not one. -/
def updates (t : Table) (ps : List RemotePeer) (k : Key) : ℕ :=
  if k ∈ t.peers then (entriesOf k ps).length else (entriesOf k ps).length - 1

def NoneDropped (t : Table) (ps : List RemotePeer) (k : Key) : Prop :=
  ((t.peers.lookup k).map fun m => m.box.incoming.length).getD 0 +
    t.updates ps k ≤ incomingCap

/-- The state of `k` before a list comes in; a machine starts in the unknown
state. -/
def stateOf (t : Table) (k : Key) : PeerState :=
  ((t.peers.lookup k).map Machine.state).getD .unknown

/-! ## What a list does to one key -/

def boxOf (t : Table) (k : Key) : Option Mailbox :=
  (t.peers.lookup k).map Machine.box

def serve (d : Setup) (b : Option Mailbox) (p : RemotePeer) : Option Mailbox :=
  match b with
  | none => some (.start (startRun p d.ifaceAddrs d.discoPort d.kernel))
  | some b => some (b.update p)

theorem boxOf_reconcileOne (d : Setup) (t : Table) (p : RemotePeer) {k : Key}
    (hself : k ≠ d.env.deps.self) :
    (reconcileOne d t p).boxOf k =
      if p.discoKey = k then serve d (t.boxOf k) p else t.boxOf k := by
  unfold reconcileOne
  by_cases hk : p.discoKey = k
  · rw [if_pos hk, hk, if_neg hself, boxOf, boxOf]
    cases hlookup : t.peers.lookup k with
    | none =>
        simp only [AList.lookup_insert]
        rfl
    | some m =>
        simp only [AList.lookup_insert]
        rfl
  · rw [if_neg hk]
    split
    · rfl
    · split
      · rw [boxOf, AList.lookup_insert_ne (Ne.symm hk)]
        rfl
      · rw [boxOf, AList.lookup_insert_ne (Ne.symm hk)]
        rfl

theorem boxOf_foldl_reconcileOne (d : Setup) (t : Table) (ps : List RemotePeer)
    {k : Key} (hself : k ≠ d.env.deps.self) :
    (ps.foldl (reconcileOne d) t).boxOf k =
      (entriesOf k ps).foldl (serve d) (t.boxOf k) := by
  induction ps generalizing t with
  | nil => rfl
  | cons p ps ih =>
      rw [List.foldl_cons, ih, boxOf_reconcileOne d t p hself]
      by_cases hk : p.discoKey = k
      · simp [entriesOf, hk]
      · simp [entriesOf, hk]

theorem sweepOne_of_mem {seen : List Key} {k : Key} (hk : k ∈ seen) (t : Table)
    (k' : Key) : (sweepOne seen t k').boxOf k = t.boxOf k := by
  unfold sweepOne
  split
  · rfl
  · split
    · rfl
    · rename_i hunseen
      have hne : k ≠ k' := fun h => hunseen (h ▸ hk)
      rw [boxOf, AList.lookup_erase_ne hne]
      rfl

/-- A listed key comes out of `reconcilePeers` as its entries have left it. -/
theorem boxOf_reconcilePeers (d : Setup) (t : Table) {ps : List RemotePeer}
    {k : Key} (hself : k ≠ d.env.deps.self) (hlisted : entriesOf k ps ≠ []) :
    (reconcilePeers d t ps).boxOf k =
      (entriesOf k ps).foldl (serve d) (t.boxOf k) := by
  have hseen : k ∈ seenKeys d ps := by
    obtain ⟨p, hp⟩ := List.exists_mem_of_ne_nil _ hlisted
    have hmem := List.mem_filter.1 hp
    refine List.mem_filter.2 ⟨List.mem_map.2 ⟨p, hmem.1, ?_⟩, by simpa using hself⟩
    exact of_decide_eq_true hmem.2
  have hsweep : ∀ (ks : List Key) (t' : Table),
      (ks.foldl (sweepOne (seenKeys d ps)) t').boxOf k = t'.boxOf k := by
    intro ks t'
    exact List.foldlRecOn (motive := fun s : Table => s.boxOf k = t'.boxOf k) ks _
      rfl fun s hs k' _ => (sweepOne_of_mem hseen s k').trans hs
  rw [reconcilePeers, hsweep, boxOf_foldl_reconcileOne d t ps hself]

theorem foldl_serve_some (d : Setup) (b : Mailbox) (qs : List RemotePeer) :
    qs.foldl (serve d) (some b) = some (qs.foldl (fun b q => b.update q) b) := by
  induction qs generalizing b with
  | nil => rfl
  | cons q qs ih => exact ih (b.update q)

/-! ## Every queue stays quiet -/

def AllQuiet (t : Table) : Prop :=
  ∀ k m, t.peers.lookup k = some m → m.box.Quiet

theorem AllQuiet.insert {t : Table} (h : t.AllQuiet) {k : Key} {m : Machine}
    (hm : m.box.Quiet) {n : ℕ} {ms : List Machine} :
    AllQuiet ⟨t.peers.insert k m, n, ms⟩ := by
  intro k' m' hlookup
  rcases Foundation.Assoc.lookup_insert_cases hlookup with ⟨-, rfl⟩ | ⟨-, hold⟩
  · exact hm
  · exact h k' m' hold

theorem AllQuiet.reconcileOne {d : Setup} {t : Table} (h : t.AllQuiet)
    (p : RemotePeer) : (reconcileOne d t p).AllQuiet := by
  unfold Table.reconcileOne
  split
  · exact h
  · split
    · exact h.insert (Mailbox.quiet_start _)
    · rename_i m hlookup
      exact h.insert ((h _ m hlookup).update p)

theorem AllQuiet.sweepOne {t : Table} (h : t.AllQuiet) (seen : List Key)
    (k : Key) : (sweepOne seen t k).AllQuiet := by
  unfold Table.sweepOne
  split
  · exact h
  · split
    · exact h
    · intro k' m' hlookup
      exact h k' m' (Foundation.Assoc.lookup_of_lookup_erase hlookup).2

theorem AllQuiet.turn {d : Setup} {t : Table} (h : t.AllQuiet) (k : Key) :
    (turn d t k).AllQuiet := by
  unfold Table.turn
  split
  · exact h
  · rename_i m hlookup
    exact h.insert (h k m hlookup).turn.1

theorem AllQuiet.reconcilePeers {d : Setup} {t : Table} (h : t.AllQuiet)
    (ps : List RemotePeer) : (reconcilePeers d t ps).AllQuiet :=
  invariant_foldl (I := AllQuiet) (fun _ k ht => ht.sweepOne _ k)
    (invariant_foldl (I := AllQuiet) (fun _ p ht => ht.reconcileOne p) h ps) _

theorem Reached.allQuiet {d : Setup} {t : Table} (h : Reached d t) :
    t.AllQuiet := by
  obtain ⟨as, rfl⟩ := h
  refine invariant_foldl (I := AllQuiet) ?_ ?_ as
  · intro t a ht
    cases a with
    | reconcile ps => exact ht.reconcilePeers ps
    | turn k => exact ht.turn k
  · intro k m hlookup
    cases hlookup

/-! ## The states a list leads to -/

def LeadsTo (t : Table) (k : Key) (s : PeerState) : Prop :=
  ∃ m, t.peers.lookup k = some m ∧ m.box.Quiet ∧ m.box.outcome = s

theorem AllQuiet.leadsTo {t : Table} (h : t.AllQuiet) {k : Key} {b : Mailbox}
    {s : PeerState} (hbox : t.boxOf k = some b) (hb : b.outcome = s) :
    t.LeadsTo k s := by
  obtain ⟨m, hlookup, rfl⟩ := Option.map_eq_some_iff.1 hbox
  exact ⟨m, hlookup, h k m hlookup, hb⟩

theorem LeadsTo.turn {d : Setup} {t : Table} {k : Key} {s : PeerState}
    (h : t.LeadsTo k s) (k' : Key) : (turn d t k').LeadsTo k s := by
  obtain ⟨m, hlookup, hquiet, houtcome⟩ := h
  unfold Table.turn
  by_cases hk : k' = k
  · subst hk
    simp only [hlookup]
    refine ⟨_, AList.lookup_insert _, hquiet.turn.1, ?_⟩
    rw [hquiet.turn.2, houtcome]
  · cases t.peers.lookup k' with
    | none => exact ⟨m, hlookup, hquiet, houtcome⟩
    | some m' =>
        refine ⟨m, ?_, hquiet, houtcome⟩
        rw [AList.lookup_insert_ne (Ne.symm hk), hlookup]

theorem LeadsTo.state {d : Setup} {t : Table} {k : Key} {s : PeerState}
    (h : t.LeadsTo k s) {ks : List Key} {m : Machine}
    (hm : (ks.foldl (Table.turn d) t).peers.lookup k = some m)
    (hempty : m.box.incoming = []) : m.state = s := by
  obtain ⟨m', hlookup, -, houtcome⟩ :=
    invariant_foldl (I := fun t : Table => t.LeadsTo k s)
      (fun _ k' ht => ht.turn k') h ks
  obtain rfl := Option.some.inj (hm.symm.trans hlookup)
  rw [← houtcome, Mailbox.outcome_of_nil hempty]
  rfl

def stateAfter (s : PeerState) (n : ℕ) (p : RemotePeer) : PeerState :=
  if 0 < n ∧ p.endpoints ≠ [] ∧ s = .unknown then .punching else s

theorem outcome_eq_stateAfter {b : Mailbox} {n : ℕ} {p : RemotePeer}
    (hin : b.incoming ≠ []) (hn : 0 < n) (hpeer : b.world.fsm.peer = p) :
    b.outcome = stateAfter b.world.fsm.state n p := by
  simp [Mailbox.outcome, stateAfter, hin, hn, hpeer]

/-- A machine that is there is told about every entry. -/
theorem leadsTo_of_known {d : Setup} {t : Table} (hquiet : t.AllQuiet)
    {ps : List RemotePeer} {k : Key} (hself : k ≠ d.env.deps.self)
    {p : RemotePeer} (hlast : (entriesOf k ps).getLast? = some p) {m : Machine}
    (hlookup : t.peers.lookup k = some m)
    (hroom : m.box.incoming.length + (entriesOf k ps).length ≤ incomingCap) :
    (reconcilePeers d t ps).LeadsTo k
      (stateAfter m.state (entriesOf k ps).length p) := by
  have hlisted : entriesOf k ps ≠ [] := by
    rintro hnil
    rw [hnil] at hlast
    cases hlast
  have hwas : t.boxOf k = some m.box := by
    rw [boxOf, hlookup]
    rfl
  have hbox := boxOf_reconcilePeers d t hself hlisted
  rw [hwas, foldl_serve_some] at hbox
  obtain ⟨hin, hpeer, hsame⟩ := Mailbox.update_foldl hroom hlast
  refine (hquiet.reconcilePeers ps).leadsTo hbox ?_
  rw [outcome_eq_stateAfter hin (List.length_pos_iff.2 hlisted) hpeer, hsame]
  rfl

/-- A machine that is created is not told about its first entry. -/
theorem leadsTo_of_new {d : Setup} {t : Table} (hquiet : t.AllQuiet)
    {ps : List RemotePeer} {k : Key} (hself : k ≠ d.env.deps.self)
    {p : RemotePeer} (hlast : (entriesOf k ps).getLast? = some p)
    (hlookup : t.peers.lookup k = none)
    (hroom : (entriesOf k ps).length - 1 ≤ incomingCap) :
    (reconcilePeers d t ps).LeadsTo k
      (stateAfter .unknown ((entriesOf k ps).length - 1) p) := by
  have hwas : t.boxOf k = none := by
    rw [boxOf, hlookup]
    rfl
  cases hentries : entriesOf k ps with
  | nil =>
      rw [hentries] at hlast
      cases hlast
  | cons q qs =>
      rw [hentries, List.length_cons, Nat.add_sub_cancel] at hroom
      rw [hentries] at hlast
      have hbox := boxOf_reconcilePeers d t hself (by rw [hentries]; simp)
      rw [hwas, hentries, List.foldl_cons] at hbox
      change _ = qs.foldl (serve d) (some _) at hbox
      rw [foldl_serve_some] at hbox
      refine (hquiet.reconcilePeers ps).leadsTo hbox ?_
      cases qs with
      | nil => rfl
      | cons r qs =>
          obtain ⟨hin, hpeer, hsame⟩ := Mailbox.update_foldl
            (m := Mailbox.start (startRun q d.ifaceAddrs d.discoPort d.kernel))
            (by simpa [Mailbox.start] using hroom)
            ((List.getLast?_cons_cons ..).symm.trans hlast)
          rw [outcome_eq_stateAfter hin (Nat.succ_pos _) hpeer, hsame]
          rfl

/-- A list takes the machine of a listed key to a state that depends on its last
entry and on how often the machine is told. -/
theorem leadsTo_reconcilePeers {d : Setup} {t : Table} (hquiet : t.AllQuiet)
    {ps : List RemotePeer} {k : Key} (hself : k ≠ d.env.deps.self)
    {p : RemotePeer} (hlast : (entriesOf k ps).getLast? = some p)
    (hroom : t.NoneDropped ps k) :
    (reconcilePeers d t ps).LeadsTo k
      (stateAfter (t.stateOf k) (t.updates ps k) p) := by
  unfold NoneDropped at hroom
  cases hlookup : t.peers.lookup k with
  | some m =>
      have hknown : k ∈ t.peers := by
        rw [← AList.lookup_isSome, hlookup]
        rfl
      rw [hlookup, updates, if_pos hknown] at hroom
      rw [stateOf, hlookup, updates, if_pos hknown]
      exact leadsTo_of_known hquiet hself hlast hlookup hroom
  | none =>
      have hnew : k ∉ t.peers := AList.lookup_eq_none.1 hlookup
      rw [hlookup, updates, if_neg hnew] at hroom
      rw [stateOf, hlookup, updates, if_neg hnew]
      exact leadsTo_of_new hquiet hself hlast hlookup (by simpa using hroom)

theorem updates_pos_iff {t : Table} {ps : List RemotePeer} {k : Key}
    (hlisted : 0 < (entriesOf k ps).length) :
    0 < t.updates ps k ↔ k ∈ t.peers ∨ 2 ≤ (entriesOf k ps).length := by
  unfold updates
  split
  · rename_i hknown
    exact ⟨fun _ => Or.inl hknown, fun _ => hlisted⟩
  · rename_i hnew
    simp only [hnew, false_or]
    omega

theorem stateOf_of_updates_eq_zero {t : Table} {ps : List RemotePeer} {k : Key}
    (hlisted : 0 < (entriesOf k ps).length) (h : t.updates ps k = 0) :
    t.stateOf k = .unknown := by
  have hnew : k ∉ t.peers := by
    intro hknown
    rw [updates, if_pos hknown] at h
    omega
  rw [stateOf, AList.lookup_eq_none.2 hnew]
  rfl

theorem stateOf_of_lookup {t : Table} {k : Key} {m : Machine}
    (h : t.peers.lookup k = some m) : t.stateOf k = m.state := by
  rw [stateOf, h]
  rfl

def withoutEndpoints (p : RemotePeer) : RemotePeer := { p with endpoints := [] }

theorem entriesOf_withoutEndpoints (k : Key) (ps : List RemotePeer) :
    entriesOf k (ps.map withoutEndpoints) =
      (entriesOf k ps).map withoutEndpoints := by
  rw [entriesOf, entriesOf, List.filter_map]
  rfl

theorem length_entriesOf_pos {k : Key} {ps : List RemotePeer} {p : RemotePeer}
    (hlast : (entriesOf k ps).getLast? = some p) : 0 < (entriesOf k ps).length := by
  cases hentries : entriesOf k ps with
  | nil =>
      rw [hentries] at hlast
      cases hlast
  | cons q qs => exact Nat.succ_pos _

/-- A list without endpoints leaves the state of a key as it is and puts the key in
the table, so that every entry of the list that follows is an update. -/
theorem state_of_listed_twice {d : Setup} {t : Table} (hquiet : t.AllQuiet)
    {ps : List RemotePeer} {k : Key} (hself : k ≠ d.env.deps.self)
    {p : RemotePeer} (hlast : (entriesOf k ps).getLast? = some p)
    (hroom : t.NoneDropped ps k) {ks₁ ks₂ : List Key} {t₁ : Table}
    {m₁ m₂ : Machine}
    (ht₁ : ks₁.foldl (turn d) (reconcilePeers d t (ps.map withoutEndpoints)) = t₁)
    (hm₁ : t₁.peers.lookup k = some m₁) (hempty₁ : m₁.box.incoming = [])
    (hroom₁ : t₁.NoneDropped ps k)
    (hm₂ : (ks₂.foldl (turn d) (reconcilePeers d t₁ ps)).peers.lookup k = some m₂)
    (hempty₂ : m₂.box.incoming = []) :
    m₂.state = stateAfter (t.stateOf k) (entriesOf k ps).length p := by
  have hlast₁ : (entriesOf k (ps.map withoutEndpoints)).getLast? =
      some (withoutEndpoints p) := by
    rw [entriesOf_withoutEndpoints, List.getLast?_map, hlast]
    rfl
  have hroom' : t.NoneDropped (ps.map withoutEndpoints) k := by
    rw [NoneDropped, updates, entriesOf_withoutEndpoints, List.length_map]
    exact hroom
  have hquiet₁ : t₁.AllQuiet := by
    rw [← ht₁]
    exact invariant_foldl (I := AllQuiet) (fun _ k ht => ht.turn k)
      (hquiet.reconcilePeers _) ks₁
  have hstate₁ : m₁.state = t.stateOf k := by
    rw [← ht₁] at hm₁
    rw [(leadsTo_reconcilePeers hquiet hself hlast₁ hroom').state hm₁ hempty₁]
    simp [stateAfter, withoutEndpoints]
  have hknown₁ : k ∈ t₁.peers := by
    rw [← AList.lookup_isSome, hm₁]
    rfl
  rw [(leadsTo_reconcilePeers hquiet₁ hself hlast hroom₁).state hm₂ hempty₂,
    stateOf_of_lookup hm₁, hstate₁, updates, if_pos hknown₁]

/-- Let a list come in at any table that reconciling reaches, none of its updates
be dropped, and all events of a listed key be handled. If the last entry of the
key has endpoints, its machine is out of the unknown state exactly when the key
was in the table before or is listed twice. And then, or when there are no
endpoints, and only then, its state is the one it reaches when the list comes in
without endpoints first. -/
theorem reconcilePeers_state_iff {d : Setup} {t : Table} (ht : Reached d t)
    {ps : List RemotePeer} {k : Key} (hself : k ≠ d.env.deps.self)
    {p : RemotePeer} (hlast : (entriesOf k ps).getLast? = some p)
    (hroom : t.NoneDropped ps k) {ks : List Key} {m : Machine}
    (hm : (ks.foldl (turn d) (reconcilePeers d t ps)).peers.lookup k = some m)
    (hempty : m.box.incoming = []) :
    (p.endpoints ≠ [] →
      (m.state ≠ .unknown ↔ k ∈ t.peers ∨ 2 ≤ (entriesOf k ps).length)) ∧
    ∀ (ks₁ ks₂ : List Key) (t₁ : Table) (m₁ m₂ : Machine),
      ks₁.foldl (turn d) (reconcilePeers d t (ps.map withoutEndpoints)) = t₁ →
      t₁.peers.lookup k = some m₁ → m₁.box.incoming = [] →
      t₁.NoneDropped ps k →
      (ks₂.foldl (turn d) (reconcilePeers d t₁ ps)).peers.lookup k = some m₂ →
      m₂.box.incoming = [] →
      (m.state = m₂.state ↔
        p.endpoints = [] ∨ k ∈ t.peers ∨ 2 ≤ (entriesOf k ps).length) := by
  have hlisted := length_entriesOf_pos hlast
  have hstate : m.state = stateAfter (t.stateOf k) (t.updates ps k) p :=
    (leadsTo_reconcilePeers ht.allQuiet hself hlast hroom).state hm hempty
  rw [← updates_pos_iff hlisted, hstate]
  constructor
  · intro hne
    rcases Nat.eq_zero_or_pos (t.updates ps k) with hzero | hpos
    · simp [stateAfter, hzero, stateOf_of_updates_eq_zero hlisted hzero]
    · by_cases hunknown : t.stateOf k = .unknown
      · simp [stateAfter, hpos, hne, hunknown]
      · simp [stateAfter, hpos, hunknown]
  · intro ks₁ ks₂ t₁ m₁ m₂ ht₁ hm₁ hempty₁ hroom₁ hm₂ hempty₂
    rw [state_of_listed_twice ht.allQuiet hself hlast hroom ht₁ hm₁ hempty₁ hroom₁ hm₂
      hempty₂]
    rcases Nat.eq_zero_or_pos (t.updates ps k) with hzero | hpos
    · by_cases hne : p.endpoints = [] <;>
        simp [stateAfter, hzero, hlisted, hne,
          stateOf_of_updates_eq_zero hlisted hzero]
    · simp [stateAfter, hpos, hlisted]

def sampleSetup : Setup where
  env := sampleEnv
  iface seq := "gretun" ++ toString seq
  discoPort := 4000
  ifaceAddrs := []
  kernel := sampleKernel

/-- A peer that is listed without endpoints and then with them starts punching. -/
theorem state_of_listed_before :
    ∃ m, ([samplePeer.discoKey].foldl (turn sampleSetup) (reconcilePeers
        sampleSetup (reconcilePeers sampleSetup empty
          [withoutEndpoints samplePeer]) [samplePeer])).peers.lookup
            samplePeer.discoKey = some m ∧ m.state ≠ .unknown := by
  have hreached : Reached sampleSetup (reconcilePeers sampleSetup empty
      [withoutEndpoints samplePeer]) :=
    ⟨[.reconcile [withoutEndpoints samplePeer]], rfl⟩
  have hlast : (entriesOf samplePeer.discoKey [samplePeer]).getLast? =
      some samplePeer := by decide +kernel
  refine ⟨_, rfl, ?_⟩
  refine ((reconcilePeers_state_iff hreached (by decide) hlast
    (by unfold NoneDropped; decide +kernel)
    (rfl : ([samplePeer.discoKey].foldl (turn sampleSetup) _).peers.lookup _ = _)
    rfl).1 (by decide)).2 (Or.inl (by decide +kernel))

/-- A peer that is first listed with endpoints stays in the unknown state: its
queue is empty, and nothing has told it to start. -/
theorem state_of_listed_first :
    ∃ m, (reconcilePeers sampleSetup empty [samplePeer]).peers.lookup
        samplePeer.discoKey = some m ∧ m.box.incoming = [] ∧
      m.box.world.fsm.peer.endpoints ≠ [] ∧ m.state = .unknown :=
  ⟨_, rfl, rfl, by decide, rfl⟩

end Table

end Daemon

end Gretun
