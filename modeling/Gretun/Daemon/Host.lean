import Gretun.Daemon.Raise
import Gretun.Daemon.Shutdown
import Gretun.Tunnel.Inventory

/-!
# A whole run of the daemon

`Host` is `Run` from its first request to its return: it opens its receive port,
registers, serves until the context is done or a loop reports an error, shuts down and
drops the port it opened. The goroutines of the machines run beside it. They handle
events, make the requests of `bringUpTunnel` one by one, and end with the requests of
`teardown`; all requests go to one kernel and interleave in any order.

`Run` does not wait for these goroutines, and `teardown` drops a link but not a port
that `Create` has opened. When every goroutine has dropped its link before `Run` returns,
and no `Create` has to open its port, the kernel has exactly the links and ports it had when
`Run` was called.
-/

namespace Gretun

namespace Daemon

open Gretun.Net
open Gretun.Disco
open Gretun.Tunnel
open Foundation.Command
open Foundation.Interleave
open Foundation.Run

/-! ## The goroutine of a machine -/

/-- Where the goroutine is: between events, in the requests of `bringUpTunnel`, in
those of `teardown`, or at its end. -/
inductive Phase where
  | idle
  | raising (cfg : Config) (t : Thread NlCall NlCall.Resp Bool Hold)
  | deleting (t : Thread NlCall NlCall.Resp (Except TunnelErr Unit) Removal)
  | done

/-- A machine and its goroutine. The kernel in `world` is not looked at; the goroutines
share the one of `Host`. -/
structure Routine where
  env : Env
  world : World
  phase : Phase

namespace Routine

def name (r : Routine) : String := r.env.deps.ifaceName

/-- Go on when the requests are over: `bringUpTunnel` sets the flag, and after
`teardown` the goroutine is done. -/
def land (r : Routine) : Routine :=
  match r.phase with
  | .raising _ t =>
      match t.left with
      | .ret up =>
          { r with
            world := { r.world with fsm := { r.world.fsm with tunnelUp := up } }
            phase := .idle }
      | .call _ _ => r
  | .deleting t =>
      match t.left with
      | .ret _ => { r with phase := .done }
      | .call _ _ => r
  | _ => r

/-- Handle an event. `bringUpTunnel` reads the snapshot of the peer only after `Create`;
`seen` is what it finds there then. -/
def handle (ev : Event) (ifaceAddrs : List IP) (seen : RemotePeer) (r : Routine) :
    Routine :=
  let w := settle r.env r.world ⟨ev, ifaceAddrs, fun _ _ => none⟩
  match raises r.world ev with
  | none => { r with world := w }
  | some dst =>
      land { r with
        world := w
        phase := .raising (tunnelConfig r.env (firstGlobalV4 ifaceAddrs) dst)
          { ghost := {}
            left := raiseTunnel r.env ifaceAddrs dst { w.fsm with peer := seen } } }

def exit (r : Routine) : Routine :=
  if r.world.fsm.tunnelUp then
    land { r with phase := .deleting { ghost := {}, left := delete none r.name } }
  else { r with phase := .done }

def request (f : Fault) (r : Routine) (k : Kernel) : Routine × Kernel :=
  match r.phase with
  | .raising cfg t =>
      let a := t.advance (holding cfg) Kernel.handle f k
      (land { r with phase := .raising cfg a.1 }, a.2)
  | .deleting t =>
      let a := t.advance (removing r.name) Kernel.handle f k
      (land { r with phase := .deleting a.1 }, a.2)
  | _ => (r, k)

def next (r : Routine) : Option NlCall :=
  match r.phase with
  | .raising _ t => t.next
  | .deleting t => t.next
  | _ => none

def isIdle (r : Routine) : Bool :=
  match r.phase with
  | .idle => true
  | _ => false

/-- The next request is part of a deletion: of `teardown`, or of a rollback. -/
def deletes (r : Routine) : Bool :=
  match r.phase with
  | .deleting _ => true
  | _ =>
      match r.next with
      | some (.linkDel _) => true
      | some (.fouDel _) => true
      | _ => false

def opens (r : Routine) : Option Fou :=
  match r.next with
  | some (.fouAdd fou) => some fou
  | _ => none

end Routine

def Setup.routines (d : Setup) (pattern : IfacePattern) : Kit Routine where
  self := d.env.deps.self
  pattern := pattern
  new name p :=
    { env := { d.env with deps := { d.env.deps with ifaceName := name } }
      world := startRun p d.ifaceAddrs d.discoPort d.kernel
      phase := .idle }
  update p r :=
    { r with world := { r.world with fsm := { r.world.fsm with peer := p } } }

/-! ## `Run` -/

/-- Where `Run` is. `aborting`: the registration failed; `closing`: it has shut down;
in both the deferred calls are still to be made. -/
inductive Stage where
  | starting
  | registering
  | aborting
  | serving
  | closing
  | returned
  deriving DecidableEq

structure Host where
  stage : Stage
  fouOwned : Bool
  service : Service Routine
  kernel : Kernel

namespace Host

inductive Action where
  | ensureFOU (f : Fault)
  | register (ok : Bool)
  | daemon (a : Service.Action)
  | handle (n : ℕ) (ev : Event) (ifaceAddrs : List IP) (seen : RemotePeer)
  | exit (n : ℕ)
  | request (n : ℕ) (f : Fault)
  | removeFOU (f : Fault)

def start (d : Setup) : Host where
  stage := .starting
  fouOwned := false
  service := .start
  kernel := d.kernel

def routine (s : Host) (n : ℕ) : Option Routine :=
  match s.service.roster.fsms[n]? with
  | some x => if x.started then some x.body else none
  | none => none

/-- The machine at position `n` may leave its loop: the context is done or it was
stopped. -/
def mayExit (s : Host) (n : ℕ) : Bool :=
  s.service.ctxDone || (s.service.roster.fsms[n]?.map Instance.stopped).getD false

def setRoutine (s : Host) (n : ℕ) (r : Routine) : Host :=
  { s with service := { s.service with
      roster := s.service.roster.modify n fun x => { x with body := r } } }

def act (d : Setup) (pattern : IfacePattern) (s : Host) : Action → Host
  | .ensureFOU f =>
      if s.stage = .starting then
        let r := exec (Tunnel.ensureFOU d.env.deps.fouPort .fou) (fun _ _ => f) s.kernel
        match r.1 with
        | .error _ => { s with stage := .returned, kernel := r.2 }
        | .ok created =>
            { s with stage := .registering, fouOwned := created, kernel := r.2 }
      else s
  | .register ok =>
      if s.stage = .registering then
        { s with stage := if ok then .serving else .aborting }
      else s
  | .daemon a =>
      if s.stage = .serving ∨ s.stage = .closing then
        let service := s.service.step (d.routines pattern) a
        { s with service := service, stage := if service.shut then .closing else .serving }
      else s
  | .handle n ev ifaceAddrs seen =>
      match s.routine n with
      | some r => if r.isIdle then s.setRoutine n (r.handle ev ifaceAddrs seen) else s
      | none => s
  | .exit n =>
      match s.routine n with
      | some r => if r.isIdle && s.mayExit n then s.setRoutine n r.exit else s
      | none => s
  | .request n f =>
      match s.routine n with
      | some r =>
          let a := r.request f s.kernel
          { s.setRoutine n a.1 with kernel := a.2 }
      | none => s
  | .removeFOU f =>
      if s.stage = .aborting ∨ s.stage = .closing then
        if s.fouOwned then
          { s with
            stage := .returned
            kernel := (exec (Tunnel.removeFOU d.env.deps.fouPort) (fun _ _ => f)
              s.kernel).2 }
        else { s with stage := .returned }
      else s

/-- One step. A panic ends the process, and nothing is looked at after `Run` has
returned. -/
def step (d : Setup) (pattern : IfacePattern) (s : Host) (a : Action) : Host :=
  if s.service.roster.panicked ∨ s.stage = .returned then s else s.act d pattern a

/-! ## What is asked of a run -/

/-- The deletions succeed: those of a rollback and of `teardown`, the look-up in the
latter included, and the one of the deferred call. -/
def DeletionsSucceed (s : Host) : Action → Prop
  | .request n f => ∀ r ∈ s.routine n, r.deletes = true → f = none
  | .removeFOU f => f = none
  | _ => True

/-- A `Create` that asks for its receive port finds it open. -/
def PortOpen (s : Host) : Action → Prop
  | .request n _ => ∀ r ∈ s.routine n, ∀ fou ∈ r.opens, fou.key ∈ s.kernel.fous
  | _ => True

instance (s : Host) : (a : Action) → Decidable (s.DeletionsSucceed a)
  | .request n f =>
      inferInstanceAs (Decidable (∀ r ∈ s.routine n, r.deletes = true → f = none))
  | .removeFOU f => inferInstanceAs (Decidable (f = none))
  | .ensureFOU _ => inferInstanceAs (Decidable True)
  | .register _ => inferInstanceAs (Decidable True)
  | .daemon _ => inferInstanceAs (Decidable True)
  | .handle _ _ _ _ => inferInstanceAs (Decidable True)
  | .exit _ => inferInstanceAs (Decidable True)

instance (s : Host) : (a : Action) → Decidable (s.PortOpen a)
  | .request n _ => inferInstanceAs (Decidable
      (∀ r ∈ s.routine n, ∀ fou ∈ r.opens, fou.key ∈ s.kernel.fous))
  | .removeFOU _ => inferInstanceAs (Decidable True)
  | .ensureFOU _ => inferInstanceAs (Decidable True)
  | .register _ => inferInstanceAs (Decidable True)
  | .daemon _ => inferInstanceAs (Decidable True)
  | .handle _ _ _ _ => inferInstanceAs (Decidable True)
  | .exit _ => inferInstanceAs (Decidable True)

end Host

/-! ## What a machine holds -/

namespace Routine

/-- The name of the link that the machine has made and not deleted. -/
def own (r : Routine) : List String :=
  match r.phase with
  | .idle => if r.world.fsm.tunnelUp then [r.name] else []
  | .raising _ t => t.ghost.own r.name
  | .deleting t => t.ghost.own r.name
  | .done => []

structure Raising (r : Routine) (cfg : Config)
    (t : Thread NlCall NlCall.Resp Bool Hold) : Prop where
  name : cfg.name = r.name
  down : r.world.fsm.tunnelUp = false
  follows : ∃ ifaceAddrs,
    Follows (holding cfg) (RaiseHolds ifaceAddrs cfg) t.ghost t.left
  opened : t.ghost.opened = false
  kept : t.ghost.kept = false

structure Deleting (k : Kernel) (name : String)
    (t : Thread NlCall NlCall.Resp (Except TunnelErr Unit) Removal) : Prop where
  follows : Follows (removing name) DeleteEnds t.ghost t.left
  tracks : t.ghost.Tracks name k

/-- A machine with a tunnel has a name that `Delete` accepts, and its requests follow
their discipline. -/
structure Sane (k : Kernel) (r : Routine) : Prop where
  valid : r.world.fsm.tunnelUp = true → validateTunnelName r.name = .ok ()
  raising : ∀ cfg t, r.phase = .raising cfg t → r.Raising cfg t
  deleting : ∀ t, r.phase = .deleting t → Deleting k r.name t

/-- Requests of others that leave its link alone do not disturb a machine. -/
theorem Sane.congr {k k' : Kernel} {r : Routine} (h : r.Sane k)
    (hlinks : ∀ n ∈ r.own, k'.links.lookup n = k.links.lookup n) : r.Sane k' := by
  refine ⟨h.valid, h.raising, fun t ht => ?_⟩
  obtain ⟨hfollows, htracks⟩ := h.deleting t ht
  refine ⟨hfollows, htracks.lost, fun l hl hgone => ?_⟩
  rw [hlinks r.name]
  · exact htracks.found l hl hgone
  · simp [own, ht, Removal.own, hgone]

theorem sane_of_phase {k : Kernel} {r : Routine}
    (hvalid : r.world.fsm.tunnelUp = true → validateTunnelName r.name = .ok ())
    (hphase : r.phase = .idle ∨ r.phase = .done) : r.Sane k := by
  refine ⟨hvalid, fun cfg t ht => ?_, fun t ht => ?_⟩ <;>
    rcases hphase with hphase | hphase <;> cases hphase.symm.trans ht

theorem land_raising {k : Kernel} {r : Routine} {cfg : Config}
    {t : Thread NlCall NlCall.Resp Bool Hold} (h : r.Raising cfg t) :
    (land { r with phase := .raising cfg t }).Sane k ∧
      (land { r with phase := .raising cfg t }).own = t.ghost.own r.name := by
  obtain ⟨ifaceAddrs, hfollows⟩ := h.follows
  cases hleft : t.left with
  | call c k' =>
      simp only [land, hleft]
      refine ⟨⟨fun hup => ?_, fun cfg' t' ht => ?_, fun t' ht => ?_⟩, rfl⟩
      · exact absurd (h.down.symm.trans hup) (by simp)
      · cases ht
        exact ⟨h.name, h.down, h.follows, h.opened, h.kept⟩
      · cases ht
  | ret up =>
      rw [hleft] at hfollows
      have hlink := hfollows.link_eq h.kept
      simp only [land, hleft]
      refine ⟨sane_of_phase (fun hup => ?_) (Or.inl rfl), ?_⟩
      · obtain rfl : up = true := hup
        exact h.name ▸ hfollows.validateTunnelName
      · simp [own, Hold.own, hlink, name]

theorem land_deleting {k : Kernel} {r : Routine}
    (hvalid : r.world.fsm.tunnelUp = true → validateTunnelName r.name = .ok ())
    {t : Thread NlCall NlCall.Resp (Except TunnelErr Unit) Removal}
    (h : Deleting k r.name t)
    (hlink : r.name ∈ t.ghost.own r.name → ∃ g, k.links.lookup r.name = some (.gretun g)) :
    (land { r with phase := .deleting t }).Sane k ∧
      (land { r with phase := .deleting t }).own = t.ghost.own r.name := by
  cases hleft : t.left with
  | call c k' =>
      simp only [land, hleft]
      refine ⟨⟨hvalid, fun cfg' t' ht => ?_, fun t' ht => ?_⟩, rfl⟩
      · cases ht
      · cases ht
        exact h
  | ret x =>
      have hends := h.follows
      rw [hleft] at hends
      have hgone : t.ghost.gone = true := by
        rcases hends with hgone | hlost | ⟨hgone, l, hfound, htype⟩
        · exact hgone
        · exact absurd (h.tracks.lost.symm.trans hlost) (by simp)
        · obtain ⟨g, hg⟩ := hlink (by simp [Removal.own, hgone])
          obtain rfl : l = .gretun g :=
            Option.some.inj ((h.tracks.found l hfound hgone).symm.trans hg)
          exact absurd rfl htype
      simp only [land, hleft]
      refine ⟨sane_of_phase hvalid (Or.inr rfl), ?_⟩
      simp [own, Removal.own, hgone]

theorem phase_of_isIdle {r : Routine} (h : r.isIdle = true) : r.phase = .idle := by
  unfold isIdle at h
  split at h
  · assumption
  · cases h

/-- Handling an event makes no request, so the machine holds what it held. -/
theorem Sane.handle {k : Kernel} {r : Routine} (h : r.Sane k) (hidle : r.isIdle = true)
    (ev : Event) (ifaceAddrs : List IP) (seen : RemotePeer) :
    (r.handle ev ifaceAddrs seen).Sane k ∧
      (r.handle ev ifaceAddrs seen).own = r.own := by
  have hphase := phase_of_isIdle hidle
  have hflag := tunnelUp_settle r.env r.world ⟨ev, ifaceAddrs, fun _ _ => none⟩
  unfold Routine.handle
  cases raises r.world ev with
  | none =>
      refine ⟨sane_of_phase (fun hup => h.valid (hflag.symm.trans hup)) (Or.inl hphase),
        ?_⟩
      simp only [own, hphase, hflag]
      rfl
  | some dst =>
      simp only
      cases hup : r.world.fsm.tunnelUp with
      | true =>
          rw [hup] at hflag
          simp only [raiseTunnel, hflag, if_true, land]
          refine ⟨sane_of_phase (fun _ => h.valid hup) (Or.inl rfl), ?_⟩
          simp [own, hphase, hup, name]
      | false =>
          rw [hup] at hflag
          have hraising : Raising
              { r with world := settle r.env r.world ⟨ev, ifaceAddrs, fun _ _ => none⟩ }
              (tunnelConfig r.env (firstGlobalV4 ifaceAddrs) dst)
              ⟨{}, raiseTunnel r.env ifaceAddrs dst
                { (settle r.env r.world ⟨ev, ifaceAddrs, fun _ _ => none⟩).fsm with
                  peer := seen }⟩ :=
            ⟨rfl, hflag, ⟨ifaceAddrs, follows_raiseTunnel r.env ifaceAddrs dst hflag⟩,
              rfl, rfl⟩
          obtain ⟨hsane, hown⟩ := land_raising (k := k) hraising
          refine ⟨hsane, hown.trans ?_⟩
          simp [own, hphase, hup, Hold.own]

theorem Sane.exit {k : Kernel} {r : Routine} (h : r.Sane k) (hidle : r.isIdle = true)
    (hlink : r.name ∈ r.own → ∃ g, k.links.lookup r.name = some (.gretun g)) :
    r.exit.Sane k ∧ r.exit.own = r.own := by
  have hphase := phase_of_isIdle hidle
  unfold Routine.exit
  cases hup : r.world.fsm.tunnelUp with
  | false =>
      simp only [Bool.false_eq_true, if_false]
      refine ⟨sane_of_phase h.valid (Or.inr rfl), ?_⟩
      simp [own, hphase, hup]
  | true =>
      have hown : r.own = [r.name] := by simp [own, hphase, hup]
      simp only [if_true]
      rw [hown] at hlink ⊢
      refine land_deleting h.valid ⟨follows_delete (h.valid hup), rfl, ?_⟩
        fun _ => hlink List.mem_cons_self
      intro l hl
      cases hl

/-- What a request of one machine leaves: the machine as it should be, its link
accounted for, and the ports and the links of others as they were. -/
structure Keeps (k₀ k : Kernel) (others : List String) (a : Routine × Kernel) :
    Prop where
  sane : a.1.Sane a.2
  inventory : Inventory k₀ (a.1.own ++ others) a.2
  fous : a.2.fous = k.fous
  links : ∀ n ∈ others, a.2.links.lookup n = k.links.lookup n

theorem keeps_raising {k₀ k : Kernel} {others : List String} {r : Routine}
    {cfg : Config} {t : Thread NlCall NlCall.Resp Bool Hold} {f : Fault}
    (h : r.Raising cfg t) (hinv : Inventory k₀ (t.ghost.own r.name ++ others) k)
    (hdel : ∀ l, t.next = some (.linkDel l) → f = none)
    (hport : ∀ fou, t.next = some (.fouAdd fou) → fou.key ∈ k.fous) :
    Keeps k₀ k others
      (land { r with phase := .raising cfg (t.advance (holding cfg) Kernel.handle f k).1 },
        (t.advance (holding cfg) Kernel.handle f k).2) := by
  obtain ⟨ifaceAddrs, hfollows⟩ := h.follows
  cases hleft : t.left with
  | ret up =>
      rw [Thread.advance_of_ret hleft]
      obtain ⟨hsane, hown⟩ := land_raising (k := k) h
      exact ⟨hsane, hown.symm ▸ hinv, rfl, fun _ _ => rfl⟩
  | call c kont =>
      have hnext : t.next = some c := by rw [Thread.next, hleft]
      have hfollows' := hfollows.advance (h := Kernel.handle) (f := f) k
      rw [hleft] at hfollows
      rw [Thread.advance_of_call hleft] at hfollows' ⊢
      rw [← h.name] at hinv
      have hallows : t.ghost.allows cfg c := hfollows.1
      have hstep := linkStep_handle hallows f k
      obtain ⟨hopened, hkept, hfous⟩ := clean_of_handle (f := f) (k := k) hallows
        h.opened h.kept (fun fou hc => hport fou (hc ▸ hnext))
        (fun l hc => hdel l (hc ▸ hnext))
        fun hlink => hinv.mem_links (by simp [Hold.own, hlink])
      obtain ⟨hsane, hown⟩ := land_raising (k := (Kernel.handle f c k).2) (r := r)
        ⟨h.name, h.down, ⟨ifaceAddrs, hfollows'⟩, hopened, hkept⟩
      refine ⟨hsane, ?_, hfous, fun n hn => hinv.lookup_of_linkStep hstep hn⟩
      rw [hown, ← h.name]
      exact hinv.linkStep hstep

theorem keeps_deleting {k₀ k : Kernel} {others : List String} {r : Routine}
    (hvalid : r.world.fsm.tunnelUp = true → validateTunnelName r.name = .ok ())
    {t : Thread NlCall NlCall.Resp (Except TunnelErr Unit) Removal}
    (h : Deleting k r.name t)
    (hinv : Inventory k₀ (t.ghost.own r.name ++ others) k) :
    Keeps k₀ k others
      (land { r with
          phase := .deleting (t.advance (removing r.name) Kernel.handle none k).1 },
        (t.advance (removing r.name) Kernel.handle none k).2) := by
  have hgre : ∀ {g : Removal} {k : Kernel},
      Inventory k₀ (g.own r.name ++ others) k → r.name ∈ g.own r.name →
      ∃ gre, k.links.lookup r.name = some (.gretun gre) := by
    intro g k hinv hmem
    obtain ⟨-, gre, -, hlookup⟩ := hinv.mine r.name (List.mem_append_left _ hmem)
    exact ⟨gre, hlookup⟩
  cases hleft : t.left with
  | ret x =>
      rw [Thread.advance_of_ret hleft]
      obtain ⟨hsane, hown⟩ := land_deleting hvalid h (hgre hinv)
      exact ⟨hsane, hown.symm ▸ hinv, rfl, fun _ _ => rfl⟩
  | call c kont =>
      have hfollows := h.follows
      have hfollows' := hfollows.advance (h := Kernel.handle) (f := none) k
      rw [hleft] at hfollows
      rw [Thread.advance_of_call hleft] at hfollows' ⊢
      obtain ⟨hinv', htracks, hfous, hlinks⟩ := hinv.removal h.tracks hfollows.1
      obtain ⟨hsane, hown⟩ := land_deleting hvalid ⟨hfollows', htracks⟩ (hgre hinv')
      exact ⟨hsane, hown.symm ▸ hinv', hfous, hlinks⟩

theorem Sane.request {k₀ k : Kernel} {others : List String} {r : Routine} {f : Fault}
    (h : r.Sane k) (hinv : Inventory k₀ (r.own ++ others) k)
    (hdel : r.deletes = true → f = none) (hport : ∀ fou ∈ r.opens, fou.key ∈ k.fous) :
    Keeps k₀ k others (r.request f k) := by
  unfold Routine.request
  cases hphase : r.phase with
  | idle => exact ⟨h, hinv, rfl, fun _ _ => rfl⟩
  | done => exact ⟨h, hinv, rfl, fun _ _ => rfl⟩
  | raising cfg t =>
      have hown : r.own = t.ghost.own r.name := by simp [own, hphase]
      refine keeps_raising (h.raising cfg t hphase) (hown ▸ hinv) ?_ ?_
      · intro l hl
        exact hdel (by simp [deletes, next, hphase, hl])
      · intro fou hfou
        exact hport fou (by simp [opens, next, hphase, hfou])
  | deleting t =>
      have hown : r.own = t.ghost.own r.name := by simp [own, hphase]
      obtain rfl := hdel (by simp [deletes, hphase])
      exact keeps_deleting h.valid (h.deleting t hphase) (hown ▸ hinv)

end Routine

/-! ## What the host holds -/

structure Ports (k₀ : Kernel) (key : ℕ × Port) (owned : Bool) (k : Kernel) : Prop where
  mine : owned = true → key ∉ k₀.fous ∧ key ∈ k.fous
  rest : ∀ q, (owned = true → q ≠ key) → k.fous.lookup q = k₀.fous.lookup q

theorem Ports.congr {k₀ k k' : Kernel} {key : ℕ × Port} {owned : Bool}
    (h : Ports k₀ key owned k) (hfous : k'.fous = k.fous) : Ports k₀ key owned k' := by
  refine ⟨fun howned => ?_, fun q hq => ?_⟩
  · rw [hfous]
    exact h.mine howned
  · rw [hfous]
    exact h.rest q hq

theorem ports_ensureFOU {k₀ k : Kernel} {port : Port}
    (h : Ports k₀ (afInet, port) false k) (f : Fault) :
    (∃ e, (exec (ensureFOU port .fou) (fun _ _ => f) k) = (.error e, k)) ∨
      ∃ created k', (exec (ensureFOU port .fou) (fun _ _ => f) k) = (.ok created, k') ∧
        k'.links = k.links ∧ Ports k₀ (afInet, port) created k' := by
  cases f with
  | some e =>
      by_cases he : e = .errno .EEXIST
      · refine Or.inr ⟨false, k, ?_, rfl, h⟩
        simp [exec, ensureFOU, request, Prog.perform_bind, Prog.run, Kernel.failResp, he]
      · refine Or.inl ⟨e, ?_⟩
        simp [exec, ensureFOU, request, Prog.perform_bind, Prog.run, Kernel.failResp, he]
  | none =>
      by_cases hopen : (fouFor port .fou).key ∈ k.fous
      · refine Or.inr ⟨false, k, ?_, rfl, h⟩
        simp [exec, ensureFOU, request, Prog.perform_bind, Prog.run, Kernel.perform,
          Kernel.fouAdd, hopen]
      · have hnot : (afInet, port) ∉ k₀.fous := by
          rwa [← AList.lookup_eq_none, ← h.rest _ (by simp), AList.lookup_eq_none]
        have hexec : exec (ensureFOU port .fou) (fun _ _ => none) k =
            (.ok true,
              { k with fous := k.fous.insert (afInet, port) (fouFor port .fou) }) := by
          simp [exec, ensureFOU, request, Prog.perform_bind, Prog.run, Kernel.perform,
            Kernel.fouAdd, hopen]
          rfl
        refine Or.inr ⟨true, _, hexec, rfl, fun _ => ⟨hnot, ?_⟩, fun q hq => ?_⟩
        · exact (AList.mem_insert _).2 (Or.inl rfl)
        · rw [AList.lookup_insert_ne (hq rfl)]
          exact h.rest q (by simp)

theorem Ports.removeFOU {k₀ k : Kernel} {port : Port}
    (h : Ports k₀ (afInet, port) true k) :
    (exec (removeFOU port) (fun _ _ => none) k).2.links = k.links ∧
      ∀ q, (exec (removeFOU port) (fun _ _ => none) k).2.fous.lookup q =
        k₀.fous.lookup q := by
  obtain ⟨hnot, hmem⟩ := h.mine rfl
  have hexec : exec (Tunnel.removeFOU port) (fun _ _ => none) k =
      ((), { k with fous := k.fous.erase (afInet, port) }) := by
    simp [exec, Tunnel.removeFOU, rollbackFOU, request, Prog.run, Kernel.perform,
      Kernel.fouDel, Fou.key, hmem]
  rw [hexec]
  refine ⟨rfl, fun q => ?_⟩
  by_cases hq : q = (afInet, port)
  · subst hq
    rw [AList.lookup_erase, AList.lookup_eq_none.2 hnot]
  · rw [AList.lookup_erase_ne hq]
    exact h.rest q fun _ => hq

namespace Host

variable {d : Setup} {pattern : IfacePattern} {s : Host}

def own (s : Host) : List String := s.service.roster.bodies.flatMap Routine.own

/-- `Run` makes its last deferred call when no machine holds a link any more. -/
def ReturnsLast (s : Host) : Action → Prop
  | .removeFOU _ => s.own = []
  | _ => True

instance (s : Host) : (a : Action) → Decidable (s.ReturnsLast a)
  | .removeFOU _ => inferInstanceAs (Decidable (s.own = []))
  | .request _ _ => inferInstanceAs (Decidable True)
  | .ensureFOU _ => inferInstanceAs (Decidable True)
  | .register _ => inferInstanceAs (Decidable True)
  | .daemon _ => inferInstanceAs (Decidable True)
  | .handle _ _ _ _ => inferInstanceAs (Decidable True)
  | .exit _ => inferInstanceAs (Decidable True)

structure Inv (d : Setup) (s : Host) : Prop where
  inventory : Inventory d.kernel s.own s.kernel
  sane : ∀ r ∈ s.service.roster.bodies, r.Sane s.kernel
  ports : Ports d.kernel (afInet, d.env.deps.fouPort) s.fouOwned s.kernel
  fresh : s.stage = .starting → s.fouOwned = false ∧ s.service.roster.fsms = []

def Unchanged (d : Setup) (s : Host) : Prop :=
  (∀ n, s.kernel.links.lookup n = d.kernel.links.lookup n) ∧
    ∀ q, s.kernel.fous.lookup q = d.kernel.fous.lookup q

/-- A machine whose goroutine runs, and those around it. -/
theorem exists_split_routine {n : ℕ} {r : Routine} (h : s.routine n = some r) :
    ∃ l₁ l₂, s.service.roster.bodies = l₁ ++ r :: l₂ ∧
      ∀ r', (s.setRoutine n r').service.roster.bodies = l₁ ++ r' :: l₂ := by
  have hbody : s.service.roster.bodies[n]? = some r := by
    unfold routine at h
    rw [Roster.bodies, List.getElem?_map]
    split at h
    · rename_i x hx
      split at h
      · rw [hx, ← h]
        rfl
      · cases h
    · cases h
  obtain ⟨l₁, l₂, hsplit, hmodify⟩ := Roster.exists_split hbody
  refine ⟨l₁, l₂, hsplit, fun r' => ?_⟩
  rw [← hmodify fun _ => r']
  exact Roster.bodies_modify _ n fun _ => rfl

theorem flatMap_own_perm (l₁ l₂ : List Routine) (r : Routine) :
    ((l₁ ++ r :: l₂).flatMap Routine.own).Perm
      (r.own ++ (l₁.flatMap Routine.own ++ l₂.flatMap Routine.own)) := by
  rw [List.flatMap_append, List.flatMap_cons]
  exact List.perm_append_comm_assoc _ _ _

/-- What one machine does keeps the invariant of the host. -/
theorem Inv.setRoutine (h : s.Inv d) {n : ℕ} {r : Routine} (hn : s.routine n = some r)
    {a : Routine × Kernel}
    (hkeeps : ∀ others, r.Sane s.kernel →
      Inventory d.kernel (r.own ++ others) s.kernel →
      Routine.Keeps d.kernel s.kernel others a) :
    Inv d { s.setRoutine n a.1 with kernel := a.2 } := by
  obtain ⟨l₁, l₂, hsplit, hset⟩ := exists_split_routine hn
  have hinv := h.inventory
  have hsane := h.sane
  rw [own, hsplit] at hinv
  rw [hsplit] at hsane
  obtain ⟨hsane', hinv', hfous, hlinks⟩ :=
    hkeeps _ (hsane r (by simp)) (hinv.perm (flatMap_own_perm l₁ l₂ r))
  refine ⟨?_, ?_, h.ports.congr hfous, fun hstage => ?_⟩
  · change Inventory _ ((s.setRoutine n a.1).service.roster.bodies.flatMap _) _
    rw [hset]
    exact hinv'.perm (flatMap_own_perm l₁ l₂ a.1).symm
  · intro r' hr'
    change r' ∈ (s.setRoutine n a.1).service.roster.bodies at hr'
    rw [hset, List.mem_append, List.mem_cons] at hr'
    have hother : ∀ r' ∈ l₁ ++ l₂, r'.Sane a.2 := by
      intro r' hr'
      refine (hsane r' ?_).congr fun m hm => hlinks m ?_
      · rw [List.mem_append] at hr' ⊢
        exact hr'.imp_right (List.mem_cons_of_mem _)
      · rw [← List.flatMap_append]
        exact List.mem_flatMap.2 ⟨r', hr', hm⟩
    rcases hr' with hr' | rfl | hr'
    · exact hother r' (List.mem_append_left _ hr')
    · exact hsane'
    · exact hother r' (List.mem_append_right _ hr')
  · have hempty := (h.fresh hstage).2
    rw [routine, hempty] at hn
    cases hn

def Kept (d : Setup) (k : Kernel) (rs : List Routine) : Prop :=
  Inventory d.kernel (rs.flatMap Routine.own) k ∧ ∀ r ∈ rs, r.Sane k

/-- Neither an update nor a new machine has to do with the kernel. -/
theorem Kept.reconcilePeers {k : Kernel} {t : Roster Routine} (h : Kept d k t.bodies)
    (ps : List RemotePeer) :
    Kept d k (t.reconcilePeers (d.routines pattern) ps).bodies := by
  refine Roster.bodies_reconcilePeers (Q := Kept d k) ?_ ?_ h ps
  · rintro l₁ r l₂ p ⟨hinv, hsane⟩
    have hown : ((d.routines pattern).update p r).own = r.own := rfl
    refine ⟨?_, fun r' hr' => ?_⟩
    · rw [List.flatMap_append, List.flatMap_cons, hown, ← List.flatMap_cons,
        ← List.flatMap_append]
      exact hinv
    · rw [List.mem_append, List.mem_cons] at hr'
      rcases hr' with hr' | rfl | hr'
      · exact hsane r' (by simp [hr'])
      · have hr := hsane r (by simp)
        refine ⟨hr.valid, fun cfg t ht => ?_, hr.deleting⟩
        obtain ⟨hname, hdown, hfollows, hopened, hkept⟩ := hr.raising cfg t ht
        exact ⟨hname, hdown, hfollows, hopened, hkept⟩
      · exact hsane r' (by simp [hr'])
  · rintro l name p ⟨hinv, hsane⟩
    refine ⟨?_, fun r' hr' => ?_⟩
    · have hown : ((d.routines pattern).new name p).own = [] := rfl
      rwa [List.flatMap_append, List.flatMap_singleton, hown, List.append_nil]
    · rcases List.mem_append.1 hr' with hr' | hr'
      · exact hsane r' hr'
      · obtain rfl := List.mem_singleton.1 hr'
        refine Routine.sane_of_phase (fun hup => ?_) (Or.inl rfl)
        cases hup

theorem Inv.kept (h : s.Inv d) : Kept d s.kernel s.service.roster.bodies :=
  ⟨h.inventory, h.sane⟩

theorem Inv.daemon (h : s.Inv d) (pattern : IfacePattern) (a : Service.Action) :
    Kept d s.kernel (s.service.step (d.routines pattern) a).roster.bodies := by
  rcases s.service.step_cases (d.routines pattern) a with
    ⟨hroster, -⟩ | ⟨-, -, hroster, -⟩ | ⟨-, -, ps, -, hroster, -⟩
  · rw [hroster]
    exact h.kept
  · rw [hroster, Roster.bodies_shutdown]
    exact h.kept
  · rw [hroster]
    exact h.kept.reconcilePeers ps

theorem Inv.lookup_of_own (h : s.Inv d) (hown : s.own = []) (n : String) :
    s.kernel.links.lookup n = d.kernel.links.lookup n := by
  refine h.inventory.rest n ?_
  rw [hown]
  exact List.not_mem_nil

structure Accounted (d : Setup) (s : Host) : Prop where
  inv : s.stage ≠ .returned → s.Inv d
  unchanged : s.stage = .returned → s.Unchanged d

theorem accounted_of_inv (h : s.Inv d) (hstage : s.stage ≠ .returned) :
    s.Accounted d :=
  ⟨fun _ => h, fun hret => absurd hret hstage⟩

theorem accounted_start (d : Setup) : (start d).Accounted d := by
  refine accounted_of_inv ⟨Inventory.refl d.kernel, ?_, ⟨?_, fun _ _ => rfl⟩,
    fun _ => ⟨rfl, rfl⟩⟩ (by simp [start])
  · intro r hr
    cases hr
  · intro howned
    cases howned

theorem Inv.ensureFOU (h : s.Inv d) (hstage : s.stage ≠ .returned) (f : Fault) :
    (s.act d pattern (.ensureFOU f)).Accounted d := by
  simp only [Host.act]
  split
  · rename_i hstart
    obtain ⟨howned, hempty⟩ := h.fresh hstart
    have hports := h.ports
    rw [howned] at hports
    rcases ports_ensureFOU hports f with ⟨e, hexec⟩ | ⟨created, k', hexec, hlinks, hk'⟩
    · rw [hexec]
      refine ⟨fun hne => absurd rfl hne, fun _ => ⟨h.lookup_of_own ?_, fun q => ?_⟩⟩
      · rw [own, Roster.bodies, hempty]
        rfl
      · exact hports.rest q (by simp)
    · rw [hexec]
      refine accounted_of_inv ⟨h.inventory.congr hlinks, fun r hr => ?_, hk', ?_⟩ (by simp)
      · exact (h.sane r hr).congr fun n _ => by rw [hlinks]
      · intro hregister
        cases hregister
  · exact accounted_of_inv h hstage

theorem Inv.quiet (h : s.Inv d) (hstage : s.stage ≠ .returned) {n : ℕ} {r r' : Routine}
    (hr : s.routine n = some r)
    (hquiet : r.Sane s.kernel →
      (r.name ∈ r.own → ∃ g, s.kernel.links.lookup r.name = some (.gretun g)) →
      r'.Sane s.kernel ∧ r'.own = r.own) : (s.setRoutine n r').Accounted d := by
  refine accounted_of_inv (h.setRoutine hr (a := (r', s.kernel)) ?_) hstage
  intro others hsane hinv
  obtain ⟨hsane', hown⟩ := hquiet hsane fun hmem => by
    obtain ⟨-, g, -, hg⟩ := hinv.mine r.name (List.mem_append_left _ hmem)
    exact ⟨g, hg⟩
  exact ⟨hsane', hown.symm ▸ hinv, rfl, fun _ _ => rfl⟩

theorem Inv.removeFOU (h : s.Inv d) (hstage : s.stage ≠ .returned) (hown : s.own = []) :
    (s.act d pattern (.removeFOU none)).Accounted d := by
  have hlinks := h.lookup_of_own hown
  have hports := h.ports
  simp only [Host.act]
  split
  · cases howned : s.fouOwned with
    | true =>
        rw [howned] at hports
        obtain ⟨hkeep, hfous⟩ := hports.removeFOU
        refine ⟨fun hne => absurd rfl hne, fun _ => ⟨fun n => ?_, hfous⟩⟩
        rw [← hlinks n]
        exact congrArg (AList.lookup n) hkeep
    | false =>
        refine ⟨fun hne => absurd rfl hne, fun _ => ⟨hlinks, fun q => ?_⟩⟩
        exact hports.rest q (by simp [howned])
  · exact accounted_of_inv h hstage

theorem Inv.act (h : s.Inv d) (hstage : s.stage ≠ .returned) {a : Action}
    (hdel : s.DeletionsSucceed a) (hport : s.PortOpen a) (hlast : s.ReturnsLast a) :
    (s.act d pattern a).Accounted d := by
  have hsame : s.Accounted d := accounted_of_inv h hstage
  cases a with
  | ensureFOU f => exact h.ensureFOU hstage f
  | register ok =>
      simp only [Host.act]
      split
      · refine accounted_of_inv ⟨h.inventory, h.sane, h.ports, fun hs => ?_⟩ ?_
        · cases ok <;> cases hs
        · cases ok <;> simp
      · exact hsame
  | daemon a =>
      simp only [Host.act]
      split
      · obtain ⟨hinv, hsane⟩ := h.daemon pattern a
        refine accounted_of_inv ⟨hinv, hsane, h.ports, fun hs => ?_⟩ ?_
        · dsimp only at hs
          split at hs <;> cases hs
        · dsimp only
          split <;> simp
      · exact hsame
  | handle n ev ifaceAddrs seen =>
      simp only [Host.act]
      split
      · rename_i r hr
        split
        · rename_i hidle
          exact h.quiet hstage hr fun hsane _ => hsane.handle hidle ev ifaceAddrs seen
        · exact hsame
      · exact hsame
  | exit n =>
      simp only [Host.act]
      split
      · rename_i r hr
        split
        · rename_i hgo
          exact h.quiet hstage hr fun hsane hlink =>
            hsane.exit (Bool.and_eq_true_iff.1 hgo).1 hlink
        · exact hsame
      · exact hsame
  | request n f =>
      simp only [Host.act]
      split
      · rename_i r hr
        exact accounted_of_inv (h.setRoutine hr fun others hsane hinv =>
          hsane.request hinv (hdel r hr) (hport r hr)) hstage
      · exact hsame
  | removeFOU f =>
      obtain rfl : f = none := hdel
      exact h.removeFOU hstage hlast

theorem Accounted.step (h : s.Accounted d) {a : Action} (hdel : s.DeletionsSucceed a)
    (hport : s.PortOpen a) (hlast : s.ReturnsLast a) :
    (s.step d pattern a).Accounted d := by
  unfold Host.step
  split
  · exact h
  · rename_i hgo
    have hstage : s.stage ≠ .returned := fun hret => hgo (Or.inr hret)
    exact (h.inv hstage).act hstage hdel hport hlast

def bareSetup : Setup := { Table.sampleSetup with kernel := Kernel.empty }

/-- `Run` serves, the peer is listed, and a pong from the given port brings up its
tunnel. -/
def tunnelRun (port : Port) : List Action :=
  [.ensureFOU none, .register true, .daemon .look, .daemon (.respond [samplePeer]),
    .daemon .reconcile,
    .handle 0 (.udp ⟨.v4 0xc0000201, port⟩ { type := .pong, tx := "0" })
      [[192, 168, 1, 10]] samplePeer,
    .request 0 none, .request 0 none, .request 0 none, .request 0 none,
    .request 0 none, .daemon .cancel, .daemon .shutdown]

/-- The machine is done before `Run` returns. -/
def orderlyRun (port : Port) : List Action :=
  tunnelRun port ++ [.exit 0, .request 0 none, .request 0 none, .removeFOU none]

/-- `Run` returns while the machine has not yet left its loop. -/
def hastyRun (port : Port) : List Action := tunnelRun port ++ [.removeFOU none]

def bareEnd (as : List Action) : Host :=
  as.foldl (step bareSetup samplePattern) (start bareSetup)

end Host

end Daemon

end Gretun
