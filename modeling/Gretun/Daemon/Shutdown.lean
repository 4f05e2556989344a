import Gretun.Daemon.TableView

/-!
# The poll loop and the shutdown

`peersPollLoop` looks at the context at the top of its loop only; a list it has in
hand is reconciled whatever happens in between. `Run` shuts the daemon down when the
context is done or another loop reports an error, and in the latter case the context
is not even done. `Service` is the daemon with these two goroutines, each of which
holds the lock while it works on the map, so its steps are theirs in any order.
-/

namespace Gretun

namespace Daemon

open Gretun.Disco
open Foundation.Run

inductive PollAt where
  | top
  | calling
  | inHand (ps : List RemotePeer)
  | exited

/-- `reported` says that an error waits in the channel of `Run`, `shut` that `Run` has
called `shutdown`. -/
structure Service (φ : Type) where
  roster : Roster φ
  ctxDone : Bool
  reported : Bool
  shut : Bool
  poll : PollAt

namespace Service

variable {φ : Type}

def start : Service φ where
  roster := .empty
  ctxDone := false
  reported := false
  shut := false
  poll := .top

/-- The context is cancelled, a loop reports an error, `Run` shuts down; the poll loop
looks at the context, gets a list, fails to get one, or reconciles what it has. -/
inductive Action where
  | cancel
  | report
  | shutdown
  | look
  | respond (ps : List RemotePeer)
  | fail
  | reconcile

/-- What an action does. A failed call ends the poll loop when the context is done. -/
def act (c : Kit φ) (s : Service φ) : Action → Service φ
  | .cancel => { s with ctxDone := true }
  | .report => { s with reported := true }
  | .shutdown =>
      if (s.ctxDone || s.reported) && !s.shut then
        { s with roster := s.roster.shutdown, shut := true }
      else s
  | .look =>
      match s.poll with
      | .top => { s with poll := if s.ctxDone then .exited else .calling }
      | _ => s
  | .respond ps =>
      match s.poll with
      | .calling => { s with poll := .inHand ps }
      | _ => s
  | .fail =>
      match s.poll with
      | .calling => { s with poll := if s.ctxDone then .exited else .top }
      | _ => s
  | .reconcile =>
      match s.poll with
      | .inHand ps =>
          { s with roster := s.roster.reconcilePeers c ps, poll := .top }
      | _ => s

def step (c : Kit φ) (s : Service φ) (a : Action) : Service φ :=
  if s.roster.panicked then s else s.act c a

def WritesNilMap (c : Kit φ) (s : Service φ) (a : Action) : Prop :=
  s.roster.panicked = false ∧ (s.step c a).roster.panicked = true

/-- A list that is reconciled after the shutdown has no key but the node's own. -/
def NoLatePeer (c : Kit φ) (s : Service φ) (a : Action) : Prop :=
  a = .reconcile → s.shut = true → s.roster.panicked = false →
    ∀ ps, s.poll = .inHand ps → ∀ p ∈ ps, p.discoKey = c.self

end Service

namespace Roster

variable {φ : Type}

def startedNames (t : Roster φ) : List String :=
  (t.fsms.filter Instance.started).map Instance.ifaceName

@[simp] theorem panicked_shutdown (t : Roster φ) :
    t.shutdown.panicked = t.panicked :=
  List.foldlRecOn (motive := fun s : Roster φ => s.panicked = t.panicked) _ _ rfl
    fun _ hs _ _ => hs

theorem startedNames_reconcileOne {c : Kit φ} {t : Roster φ} (hnil : t.peers = none)
    (p : RemotePeer) : (reconcileOne c t p).startedNames = t.startedNames := by
  cases halive : t.panicked with
  | true => rw [reconcileOne, if_pos (Or.inl halive)]
  | false =>
      rcases reconcileOne_cases c halive p with
        ⟨-, heq⟩ | ⟨-, ⟨n, hn, -⟩ | ⟨m, hm, -, -⟩ | ⟨-, heq⟩⟩
      · rw [heq]
      · rw [find, hnil] at hn
        cases hn
      · rw [hnil] at hm
        cases hm
      · rw [heq]
        simp [startedNames, allocate]

theorem startedNames_reconcilePeers {c : Kit φ} {t : Roster φ}
    (hnil : t.peers = none) (ps : List RemotePeer) :
    (reconcilePeers c t ps).peers = none ∧
      (reconcilePeers c t ps).startedNames = t.startedNames := by
  have hloop : (ps.foldl (reconcileOne c) t).peers = none ∧
      (ps.foldl (reconcileOne c) t).startedNames = t.startedNames := by
    refine List.foldlRecOn (motive := fun s : Roster φ => s.peers = none ∧
      s.startedNames = t.startedNames) ps _ ⟨hnil, rfl⟩ fun s hs p _ => ?_
    exact ⟨(peers_reconcileOne c s p).2 hs.1,
      (startedNames_reconcileOne hs.1 p).trans hs.2⟩
  have hkeys : (ps.foldl (reconcileOne c) t).keys = [] := by
    rw [keys, hloop.1]
    rfl
  rw [reconcilePeers, hkeys]
  exact hloop

end Roster

namespace Service

variable {φ : Type}

/-- All that a step can do to the machines: nothing, the shutdown, or a list. -/
theorem step_cases (c : Kit φ) (s : Service φ) (a : Action) :
    (s.step c a).roster = s.roster ∧ (s.step c a).shut = s.shut ∧
        (s.roster.panicked = true ∨ a ≠ .reconcile ∨ ∀ ps, s.poll ≠ .inHand ps) ∨
      a = .shutdown ∧ s.shut = false ∧ (s.step c a).roster = s.roster.shutdown ∧
        (s.step c a).shut = true ∨
      a = .reconcile ∧ s.roster.panicked = false ∧
        ∃ ps, s.poll = .inHand ps ∧
          (s.step c a).roster = s.roster.reconcilePeers c ps ∧
          (s.step c a).shut = s.shut := by
  unfold step
  cases halive : s.roster.panicked with
  | true => exact Or.inl ⟨rfl, rfl, Or.inl rfl⟩
  | false =>
      rw [if_neg (by simp)]
      cases a with
      | cancel => exact Or.inl ⟨rfl, rfl, by simp⟩
      | report => exact Or.inl ⟨rfl, rfl, by simp⟩
      | shutdown =>
          simp only [act]
          split
          · rename_i hgo
            exact Or.inr (Or.inl ⟨trivial, by simpa using (Bool.and_eq_true_iff.1 hgo).2,
              rfl, rfl⟩)
          · exact Or.inl ⟨rfl, rfl, by simp⟩
      | look =>
          simp only [act]
          split <;> exact Or.inl ⟨rfl, rfl, by simp⟩
      | respond ps =>
          simp only [act]
          split <;> exact Or.inl ⟨rfl, rfl, by simp⟩
      | fail =>
          simp only [act]
          split <;> exact Or.inl ⟨rfl, rfl, by simp⟩
      | reconcile =>
          simp only [act]
          cases hpoll : s.poll with
          | inHand ps => exact Or.inr (Or.inr ⟨trivial, trivial, ps, rfl, rfl, rfl⟩)
          | _ => exact Or.inl ⟨rfl, rfl, by simp⟩

def ShutIffNil (s : Service φ) : Prop := s.shut = true ↔ s.roster.peers = none

theorem ShutIffNil.step {c : Kit φ} {s : Service φ} (h : s.ShutIffNil)
    (a : Action) : (s.step c a).ShutIffNil := by
  rcases s.step_cases c a with
    ⟨hroster, hshut, -⟩ | ⟨-, -, hroster, hshut⟩ | ⟨-, -, ps, -, hroster, hshut⟩
  · rw [ShutIffNil, hroster, hshut]
    exact h
  · rw [ShutIffNil, hroster, hshut]
    simp [Roster.shutdown]
  · rw [ShutIffNil, hroster, hshut, Roster.peers_reconcilePeers]
    exact h

/-- A step writes to the nil map exactly when a peer comes late. -/
theorem not_writesNilMap_iff {c : Kit φ} {s : Service φ} (h : s.ShutIffNil)
    (a : Action) : ¬ s.WritesNilMap c a ↔ s.NoLatePeer c a := by
  rcases s.step_cases c a with
    ⟨hroster, -, hidle⟩ | ⟨rfl, -, hroster, -⟩ | ⟨rfl, halive, ps, hps, hroster, -⟩
  · refine iff_of_true (fun hw => ?_) fun ha _ halive ps hps => ?_
    · rw [WritesNilMap, hroster] at hw
      rw [hw.1] at hw
      exact absurd hw.2 (by simp)
    · rcases hidle with hpanic | hne | hnone
      · rw [halive] at hpanic
        cases hpanic
      · exact absurd ha hne
      · exact absurd hps (hnone ps)
  · refine iff_of_true (fun hw => ?_) fun ha => by cases ha
    rw [WritesNilMap, hroster, Roster.panicked_shutdown] at hw
    rw [hw.1] at hw
    exact absurd hw.2 (by simp)
  · rw [WritesNilMap, hroster, Roster.panicked_reconcilePeers, halive]
    constructor
    · intro hw _ hshut _ qs hqs p hp
      rw [hps] at hqs
      cases hqs
      by_contra hself
      exact hw ⟨rfl, Or.inr ⟨h.1 hshut, p, hp, hself⟩⟩
    · rintro hlate ⟨-, hpanic | ⟨hnil, p, hp, hself⟩⟩
      · cases hpanic
      · exact hself (hlate rfl (h.2 hnil) halive ps hps p hp)

theorem startedNames_step {c : Kit φ} {s : Service φ} (h : s.ShutIffNil)
    (hshut : s.shut = true) (a : Action) :
    (s.step c a).roster.startedNames = s.roster.startedNames := by
  rcases s.step_cases c a with
    ⟨hroster, -, -⟩ | ⟨-, hopen, -, -⟩ | ⟨-, -, ps, -, hroster, -⟩
  · rw [hroster]
  · rw [hshut] at hopen
    cases hopen
  · rw [hroster]
    exact (Roster.startedNames_reconcilePeers (h.1 hshut) ps).2

theorem shutIffNil_start : (start : Service φ).ShutIffNil := by
  simp [ShutIffNil, start, Roster.empty]

/-- In a run of the two goroutines no step writes to the nil map exactly when no
list that is reconciled after the shutdown has a peer; and, whatever the lists are, no
step after the shutdown starts the goroutine of a machine. -/
theorem noNilWrite_iff (c : Kit φ) (as : List Action) :
    (EachStep (step c) (fun s a => ¬ s.WritesNilMap c a) start as ↔
      EachStep (step c) (NoLatePeer c) start as) ∧
    EachStep (step c) (fun s a => s.shut = true →
      (s.step c a).roster.startedNames = s.roster.startedNames) start as := by
  have hany : EachStep (step c) (fun _ _ => True) start as :=
    eachStep_of_forall_mem (fun _ _ => trivial) start
  constructor
  · exact eachStep_congr (I := ShutIffNil) (fun s a hs _ => not_writesNilMap_iff hs a)
      (fun s a hs _ _ => hs.step a) shutIffNil_start hany
  · exact eachStep_of_invariant (I := ShutIffNil) (fun s a hs _ => hs.step a)
      (fun s a hs _ hshut => startedNames_step hs hshut a) shutIffNil_start hany

end Service

/-! ## A list in hand -/

def samplePattern : IfacePattern where
  before := "gretun".toList
  after := []
  before_plain := by decide
  after_plain := by decide

def sampleKit : Kit Machine := Table.sampleSetup.kit samplePattern

namespace Service

/-- A list is fetched; before it is reconciled another loop reports an error and
`Run` shuts down. -/
def lateRun : List Action :=
  [.look, .respond [samplePeer], .report, .shutdown, .reconcile]

/-- The same list, reconciled in time. -/
def timelyRun : List Action :=
  [.look, .respond [samplePeer], .reconcile, .report, .shutdown, .look]

theorem noNilWrite_of_timelyRun :
    (timelyRun.foldl (step sampleKit) start).roster.startedNames = ["gretun0"] ∧
      EachStep (step sampleKit) (fun s a => ¬ s.WritesNilMap sampleKit a) start
        timelyRun := by
  refine ⟨by decide +kernel, (noNilWrite_iff sampleKit timelyRun).1.2 ?_⟩
  refine ⟨?_, ?_, ?_, ?_, ?_, ?_, trivial⟩
  case refine_3 =>
    intro _ hshut
    cases hshut
  all_goals
    intro ha
    cases ha

/-- The poll loop stores a machine in the map that the shutdown has dropped. -/
theorem nilWrite_of_lateRun :
    ((lateRun.take 4).foldl (step sampleKit) start).shut = true ∧
      ((lateRun.take 4).foldl (step sampleKit) start).WritesNilMap sampleKit
        .reconcile :=
  ⟨by decide +kernel, by decide +kernel, by decide +kernel⟩

end Service

end Daemon

end Gretun
