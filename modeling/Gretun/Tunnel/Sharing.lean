import Gretun.Tunnel.Holding
import Mathlib.Data.Fintype.Basic

/-!
# Calls that share a receive port

Several `Create` calls run side by side, their netlink requests interleaved in any
way. Tunnels to the same port share one receive port, and who opened it is decided by
which request came first. The call that opened it closes it again when it fails, and
by then other calls may rely on it.
-/

namespace Gretun

namespace Tunnel

open Gretun.Net
open Foundation.Command
open Foundation.Interleave
open Foundation.Run

def Config.fouKey (cfg : Config) : ℕ × Port := (afInet, cfg.encapDport)

def Hold.relies (h : Hold) : Bool := h.port && !h.failed

/-- Calls to `Create`, one for each index, and which of the links they made were
deleted again. -/
structure Creates (ι : Type) where
  pool : Pool NlCall NlCall.Resp (Except TunnelErr Unit) Hold ι Kernel
  deleted : ι → Bool

namespace Creates

variable {ι : Type}

/-- A call makes its next request, or the link of a call that has returned is
deleted; the environment decides whether the request fails. -/
inductive Action (ι : Type) where
  | request (i : ι) (f : Fault)
  | delete (i : ι) (f : Fault)

def start (ctx : ι → Option CtxError) (cfg : ι → Config) (k : Kernel) :
    Creates ι where
  pool :=
    { threads i := { ghost := {}, left := create (ctx i) (cfg i) }
      shared := k }
  deleted _ := false

def returned (s : Creates ι) (i : ι) : Bool :=
  match (s.pool.threads i).left with
  | .ret (.ok ()) => true
  | _ => false

def live (s : Creates ι) (i : ι) : Bool := s.returned i && !s.deleted i

def step [DecidableEq ι] (cfg : ι → Config) (s : Creates ι) : Action ι → Creates ι
  | .request i f =>
      { s with pool := s.pool.step (fun i => holding (cfg i)) Kernel.handle (i, f) }
  | .delete i f =>
      if s.live i then
        let a := Kernel.handle f (.linkDel (.gretun (gretunFor (cfg i)))) s.pool.shared
        { pool := { s.pool with shared := a.2 }
          deleted := if a.1.isOk then Function.update s.deleted i true else s.deleted }
      else s

/-- Every link whose `Create` has returned without an error, and that was not deleted,
has its receive port open. -/
def LivePorts (cfg : ι → Config) (s : Creates ι) : Prop :=
  ∀ i, s.live i = true → (cfg i).fouKey ∈ s.pool.shared.fous

def opensPort (s : Creates ι) (i : ι) : Bool :=
  match (s.pool.threads i).next with
  | some (.fouAdd _) => true
  | _ => false

def closesPort (s : Creates ι) (i : ι) : Bool :=
  match (s.pool.threads i).next with
  | some (.fouDel _) => true
  | _ => false

/-- A request for a receive port answers `EEXIST` only when the port is open. -/
def ExactAnswer (s : Creates ι) : Action ι → Prop
  | .request i f => s.opensPort i = true → f ≠ some (.errno .EEXIST)
  | .delete _ _ => True

/-- When a failed call closes the port it opened, none of the `others` relies on it: none
that has its port and has not failed. -/
def AloneOnPort (cfg : ι → Config) (others : ι → Bool) (s : Creates ι) : Action ι → Prop
  | .request i f => s.closesPort i = true → f = none →
      ∀ j, j ≠ i → others j = true → (s.pool.ghosts j).relies = true →
        (cfg j).fouKey ≠ (cfg i).fouKey
  | .delete _ _ => True

instance (s : Creates ι) : (a : Action ι) → Decidable (s.ExactAnswer a)
  | .request i f =>
      inferInstanceAs (Decidable (s.opensPort i = true → f ≠ some (.errno .EEXIST)))
  | .delete _ _ => inferInstanceAs (Decidable True)

instance [DecidableEq ι] [Fintype ι] (cfg : ι → Config) (others : ι → Bool)
    (s : Creates ι) : (a : Action ι) → Decidable (s.AloneOnPort cfg others a)
  | .request i f =>
      inferInstanceAs (Decidable (s.closesPort i = true → f = none →
        ∀ j, j ≠ i → others j = true → (s.pool.ghosts j).relies = true →
          (cfg j).fouKey ≠ (cfg i).fouKey))
  | .delete _ _ => inferInstanceAs (Decidable True)

/-! ## One request -/

def Backed (cfg : ι → Config) (calls : ι → Bool) (gs : ι → Hold) (k : Kernel) :
    Prop :=
  ∀ i, calls i = true → (gs i).relies = true → (cfg i).fouKey ∈ k.fous

/-- Only the answer to a request for the port makes a call rely on it. -/
theorem relies_of_move {h : Hold} {c : NlCall} {r : c.Resp}
    (hmove : (h.move c r).relies = true) :
    h.relies = true ∧ (∀ fou, c ≠ .fouDel fou) ∨ ∃ fou, c = .fouAdd fou := by
  cases c with
  | fouAdd fou => exact Or.inr ⟨fou, rfl⟩
  | fouDel fou => simp [Hold.move, Hold.relies] at hmove
  | linkAdd l =>
      cases r with
      | ok u => exact Or.inl ⟨hmove, by simp⟩
      | error e => simp [Hold.move, Hold.relies, Hold.fail] at hmove
  | linkDel l => cases r <;> exact Or.inl ⟨hmove, by simp⟩
  | _ =>
      rcases h.move_other (by simp) (by simp) r with heq | heq
      · rw [heq] at hmove
        exact Or.inl ⟨hmove, by simp⟩
      · rw [heq] at hmove
        simp [Hold.relies, Hold.fail] at hmove

theorem mem_fous_of_fouAdd {h : Hold} {fou : Fou} {f : Fault} {k : Kernel}
    (hexact : f ≠ some (.errno .EEXIST))
    (hrelies : (h.move (.fouAdd fou) (Kernel.handle f (.fouAdd fou) k).1).relies =
      true) : fou.key ∈ (Kernel.handle f (.fouAdd fou) k).2.fous := by
  cases f with
  | some e =>
      have he : e ≠ .errno .EEXIST := fun heq => hexact (by rw [heq])
      simp [Kernel.failResp, Hold.move, he, Hold.fail, Hold.relies] at hrelies
  | none =>
      by_cases hopen : fou.key ∈ k.fous
      · simp [Kernel.perform, Kernel.fouAdd, hopen]
      · simp [Kernel.perform, Kernel.fouAdd, hopen]

/-- One allowed request keeps the ports of the calls that rely on them. -/
theorem Backed.request [DecidableEq ι] {cfg : ι → Config} {calls : ι → Bool}
    {gs : ι → Hold} {k : Kernel} (h : Backed cfg calls gs k) {i : ι} {c : NlCall}
    {f : Fault} (hallows : Hold.allows (cfg i) (gs i) c)
    (hexact : ∀ fou, c = .fouAdd fou → f ≠ some (.errno .EEXIST))
    (halone : ∀ fou, c = .fouDel fou → f = none → ∀ j, j ≠ i → calls j = true →
      (gs j).relies = true → (cfg j).fouKey ≠ (cfg i).fouKey) :
    Backed cfg calls
      (Function.update gs i ((gs i).move c (Kernel.handle f c k).1))
      (Kernel.handle f c k).2 := by
  intro j hcall hrelies
  by_cases hj : j = i
  · subst hj
    rw [Function.update_self] at hrelies
    rcases relies_of_move hrelies with ⟨hold, hother⟩ | ⟨fou, rfl⟩
    · exact mem_fous_handle (h j hcall hold) f fun fou hc => absurd hc (hother fou)
    · obtain ⟨rfl, -⟩ := hallows
      exact mem_fous_of_fouAdd (hexact _ rfl) hrelies
  · rw [Function.update_of_ne hj] at hrelies
    have hmem := h j hcall hrelies
    cases f with
    | some e => exact hmem
    | none =>
        refine mem_fous_handle hmem none fun fou hc heq => ?_
        subst hc
        exact halone fou rfl rfl j hj hcall hrelies (heq.symm.trans hallows.1)

/-! ## Whole runs -/

def Good (ctx : ι → Option CtxError) (cfg : ι → Config) (calls : ι → Bool)
    (s : Creates ι) : Prop :=
  s.pool.Sound (fun i => holding (cfg i)) (fun i => CreateHolds (ctx i) (cfg i))
    (Backed cfg calls)

theorem good_start (ctx : ι → Option CtxError) (cfg : ι → Config) (calls : ι → Bool)
    (k : Kernel) : (start ctx cfg k).Good ctx cfg calls := by
  refine ⟨fun i => follows_create (ctx i) (cfg i), ?_⟩
  intro i _ hrelies
  cases hrelies

theorem Good.step [DecidableEq ι] {ctx : ι → Option CtxError} {cfg : ι → Config}
    {calls : ι → Bool} {s : Creates ι} (h : s.Good ctx cfg calls) {a : Action ι}
    (hexact : s.ExactAnswer a) (halone : s.AloneOnPort cfg calls a) :
    (s.step cfg a).Good ctx cfg calls := by
  cases a with
  | request i f =>
      refine Pool.Sound.step (P := fun gs _ i c f =>
        (∀ fou, c = .fouAdd fou → f ≠ some (.errno .EEXIST)) ∧
        ∀ fou, c = .fouDel fou → f = none → ∀ j, j ≠ i → calls j = true →
          (gs j).relies = true → (cfg j).fouKey ≠ (cfg i).fouKey) ?_ h ?_
      · intro gs k i c f hgs hallows hP
        exact hgs.request hallows hP.1 hP.2
      · intro c hnext
        refine ⟨fun fou hc => hexact ?_, fun fou hc => halone ?_⟩
        · simp [opensPort, hnext, hc]
        · simp [closesPort, hnext, hc]
  | delete i f =>
      simp only [Creates.step]
      split
      · exact ⟨h.follows, fun j hcall hrelies =>
          mem_fous_handle (h.agree j hcall hrelies) f (by simp)⟩
      · exact h

theorem Good.livePorts {ctx : ι → Option CtxError} {cfg : ι → Config}
    (hfou : ∀ i, (cfg i).encap ≠ .none) {s : Creates ι} (h : s.Good ctx cfg s.live) :
    s.LivePorts cfg := by
  intro i hlive
  have hfollows := h.follows i
  have hreturned := (Bool.and_eq_true_iff.1 hlive).1
  unfold returned at hreturned
  split at hreturned
  · rename_i hleft
    rw [hleft] at hfollows
    obtain ⟨-, hfailed, hport⟩ := hfollows.ok rfl
    refine h.agree i hlive ?_
    simp [Hold.relies, Pool.ghosts, hfailed, hport (hfou i)]
  · cases hreturned

end Creates

/-! ## Two tunnels to the port 7777 -/

namespace Creates

def twoConfigs (i : Bool) : Config :=
  { sampleConfig with
    name := bif i then "tun1" else "tun0"
    remoteIP := bif i then [10, 0, 0, 3] else [10, 0, 0, 2] }

def twoStart : Creates Bool := start (fun _ => none) twoConfigs Kernel.empty

/-- The first call opens the port and adds its link; the second finds the port open
and runs to its end; then the kernel refuses the MTU of the first, which rolls back. -/
def sharedRun : List (Action Bool) :=
  [.request false none, .request false none, .request false none,
    .request true none, .request true none, .request true none, .request true none,
    .request true none,
    .request false (some (.errno .EINVAL)), .request false none, .request false none]

/-- The first call has rolled back before the second asks for the port. -/
def apartRun : List (Action Bool) :=
  [.request false none, .request false none, .request false none,
    .request false (some (.errno .EINVAL)), .request false none, .request false none,
    .request true none, .request true none, .request true none, .request true none,
    .request true none]

end Creates

end Tunnel

end Gretun
