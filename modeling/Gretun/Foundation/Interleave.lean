import Gretun.Foundation.Command
import Gretun.Foundation.Run
import Mathlib.Logic.Function.Basic

/-!
# Programs that run side by side

Several programs issue their commands to one machine, in any order. What a program
knows from the answers it got is a ghost state: a discipline says how an answer moves
it and which commands it allows, and a program follows the discipline when every
command it can issue is allowed and every result it can return is justified. That is
shown once for the text of a program. An invariant over the ghost states and the
shared state then only has to be kept by each allowed command, and the rule at the end
lifts it to every interleaving.
-/

namespace Foundation

namespace Interleave

open Foundation.Command
open Foundation.Run

variable {C : Type} {R : C → Type} {F σ α β G ι : Type}

/-- How the answers move a ghost state, and which commands it allows. -/
structure Discipline (C : Type) (R : C → Type) (G : Type) where
  move : G → (c : C) → R c → G
  allows : G → C → Prop

/-- Every command of the program is allowed and every result meets `post`, whatever
the answers are. -/
def Follows (d : Discipline C R G) (post : G → α → Prop) : G → Prog C R α → Prop
  | g, .ret a => post g a
  | g, .call c k => d.allows g c ∧ ∀ r, Follows d post (d.move g c r) (k r)

@[simp] theorem follows_ret (d : Discipline C R G) (post : G → α → Prop) (g : G)
    (a : α) : Follows d post g (.ret a : Prog C R α) ↔ post g a := Iff.rfl

@[simp] theorem follows_call (d : Discipline C R G) (post : G → α → Prop) (g : G)
    (c : C) (k : R c → Prog C R α) :
    Follows d post g (.call c k) ↔
      d.allows g c ∧ ∀ r, Follows d post (d.move g c r) (k r) := Iff.rfl

theorem Follows.mono {d : Discipline C R G} {post post' : G → α → Prop}
    (hpost : ∀ g a, post g a → post' g a) {g : G} {m : Prog C R α}
    (h : Follows d post g m) : Follows d post' g m := by
  induction m generalizing g with
  | ret a => exact hpost g a h
  | call c k ih => exact ⟨h.1, fun r => ih r (h.2 r)⟩

/-- A sequence follows the discipline when its second part does from wherever the
first may end. -/
theorem follows_bind {d : Discipline C R G} {post : G → β → Prop} {g : G}
    {m : Prog C R α} {f : α → Prog C R β} :
    Follows d post g (m >>= f) ↔ Follows d (fun g a => Follows d post g (f a)) g m := by
  induction m generalizing g with
  | ret a => exact Iff.rfl
  | call c k ih =>
      rw [Prog.call_bind, follows_call, follows_call]
      exact and_congr_right fun _ => forall_congr' fun r => ih r

def Discipline.when (d : Discipline C R G) (a : Prop) : Discipline C R G where
  move := d.move
  allows g c := a ∧ d.allows g c

theorem Follows.when {d : Discipline C R G} {a : Prop} (ha : a) {post : G → α → Prop}
    {g : G} {m : Prog C R α} (h : Follows d post g m) :
    Follows (d.when a) post g m := by
  induction m generalizing g with
  | ret b => exact h
  | call c k ih => exact ⟨⟨ha, h.1⟩, fun r => ih r (h.2 r)⟩

structure Thread (C : Type) (R : C → Type) (α G : Type) where
  ghost : G
  left : Prog C R α

def Thread.advance (d : Discipline C R G) (h : F → (c : C) → σ → R c × σ) (f : F)
    (t : Thread C R α G) (s : σ) : Thread C R α G × σ :=
  match t.left with
  | .ret _ => (t, s)
  | .call c k => (⟨d.move t.ghost c (h f c s).1, k (h f c s).1⟩, (h f c s).2)

theorem Thread.advance_of_ret {d : Discipline C R G} {h : F → (c : C) → σ → R c × σ}
    {f : F} {t : Thread C R α G} {a : α} (ht : t.left = .ret a) (s : σ) :
    t.advance d h f s = (t, s) := by
  rw [advance, ht]

theorem Thread.advance_of_call {d : Discipline C R G}
    {h : F → (c : C) → σ → R c × σ} {f : F} {t : Thread C R α G} {c : C}
    {k : R c → Prog C R α} (ht : t.left = .call c k) (s : σ) :
    t.advance d h f s =
      (⟨d.move t.ghost c (h f c s).1, k (h f c s).1⟩, (h f c s).2) := by
  rw [advance, ht]

theorem Follows.advance {d : Discipline C R G} {h : F → (c : C) → σ → R c × σ} {f : F}
    {post : G → α → Prop} {t : Thread C R α G} (ht : Follows d post t.ghost t.left)
    (s : σ) :
    Follows d post (t.advance d h f s).1.ghost (t.advance d h f s).1.left := by
  cases hleft : t.left with
  | ret a => rwa [Thread.advance_of_ret hleft]
  | call c k =>
      rw [hleft] at ht
      rw [Thread.advance_of_call hleft]
      exact ht.2 _

def Thread.next (t : Thread C R α G) : Option C :=
  match t.left with
  | .ret _ => none
  | .call c _ => some c

structure Pool (C : Type) (R : C → Type) (α G ι σ : Type) where
  threads : ι → Thread C R α G
  shared : σ

namespace Pool

variable [DecidableEq ι]

def step (d : ι → Discipline C R G) (h : F → (c : C) → σ → R c × σ)
    (p : Pool C R α G ι σ) (x : ι × F) : Pool C R α G ι σ where
  threads := Function.update p.threads x.1
    ((p.threads x.1).advance (d x.1) h x.2 p.shared).1
  shared := ((p.threads x.1).advance (d x.1) h x.2 p.shared).2

def ghosts (p : Pool C R α G ι σ) (i : ι) : G := (p.threads i).ghost

structure Sound (d : ι → Discipline C R G) (post : ι → G → α → Prop)
    (J : (ι → G) → σ → Prop) (p : Pool C R α G ι σ) : Prop where
  follows : ∀ i, Follows (d i) (post i) (p.threads i).ghost (p.threads i).left
  agree : J p.ghosts p.shared

/-- All that a step of thread `i` can do: nothing, when it has returned, or the next
command. -/
theorem step_cases (d : ι → Discipline C R G) (h : F → (c : C) → σ → R c × σ)
    (p : Pool C R α G ι σ) (x : ι × F) :
    (p.threads x.1).next = none ∧ p.step d h x = p ∨
      ∃ c k, (p.threads x.1).left = .call c k ∧
        p.step d h x =
          { threads := Function.update p.threads x.1
              ⟨(d x.1).move (p.ghosts x.1) c (h x.2 c p.shared).1,
                k (h x.2 c p.shared).1⟩
            shared := (h x.2 c p.shared).2 } := by
  unfold step
  cases hleft : (p.threads x.1).left with
  | ret a =>
      refine Or.inl ⟨by rw [Thread.next, hleft], ?_⟩
      rw [Thread.advance_of_ret hleft, Function.update_eq_self]
  | call c k =>
      refine Or.inr ⟨c, k, rfl, ?_⟩
      rw [Thread.advance_of_call hleft]
      rfl

theorem ghosts_update (p : Pool C R α G ι σ) (i : ι) (t : Thread C R α G) (s : σ) :
    ghosts { threads := Function.update p.threads i t, shared := s } =
      Function.update p.ghosts i t.ghost := by
  funext j
  by_cases hj : j = i
  · subst hj
    simp [ghosts]
  · simp [ghosts, Function.update_of_ne hj]

/-- If every allowed command that meets `P` keeps the agreement, every step does. -/
theorem Sound.step {d : ι → Discipline C R G} {h : F → (c : C) → σ → R c × σ}
    {post : ι → G → α → Prop} {J : (ι → G) → σ → Prop}
    {P : (ι → G) → σ → ι → C → F → Prop}
    (hcommand : ∀ gs s i c f, J gs s → (d i).allows (gs i) c → P gs s i c f →
      J (Function.update gs i ((d i).move (gs i) c (h f c s).1)) (h f c s).2)
    {p : Pool C R α G ι σ} (hp : p.Sound d post J) {x : ι × F}
    (hx : ∀ c, (p.threads x.1).next = some c →
      P p.ghosts p.shared x.1 c x.2) : (p.step d h x).Sound d post J := by
  rcases p.step_cases d h x with ⟨-, heq⟩ | ⟨c, k, hleft, heq⟩
  · rwa [heq]
  · have hfollows := hp.follows x.1
    rw [hleft] at hfollows
    have hnext : (p.threads x.1).next = some c := by rw [Thread.next, hleft]
    rw [heq]
    constructor
    · intro i
      by_cases hi : i = x.1
      · subst hi
        simp only [Function.update_self]
        exact hfollows.2 _
      · simp only [Function.update_of_ne hi]
        exact hp.follows i
    · have hghosts := ghosts_update p x.1
        ⟨(d x.1).move (p.ghosts x.1) c (h x.2 c p.shared).1,
          k (h x.2 c p.shared).1⟩ (h x.2 c p.shared).2
      rw [hghosts]
      exact hcommand _ _ _ _ _ hp.agree hfollows.1 (hx c hnext)

/-- The agreement holds in every state of a run in which the environment only does
what `P` allows. -/
theorem Sound.run {d : ι → Discipline C R G} {h : F → (c : C) → σ → R c × σ}
    {post : ι → G → α → Prop} {J : (ι → G) → σ → Prop} {P : F → Prop}
    (hcommand : ∀ gs s i c f, J gs s → (d i).allows (gs i) c → P f →
      J (Function.update gs i ((d i).move (gs i) c (h f c s).1)) (h f c s).2)
    {p : Pool C R α G ι σ} (hp : p.Sound d post J) {xs : List (ι × F)}
    (hxs : ∀ x ∈ xs, P x.2) : (xs.foldl (Pool.step d h) p).Sound d post J :=
  invariant_of_eachStep (I := Pool.Sound d post J) (P := fun _ (x : ι × F) => P x.2)
    (fun _ _ hp hx => hp.step (P := fun _ _ _ _ f => P f) hcommand fun _ _ => hx) hp
    (eachStep_of_forall_mem hxs p)

end Pool

end Interleave

end Foundation
