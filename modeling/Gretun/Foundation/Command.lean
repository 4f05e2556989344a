import Mathlib.Data.Nat.Notation
import Mathlib.Logic.Basic

/-!
# Programs made of commands that may fail

A program over a set of commands is a tree: it returns, or it issues a command
and goes on with the answer. The machine that runs the commands is a handler
`h : F → (c : C) → σ → R c × σ`; the first argument is what the environment
decides about this one call (whether it fails, and how). `run` executes a
program against a stream of such decisions. `wp` is the weakest precondition
over all decisions that a predicate `ok` allows, and `run_of_wp` says that what
it promises holds of every execution.
-/

namespace Foundation

namespace Command

/-- A program over the commands `C` with answers `R`, returning an `α`. -/
inductive Prog (C : Type) (R : C → Type) (α : Type) where
  | ret (a : α) : Prog C R α
  | call (c : C) (k : R c → Prog C R α) : Prog C R α

namespace Prog

variable {C : Type} {R : C → Type} {F σ α β : Type}

def bind (m : Prog C R α) (f : α → Prog C R β) : Prog C R β :=
  match m with
  | ret a => f a
  | call c k => call c fun r => (k r).bind f

instance : Monad (Prog C R) where
  pure := ret
  bind := bind

def perform (c : C) : Prog C R (R c) := call c ret

/-- Execution against a stream of decisions, one for each call. A decision may
depend on the command it is about. -/
def run (h : F → (c : C) → σ → R c × σ) :
    Prog C R α → (ℕ → C → F) → σ → α × σ
  | ret a, _, s => (a, s)
  | call c k, ω, s =>
      run h (k (h (ω 0 c) c s).1) (fun n => ω (n + 1)) (h (ω 0 c) c s).2

theorem run_map (h : F → (c : C) → σ → R c × σ) (m : Prog C R α) (g : α → β)
    (ω : ℕ → C → F) (s : σ) :
    run h (m.bind fun a => ret (g a)) ω s =
      (g (run h m ω s).1, (run h m ω s).2) := by
  induction m generalizing ω s with
  | ret a => rfl
  | call c k ih => exact ih _ _ _

def left (h : F → (c : C) → σ → R c × σ) :
    Prog C R α → (ℕ → C → F) → σ → ℕ → C → F
  | ret _, ω, _ => ω
  | call c k, ω, s =>
      left h (k (h (ω 0 c) c s).1) (fun n => ω (n + 1)) (h (ω 0 c) c s).2

theorem run_bind (h : F → (c : C) → σ → R c × σ) (m : Prog C R α)
    (f : α → Prog C R β) (ω : ℕ → C → F) (s : σ) :
    run h (m >>= f) ω s =
      run h (f (run h m ω s).1) (left h m ω s) (run h m ω s).2 := by
  induction m generalizing ω s with
  | ret a => rfl
  | call c k ih => exact ih _ _ _

/-- `wp h ok m Q s`: every execution of `m` from `s` whose decisions are allowed
by `ok` ends with an answer and a state related by `Q`. -/
def wp (h : F → (c : C) → σ → R c × σ) (ok : C → F → Prop) :
    Prog C R α → (α → σ → Prop) → σ → Prop
  | ret a, Q, s => Q a s
  | call c k, Q, s =>
      ∀ f, ok c f → wp h ok (k (h f c s).1) Q (h f c s).2

@[simp] theorem pure_eq_ret (a : α) : (pure a : Prog C R α) = ret a := rfl

@[simp] theorem ret_bind (a : α) (f : α → Prog C R β) :
    (ret a >>= f : Prog C R β) = f a := rfl

@[simp] theorem call_bind (c : C) (k : R c → Prog C R α) (f : α → Prog C R β) :
    (call c k >>= f : Prog C R β) = call c fun r => k r >>= f := rfl

@[simp] theorem perform_bind (c : C) (f : R c → Prog C R β) :
    (perform c >>= f : Prog C R β) = call c f := rfl

@[simp] theorem wp_ret (h : F → (c : C) → σ → R c × σ) (ok : C → F → Prop)
    (a : α) (Q : α → σ → Prop) (s : σ) :
    wp h ok (ret a : Prog C R α) Q s ↔ Q a s := Iff.rfl

theorem wp_call (h : F → (c : C) → σ → R c × σ) (ok : C → F → Prop)
    (c : C) (k : R c → Prog C R α) (Q : α → σ → Prop) (s : σ) :
    wp h ok (call c k) Q s ↔
      ∀ f, ok c f → wp h ok (k (h f c s).1) Q (h f c s).2 := Iff.rfl

theorem wp_mono {h : F → (c : C) → σ → R c × σ} {ok : C → F → Prop}
    {m : Prog C R α} {Q Q' : α → σ → Prop} (hQ : ∀ a s, Q a s → Q' a s) {s : σ}
    (hwp : wp h ok m Q s) : wp h ok m Q' s := by
  induction m generalizing s with
  | ret a => exact hQ a s hwp
  | call c k ih => exact fun f hf => ih _ (hwp f hf)

theorem wp_true {h : F → (c : C) → σ → R c × σ} {ok : C → F → Prop}
    (m : Prog C R α) (s : σ) : wp h ok m (fun _ _ => True) s := by
  induction m generalizing s with
  | ret a => trivial
  | call c k ih => exact fun f _ => ih _ _

theorem wp_and {h : F → (c : C) → σ → R c × σ} {ok : C → F → Prop}
    {m : Prog C R α} {Q Q' : α → σ → Prop} {s : σ} (hQ : wp h ok m Q s)
    (hQ' : wp h ok m Q' s) : wp h ok m (fun a s => Q a s ∧ Q' a s) s := by
  induction m generalizing s with
  | ret a => exact ⟨hQ, hQ'⟩
  | call c k ih => exact fun f hf => ih _ (hQ f hf) (hQ' f hf)

theorem wp_forall {ι : Type} {h : F → (c : C) → σ → R c × σ} {ok : C → F → Prop}
    {m : Prog C R α} {Q : ι → α → σ → Prop} {s : σ} (hQ : ∀ i, wp h ok m (Q i) s) :
    wp h ok m (fun a s => ∀ i, Q i a s) s := by
  induction m generalizing s with
  | ret a => exact hQ
  | call c k ih => exact fun f hf => ih _ fun i => hQ i f hf

theorem wp_of_imp {h : F → (c : C) → σ → R c × σ} {ok ok' : C → F → Prop}
    (hok : ∀ c f, ok' c f → ok c f) {m : Prog C R α} {Q : α → σ → Prop} {s : σ}
    (hwp : wp h ok m Q s) : wp h ok' m Q s := by
  induction m generalizing s with
  | ret a => exact hwp
  | call c k ih => exact fun f hf => ih _ (hwp f (hok c f hf))

/-- What every command keeps holds when a program is over. -/
theorem wp_invariant {h : F → (c : C) → σ → R c × σ} {ok : C → F → Prop} {I : σ → Prop}
    (hI : ∀ f c s, I s → I (h f c s).2) (m : Prog C R α) {s : σ} (hs : I s) :
    wp h ok m (fun _ => I) s := by
  induction m generalizing s with
  | ret a => exact hs
  | call c k ih => exact fun f _ => ih _ (hI f c s hs)

/-- The precondition of a sequence is the precondition of its first part for the
precondition of its second. -/
theorem wp_bind {h : F → (c : C) → σ → R c × σ} {ok : C → F → Prop}
    (m : Prog C R α) (f : α → Prog C R β) (Q : β → σ → Prop) (s : σ) :
    wp h ok (m >>= f) Q s ↔ wp h ok m (fun a => wp h ok (f a) Q) s := by
  induction m generalizing s with
  | ret a => exact Iff.rfl
  | call c k ih =>
      rw [call_bind, wp_call, wp_call]
      exact forall_congr' fun d => imp_congr_right fun _ => ih _ _

/-- What the weakest precondition promises holds of every execution. -/
theorem run_of_wp {h : F → (c : C) → σ → R c × σ} {ok : C → F → Prop}
    {m : Prog C R α} {Q : α → σ → Prop} {ω : ℕ → C → F}
    (hω : ∀ n c, ok c (ω n c)) {s : σ} (hwp : wp h ok m Q s) :
    Q (run h m ω s).1 (run h m ω s).2 := by
  induction m generalizing ω s with
  | ret a => exact hwp
  | call c k ih =>
      exact ih _ (fun n c' => hω (n + 1) c') (hwp (ω 0 c) (hω 0 c))

def AllCalls (P : C → Prop) : Prog C R α → Prop
  | ret _ => True
  | call c k => P c ∧ ∀ r, AllCalls P (k r)

@[simp] theorem allCalls_ret (P : C → Prop) (a : α) :
    AllCalls P (ret a : Prog C R α) := trivial

@[simp] theorem allCalls_call (P : C → Prop) (c : C) (k : R c → Prog C R α) :
    AllCalls P (call c k) ↔ P c ∧ ∀ r, AllCalls P (k r) := Iff.rfl

theorem AllCalls.bind {P : C → Prop} {m : Prog C R α} {f : α → Prog C R β}
    (hm : AllCalls P m) (hf : ∀ a, AllCalls P (f a)) : AllCalls P (m >>= f) := by
  induction m with
  | ret a => exact hf a
  | call c k ih => exact ⟨hm.1, fun r => ih r (hm.2 r)⟩

theorem AllCalls.wp {h : F → (c : C) → σ → R c × σ} {ok : C → F → Prop} {P : C → Prop}
    {I : σ → Prop} (hI : ∀ f c s, P c → I s → I (h f c s).2) {m : Prog C R α}
    (hm : AllCalls P m) {s : σ} (hs : I s) : Prog.wp h ok m (fun _ => I) s := by
  induction m generalizing s with
  | ret a => exact hs
  | call c k ih => exact fun f _ => ih _ (hm.2 _) (hI f c s hm.1 hs)

/-- The books of a program. `held` is what a program has to show for the answers it
has got, and `gain c r` is what the answer `r` to `c` adds to that. -/
def Balanced {α β : Type} (gain : (c : C) → R c → List β) (held : Prog C R α → List β) :
    Prog C R α → Prop
  | ret _ => True
  | call c k => ∀ r, held (k r) = held (call c k) ++ gain c r ∧ Balanced gain held (k r)

end Prog

end Command

end Foundation
