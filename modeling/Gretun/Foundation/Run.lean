import Mathlib.Data.List.Basic
import Mathlib.Logic.Relation

/-!
# Runs of a state machine

A machine is a step function `step : σ → ι → σ`; a run from `s` is a list of
inputs and the state it reaches is `is.foldl step s`. `EachStep step P s is`
says that `P` holds of every pair of a state and the input handled in it along
the run, so a condition on the steps of a run and a property of the states it
visits are two instances of one predicate. The rules below move an invariant
along such a run; the relational rule at the end is for machines whose steps
are a relation.
-/

namespace Foundation

namespace Run

/-- `P` holds of every state and the input handled in it, along the run of `is`
from `s`. -/
def EachStep {σ ι : Type*} (step : σ → ι → σ) (P : σ → ι → Prop) :
    σ → List ι → Prop
  | _, [] => True
  | s, i :: is => P s i ∧ EachStep step P (step s i) is

instance decidableEachStep {σ ι : Type*} (step : σ → ι → σ)
    (P : σ → ι → Prop) [∀ s i, Decidable (P s i)] :
    ∀ (s : σ) (is : List ι), Decidable (EachStep step P s is)
  | _, [] => inferInstanceAs (Decidable True)
  | s, i :: is =>
      haveI := decidableEachStep step P (step s i) is
      inferInstanceAs (Decidable (P s i ∧ EachStep step P (step s i) is))

@[simp] theorem eachStep_nil {σ ι : Type*} (step : σ → ι → σ)
    (P : σ → ι → Prop) (s : σ) : EachStep step P s [] := trivial

@[simp] theorem eachStep_cons {σ ι : Type*} (step : σ → ι → σ)
    (P : σ → ι → Prop) (s : σ) (i : ι) (is : List ι) :
    EachStep step P s (i :: is) ↔ P s i ∧ EachStep step P (step s i) is :=
  Iff.rfl

theorem eachStep_and {σ ι : Type*} {step : σ → ι → σ} {P Q : σ → ι → Prop}
    {s : σ} {is : List ι} :
    EachStep step (fun s i => P s i ∧ Q s i) s is ↔
      EachStep step P s is ∧ EachStep step Q s is := by
  induction is generalizing s with
  | nil => simp
  | cons i is ih =>
      rw [eachStep_cons, eachStep_cons, eachStep_cons, ih]
      exact and_and_and_comm

theorem eachStep_of_forall_mem {σ ι : Type*} {step : σ → ι → σ}
    {P : ι → Prop} {is : List ι} (h : ∀ i ∈ is, P i) (s : σ) :
    EachStep step (fun _ i => P i) s is := by
  induction is generalizing s with
  | nil => trivial
  | cons i is ih =>
      exact ⟨h i List.mem_cons_self,
        ih (fun j hj => h j (List.mem_cons_of_mem _ hj)) _⟩

/-- What a run puts out, when a step in state `s` on input `i` puts out `f s i`. -/
def outputs {σ ι β : Type*} (step : σ → ι → σ) (f : σ → ι → Option β) :
    σ → List ι → List β
  | _, [] => []
  | s, i :: is => (f s i).toList ++ outputs step f (step s i) is

theorem outputs_append {σ ι β : Type*} (step : σ → ι → σ) (f : σ → ι → Option β)
    (s : σ) (is js : List ι) :
    outputs step f s (is ++ js) =
      outputs step f s is ++ outputs step f (is.foldl step s) js := by
  induction is generalizing s with
  | nil => rfl
  | cons i is ih =>
      rw [List.cons_append, outputs, ih (s := step s i), outputs, List.append_assoc,
        List.foldl_cons]

/-- A quantity that each step extends by its output is extended by a run by the
outputs of the run. -/
theorem append_outputs {σ ι β : Type*} {step : σ → ι → σ}
    {f : σ → ι → Option β} {q : σ → List β}
    (h : ∀ s i, q (step s i) = q s ++ (f s i).toList) (s : σ) (is : List ι) :
    q (is.foldl step s) = q s ++ outputs step f s is := by
  induction is generalizing s with
  | nil => exact (List.append_nil _).symm
  | cons i is ih =>
      rw [List.foldl_cons, ih (s := step s i), h, outputs, List.append_assoc]

/-- Steps that put out less than others make a run that does. -/
theorem outputs_sublist {σ ι β : Type*} {step : σ → ι → σ} {f g : σ → ι → Option β}
    (h : ∀ s i, f s i = g s i ∨ f s i = none) (s : σ) (is : List ι) :
    (outputs step f s is).Sublist (outputs step g s is) := by
  induction is generalizing s with
  | nil => exact List.Sublist.refl _
  | cons i is ih =>
      refine List.Sublist.append ?_ (ih (step s i))
      rcases h s i with hi | hi
      · rw [hi]
      · rw [hi]
        exact List.nil_sublist _

/-- An invariant that every step meeting `P` keeps holds at the end of a run
whose steps all meet `P`. -/
theorem invariant_of_eachStep {σ ι : Type*} {step : σ → ι → σ}
    {P : σ → ι → Prop} {I : σ → Prop}
    (hstep : ∀ s i, I s → P s i → I (step s i)) {s : σ} {is : List ι}
    (hs : I s) (hrun : EachStep step P s is) : I (is.foldl step s) := by
  induction is generalizing s with
  | nil => exact hs
  | cons i is ih => exact ih (hstep s i hs hrun.1) hrun.2

/-- Along a run whose steps all meet `P`, an invariant that such steps keep may
be used to pass to a further property of the steps. -/
theorem eachStep_of_invariant {σ ι : Type*} {step : σ → ι → σ}
    {P Q : σ → ι → Prop} {I : σ → Prop}
    (hstep : ∀ s i, I s → P s i → I (step s i))
    (hQ : ∀ s i, I s → P s i → Q s i) {s : σ} {is : List ι}
    (hs : I s) (hrun : EachStep step P s is) : EachStep step Q s is := by
  induction is generalizing s with
  | nil => trivial
  | cons i is ih =>
      exact ⟨hQ s i hs hrun.1, ih (hstep s i hs hrun.1) hrun.2⟩

theorem invariant_foldl {σ ι : Type*} {step : σ → ι → σ} {I : σ → Prop}
    (hstep : ∀ s i, I s → I (step s i)) {s : σ} (hs : I s) (is : List ι) :
    I (is.foldl step s) :=
  List.foldlRecOn is step hs fun s hs i _ => hstep s i hs

/-- Two conditions on steps that agree wherever an invariant holds agree along
whole runs, provided a step that meets them keeps the invariant. -/
theorem eachStep_congr {σ ι : Type*} {step : σ → ι → σ}
    {A P Q : σ → ι → Prop} {I : σ → Prop}
    (hiff : ∀ s i, I s → A s i → (P s i ↔ Q s i))
    (hstep : ∀ s i, I s → A s i → P s i → I (step s i)) {s : σ} {is : List ι}
    (hs : I s) (hrun : EachStep step A s is) :
    EachStep step P s is ↔ EachStep step Q s is := by
  induction is generalizing s with
  | nil => simp
  | cons i is ih =>
      rw [eachStep_cons, eachStep_cons, ← hiff s i hs hrun.1]
      refine and_congr_right fun hP => ?_
      exact ih (hstep s i hs hrun.1 hP) hrun.2

/-- A property that a run brings about comes about in one of its steps: there is a
first step after which it holds. -/
theorem exists_first_step {σ ι : Type*} {step : σ → ι → σ} {P : σ → Prop} {s : σ}
    {is : List ι} (hs : ¬ P s) (h : P (is.foldl step s)) :
    ∃ js i ks, is = js ++ i :: ks ∧
      (∀ ls, ls <+: js → ¬ P (ls.foldl step s)) ∧
      P (step (js.foldl step s) i) := by
  induction is generalizing s with
  | nil => exact absurd h hs
  | cons i is ih =>
      by_cases hi : P (step s i)
      · refine ⟨[], i, is, rfl, ?_, hi⟩
        intro ls hls
        rwa [List.prefix_nil.1 hls]
      · obtain ⟨js, j, ks, rfl, hbefore, hj⟩ := ih hi h
        refine ⟨i :: js, j, ks, rfl, ?_, hj⟩
        intro ls hls
        rcases List.prefix_cons_iff.1 hls with rfl | ⟨ls', rfl, hls'⟩
        · exact hs
        · exact hbefore ls' hls'

/-- A machine shows a second one through `view` all along a run exactly when every
step of the run does. -/
theorem view_foldl_iff {σ τ ι : Type*} {step : σ → ι → σ} {step' : τ → ι → τ}
    (view : σ → τ) (s : σ) (is : List ι) :
    (∀ js, js <+: is → view (js.foldl step s) = js.foldl step' (view s)) ↔
      EachStep step (fun s i => view (step s i) = step' (view s) i) s is := by
  induction is generalizing s with
  | nil => simp
  | cons i is ih =>
      rw [eachStep_cons, ← ih]
      constructor
      · intro h
        have hi : view (step s i) = step' (view s) i := h [i] (by simp)
        refine ⟨hi, fun js hjs => ?_⟩
        rw [hi]
        exact h (i :: js) (List.cons_prefix_cons.2 ⟨rfl, hjs⟩)
      · rintro ⟨hi, h⟩ js hjs
        rcases List.prefix_cons_iff.1 hjs with rfl | ⟨ks, rfl, hks⟩
        · rfl
        · rw [List.foldl_cons, List.foldl_cons, h ks hks, hi]

/-- The invariant rule for a step relation. -/
theorem invariant_of_reachable {σ : Type*} {r : σ → σ → Prop} {I : σ → Prop}
    (hstep : ∀ s s', I s → r s s' → I s') {s s' : σ} (hs : I s)
    (h : Relation.ReflTransGen r s s') : I s' := by
  induction h with
  | refl => exact hs
  | tail _ hr ih => exact hstep _ _ ih hr

/-- When a relation can be restored after every step by steps of a second machine,
every run of the first has a matching run of the second. -/
theorem simulation_foldl {σ τ ι : Type*} {step : σ → ι → σ} {r : τ → τ → Prop}
    {R : σ → τ → Prop}
    (hstep : ∀ s t i, R s t → ∃ t', Relation.ReflTransGen r t t' ∧ R (step s i) t')
    {s : σ} {t : τ} (h : R s t) (is : List ι) :
    ∃ t', Relation.ReflTransGen r t t' ∧ R (is.foldl step s) t' := by
  induction is generalizing s t with
  | nil => exact ⟨t, .refl, h⟩
  | cons i is ih =>
      obtain ⟨t₁, hfirst, h₁⟩ := hstep s t i h
      obtain ⟨t₂, hrest, h₂⟩ := ih h₁
      exact ⟨t₂, hfirst.trans hrest, h₂⟩

end Run

end Foundation
