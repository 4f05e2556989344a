import Mathlib.Data.List.ReduceOption

/-!
# Work in sections

Work is done in sections, and between two of them others may change the state. A section
is apart from the others when it commutes with whatever they do. If all sections of a
piece of work are, and what each leaves to do does not depend on the others either, the
work may be taken as one step before or after them. One section that is not apart does
no harm: the work is then one step at the place of that section.
-/

namespace Foundation

namespace Weave

/-- Work in sections: a section changes the state, and what it saw says what is left. -/
inductive Work (σ : Type) where
  | done
  | sect (act : σ → σ) (next : σ → Work σ)

namespace Work

variable {σ : Type}

def run : Work σ → σ → σ
  | done, s => s
  | sect act next, s => (next s).run (act s)

def seq : Work σ → Work σ → Work σ
  | done, u => u
  | sect act next, u => sect act fun s => (next s).seq u

def each : List (σ → σ) → Work σ
  | [] => done
  | act :: acts => sect act fun _ => each acts

@[simp] theorem run_done (s : σ) : (done : Work σ).run s = s := rfl

@[simp] theorem run_sect (act : σ → σ) (next : σ → Work σ) (s : σ) :
    (sect act next).run s = (next s).run (act s) := rfl

theorem run_seq (t u : Work σ) (s : σ) : (t.seq u).run s = u.run (t.run s) := by
  induction t generalizing s with
  | done => rfl
  | sect act next ih => exact ih s (act s)

theorem run_each (acts : List (σ → σ)) (s : σ) :
    (each acts).run s = acts.foldl (fun s act => act s) s := by
  induction acts generalizing s with
  | nil => rfl
  | cons act acts ih => exact ih (act s)

theorem seq_eq_done {t u : Work σ} (h : t.seq u = done) : t = done ∧ u = done := by
  cases t with
  | done => exact ⟨rfl, h⟩
  | sect act next => cases h

end Work

open Work

structure Others (γ σ : Type) where
  act : σ → γ → σ
  Inv : σ → Prop
  inv_act : ∀ s x, Inv s → Inv (act s x)

variable {γ σ : Type} (o : Others γ σ)

/-- Work on its way: the next section is done, or one of the others acts. -/
def weave (c : Work σ × σ) : Option γ → Work σ × σ
  | some x => (c.1, o.act c.2 x)
  | none =>
      match c.1 with
      | done => c
      | sect act next => (next c.2, act c.2)

def Apart (act : σ → σ) : Prop :=
  ∀ s, o.Inv s → o.Inv (act s) ∧ ∀ x, act (o.act s x) = o.act (act s) x

def Steady (next : σ → Work σ) : Prop :=
  ∀ s x, o.Inv s → next (o.act s x) = next s

def Late : Work σ → Prop
  | done => True
  | sect act next => Apart o act ∧ Steady o next ∧ ∀ s, o.Inv s → Late (next s)

/-- All sections are apart from the others, but for one. -/
def Early : Work σ → Prop
  | done => True
  | sect act next =>
      (Apart o act ∧ Steady o next ∧ ∀ s, o.Inv s → Early (next s)) ∨
        ∀ s, o.Inv s → o.Inv (act s) ∧ Late o (next s)

variable {o}

/-! ## Which work is late, which is early -/

theorem apart_id : Apart o id := fun _ hs => ⟨hs, fun _ => rfl⟩

theorem Late.early {t : Work σ} (h : Late o t) : Early o t := by
  induction t with
  | done => trivial
  | sect act next ih => exact Or.inl ⟨h.1, h.2.1, fun s hs => ih s (h.2.2 s hs)⟩

theorem late_each {acts : List (σ → σ)} (h : ∀ act ∈ acts, Apart o act) :
    Late o (each acts) := by
  induction acts with
  | nil => trivial
  | cons act acts ih =>
      obtain ⟨hact, hacts⟩ := List.forall_mem_cons.1 h
      exact ⟨hact, fun _ _ _ => rfl, fun _ _ => ih hacts⟩

/-! ## What the others do comes before or after -/

theorem inv_foldl {s : σ} (hs : o.Inv s) (xs : List γ) : o.Inv (xs.foldl o.act s) := by
  induction xs generalizing s with
  | nil => exact hs
  | cons x xs ih => exact ih (o.inv_act s x hs)

theorem Apart.foldl {act : σ → σ} (h : Apart o act) {s : σ} (hs : o.Inv s)
    (xs : List γ) : act (xs.foldl o.act s) = xs.foldl o.act (act s) := by
  induction xs generalizing s with
  | nil => rfl
  | cons x xs ih =>
      rw [List.foldl_cons, ih (o.inv_act s x hs), (h s hs).2, List.foldl_cons]

theorem Steady.foldl {next : σ → Work σ} (h : Steady o next) {s : σ} (hs : o.Inv s)
    (xs : List γ) : next (xs.foldl o.act s) = next s := by
  induction xs generalizing s with
  | nil => rfl
  | cons x xs ih => rw [List.foldl_cons, ih (o.inv_act s x hs), h s x hs]

theorem Late.run_act {t : Work σ} (h : Late o t) {s : σ} (hs : o.Inv s) (x : γ) :
    t.run (o.act s x) = o.act (t.run s) x := by
  induction t generalizing s with
  | done => rfl
  | sect act next ih =>
      obtain ⟨hact, hnext, hlate⟩ := h
      obtain ⟨hinv, hmoves⟩ := hact s hs
      rw [run_sect, hmoves, hnext s x hs, ih s (hlate s hs) hinv, run_sect]

/-- Late work is over before the others begin. -/
theorem weave_late {t : Work σ} (h : Late o t) {s s' : σ} (hs : o.Inv s)
    {slots : List (Option γ)} (hover : slots.foldl (weave o) (t, s) = (done, s')) :
    s' = slots.reduceOption.foldl o.act (t.run s) := by
  induction slots generalizing t s with
  | nil =>
      obtain ⟨rfl, rfl⟩ := Prod.mk.inj hover
      rfl
  | cons slot slots ih =>
      cases slot with
      | some x =>
          rw [ih h (o.inv_act s x hs) hover, h.run_act hs, List.reduceOption_cons_of_some,
            List.foldl_cons]
      | none =>
          rw [List.reduceOption_cons_of_none]
          cases t with
          | done => exact ih h hs hover
          | sect act next => exact ih (h.2.2 s hs) (h.1 s hs).1 hover

/-- Early work is done at once, somewhere among what the others do. -/
theorem weave_early {t : Work σ} (h : Early o t) {s s' : σ} (hs : o.Inv s)
    {slots : List (Option γ)} (hover : slots.foldl (weave o) (t, s) = (done, s')) :
    ∃ xs ys, slots.reduceOption = xs ++ ys ∧
      s' = ys.foldl o.act (t.run (xs.foldl o.act s)) := by
  induction slots generalizing t s with
  | nil =>
      obtain ⟨rfl, rfl⟩ := Prod.mk.inj hover
      exact ⟨[], [], rfl, rfl⟩
  | cons slot slots ih =>
      cases slot with
      | some x =>
          obtain ⟨xs, ys, hslots, hs'⟩ := ih h (o.inv_act s x hs) hover
          refine ⟨x :: xs, ys, ?_, hs'⟩
          rw [List.reduceOption_cons_of_some, hslots, List.cons_append]
      | none =>
          rw [List.reduceOption_cons_of_none]
          cases t with
          | done => exact ih h hs hover
          | sect act next =>
              rcases h with ⟨hact, hnext, hearly⟩ | hlate
              · obtain ⟨xs, ys, hslots, hs'⟩ := ih (hearly s hs) (hact s hs).1 hover
                refine ⟨xs, ys, hslots, ?_⟩
                rw [run_sect, hact.foldl hs, hnext.foldl hs]
                exact hs'
              · obtain ⟨hinv, hnext⟩ := hlate s hs
                exact ⟨[], slots.reduceOption, rfl, weave_late hnext hinv hover⟩

/-- What the others do meanwhile is cut in two where the first piece of work is over. -/
theorem weave_seq {t u : Work σ} {s s' : σ} {slots : List (Option γ)}
    (hover : slots.foldl (weave o) (t.seq u, s) = (done, s')) :
    ∃ slots₁ slots₂ s₁, slots = slots₁ ++ slots₂ ∧
      slots₁.foldl (weave o) (t, s) = (done, s₁) ∧
      slots₂.foldl (weave o) (u, s₁) = (done, s') := by
  induction slots generalizing t s with
  | nil =>
      obtain ⟨hseq, rfl⟩ := Prod.mk.inj hover
      obtain ⟨rfl, rfl⟩ := seq_eq_done hseq
      exact ⟨[], [], s, rfl, rfl, rfl⟩
  | cons slot slots ih =>
      cases t with
      | done => exact ⟨[], slot :: slots, s, rfl, rfl, hover⟩
      | sect act next =>
          cases slot with
          | some x =>
              obtain ⟨slots₁, slots₂, s₁, rfl, hfirst, hrest⟩ :=
                ih (t := sect act next) (s := o.act s x) hover
              exact ⟨some x :: slots₁, slots₂, s₁, rfl, hfirst, hrest⟩
          | none =>
              obtain ⟨slots₁, slots₂, s₁, rfl, hfirst, hrest⟩ :=
                ih (t := next s) (s := act s) hover
              exact ⟨none :: slots₁, slots₂, s₁, rfl, hfirst, hrest⟩

theorem exists_weave_run (o : Others γ σ) (t : Work σ) (s : σ) :
    ∃ n, (List.replicate n none).foldl (weave o) (t, s) = (done, t.run s) := by
  induction t generalizing s with
  | done => exact ⟨0, rfl⟩
  | sect act next ih =>
      obtain ⟨n, hn⟩ := ih s (act s)
      exact ⟨n + 1, hn⟩

end Weave

end Foundation
