import Mathlib.Data.List.Basic

/-!
# Cutting at a separator

`cut sep` splits a list at the first `sep`. A list that was joined around a `sep`
comes apart where it was joined, provided the first part has none.
-/

namespace Foundation

namespace Cut

variable {α : Type*} [DecidableEq α]

/-- What stands before the first `sep`, and what stands after it if there is
one. -/
def cut (sep : α) : List α → List α × Option (List α)
  | [] => ([], none)
  | x :: xs =>
      if x = sep then ([], some xs)
      else (x :: (cut sep xs).1, (cut sep xs).2)

theorem cut_append_left {sep : α} {xs : List α} (h : sep ∉ xs) (ys : List α) :
    cut sep (xs ++ ys) = (xs ++ (cut sep ys).1, (cut sep ys).2) := by
  induction xs with
  | nil => rfl
  | cons x xs ih =>
      obtain ⟨hx, hxs⟩ := List.ne_and_not_mem_of_not_mem_cons h
      rw [List.cons_append, cut, if_neg (Ne.symm hx), ih hxs, List.cons_append]

theorem cut_append {sep : α} {xs : List α} (h : sep ∉ xs) (ys : List α) :
    cut sep (xs ++ sep :: ys) = (xs, some ys) := by
  rw [cut_append_left h, cut, if_pos rfl, List.append_nil]

theorem cut_of_notMem {sep : α} {xs : List α} (h : sep ∉ xs) :
    cut sep xs = (xs, none) := by
  have hnil := cut_append_left h []
  rwa [List.append_nil, cut, List.append_nil] at hnil

/-- Two lists joined around a separator that their first parts lack have the same
parts. -/
theorem append_sep_inj {sep : α} {xs xs' ys ys' : List α} (h : sep ∉ xs)
    (h' : sep ∉ xs') (heq : xs ++ sep :: ys = xs' ++ sep :: ys') :
    xs = xs' ∧ ys = ys' := by
  have hcut := congrArg (cut sep) heq
  rw [cut_append h, cut_append h'] at hcut
  obtain ⟨hfirst, hsecond⟩ := Prod.mk.inj hcut
  exact ⟨hfirst, Option.some.inj hsecond⟩

def cutLast (sep : α) (xs : List α) : Option (List α × List α) :=
  (cut sep xs.reverse).2.map fun front => (front.reverse, (cut sep xs.reverse).1.reverse)

theorem cutLast_append {sep : α} {ys : List α} (h : sep ∉ ys) (xs : List α) :
    cutLast sep (xs ++ sep :: ys) = some (xs, ys) := by
  have hrev : (xs ++ sep :: ys).reverse = ys.reverse ++ sep :: xs.reverse := by simp
  rw [cutLast, hrev, cut_append (by simpa using h)]
  simp

end Cut

end Foundation
