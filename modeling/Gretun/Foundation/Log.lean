import Mathlib.Data.List.Nodup

/-!
# Logs and their positions

A log is a list that only grows, and a reader names an entry by its position. A
position that is filled keeps its entry. When the tags of the entries are
distinct, a tag determines its position, so reading distinct positions gives
distinct tags.
-/

namespace Foundation

namespace Log

variable {α β : Type*}

theorem getElem?_of_isPrefix {xs ys : List α} (h : xs <+: ys) {n : ℕ} {x : α}
    (hx : xs[n]? = some x) : ys[n]? = some x := by
  obtain ⟨zs, rfl⟩ := h
  have hlt : n < xs.length := (List.getElem?_eq_some_iff.1 hx).1
  rw [List.getElem?_append_left hlt, hx]

theorem mem_of_getElem?_append {xs ys : List α} {n : ℕ} {x : α}
    (hn : xs.length ≤ n) (hx : (xs ++ ys)[n]? = some x) : x ∈ ys := by
  rw [List.getElem?_append_right hn] at hx
  exact List.mem_of_getElem? hx

/-- A tag that occurs once determines the position of its entry. -/
theorem position_unique {g : α → Option β} {xs : List α}
    (h : (xs.filterMap g).Nodup) {n m : ℕ} {x y : α} {b : β}
    (hn : xs[n]? = some x) (hm : xs[m]? = some y) (hx : g x = some b)
    (hy : g y = some b) : n = m := by
  induction xs generalizing n m with
  | nil => cases hn
  | cons z xs ih =>
      have htail : (xs.filterMap g).Nodup :=
        h.sublist ((List.sublist_cons_self z xs).filterMap g)
      -- an entry tagged like the first one cannot stand further back
      have hfirst : ∀ {k : ℕ} {u : α}, g z = some b → xs[k]? = some u →
          g u = some b → False := by
        intro k u hz hk hu
        rw [List.filterMap_cons_some hz] at h
        exact (List.nodup_cons.1 h).1
          (List.mem_filterMap.2 ⟨u, List.mem_of_getElem? hk, hu⟩)
      cases n with
      | zero =>
          cases m with
          | zero => rfl
          | succ m =>
              obtain rfl := Option.some.inj hn
              exact (hfirst hx hm hy).elim
      | succ n =>
          cases m with
          | zero =>
              obtain rfl := Option.some.inj hm
              exact (hfirst hy hn hx).elim
          | succ m => rw [ih htail hn hm]

/-- Reading distinct positions of a log with distinct tags gives distinct tags;
`f` may see fewer of the tags than `g`. -/
theorem nodup_filterMap_positions {f g : α → Option β} {xs : List α}
    (hfg : ∀ x b, f x = some b → g x = some b) (h : (xs.filterMap g).Nodup)
    {ns : List ℕ} (hns : ns.Nodup) :
    (ns.filterMap fun n => xs[n]?.bind f).Nodup := by
  refine hns.filterMap ?_
  intro n m b hn hm
  obtain ⟨x, hx, hfx⟩ := Option.bind_eq_some_iff.1 hn
  obtain ⟨y, hy, hfy⟩ := Option.bind_eq_some_iff.1 hm
  exact position_unique h hx hy (hfg x b hfx) (hfg y b hfy)

/-- Sharing out the entries of a log by their tags gives out those that have one of the
tags, each of them once. -/
theorem perm_flatMap_filter [DecidableEq β] (tag : α → β) {ts : List β} (hts : ts.Nodup)
    (xs : List α) :
    (ts.flatMap fun t => xs.filter (tag · = t)).Perm (xs.filter (tag · ∈ ts)) := by
  induction ts generalizing xs with
  | nil => simp
  | cons t ts ih =>
      obtain ⟨ht, hts⟩ := List.nodup_cons.1 hts
      have hrest : (ts.flatMap fun t' => xs.filter (tag · = t')) =
          ts.flatMap fun t' => (xs.filter (tag · ≠ t)).filter (tag · = t') := by
        refine List.flatMap_congr fun t' ht' => ?_
        rw [List.filter_filter]
        refine List.filter_congr fun x _ => ?_
        have hne : t' ≠ t := fun h => ht (h ▸ ht')
        by_cases hx : tag x = t'
        · simp [hx, hne]
        · simp [hx]
      have hfirst : xs.filter (tag · = t) =
          (xs.filter (tag · ∈ t :: ts)).filter (tag · = t) := by
        rw [List.filter_filter]
        exact List.filter_congr fun x _ => by by_cases hx : tag x = t <;> simp [hx]
      have hothers : (xs.filter (tag · ≠ t)).filter (tag · ∈ ts) =
          (xs.filter (tag · ∈ t :: ts)).filter fun x => !decide (tag x = t) := by
        rw [List.filter_filter, List.filter_filter]
        exact List.filter_congr fun x _ => by
          by_cases hx : tag x = t
          · simp [hx, ht]
          · simp [hx]
      rw [List.flatMap_cons, hrest, hfirst]
      refine ((ih hts _).append_left _).trans ?_
      rw [hothers]
      exact List.filter_append_perm _ _

end Log

end Foundation
