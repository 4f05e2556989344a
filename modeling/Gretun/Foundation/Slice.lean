import Mathlib.Data.List.Basic
import Mathlib.Data.List.Range

/-!
# Slices over a heap of backing arrays

A slice is a window of a backing array: an array identity, an offset, a length
and a capacity counted from the offset. The arrays live in a heap, so two slices
may share cells. `append` writes in place while the capacity lasts and copies to
a fresh array otherwise; the spare capacity of the copy is the runtime's choice
and is an explicit parameter. `toList` reads the visible window, and the lemmas
say what each operation does to it and to the windows of other slices.
-/

namespace Foundation

namespace GoSlice

/-- The arrays allocated so far: those below `next`, with their cells. A cell
that was never written holds the zero value. -/
structure Heap (α : Type*) where
  next : ℕ
  cell : ℕ → ℕ → α

/-- A window of a backing array. The zero slice has no capacity and array `0`,
which is never allocated. -/
structure Slice where
  arr : ℕ
  off : ℕ
  len : ℕ
  cap : ℕ
  len_le : len ≤ cap
  deriving DecidableEq

namespace Heap

def empty {α : Type*} [Inhabited α] : Heap α := ⟨1, fun _ _ => default⟩

def write {α : Type*} (h : Heap α) (a i : ℕ) (x : α) : Heap α :=
  { h with cell := fun b j => if b = a ∧ j = i then x else h.cell b j }

def writeAll {α : Type*} (h : Heap α) (a i : ℕ) (xs : List α) : Heap α :=
  { h with
    cell := fun b j =>
      if b = a ∧ i ≤ j then xs.getD (j - i) (h.cell b j) else h.cell b j }

def alloc {α : Type*} [Inhabited α] (h : Heap α) (xs : List α) : Heap α where
  next := h.next + 1
  cell := fun b j => if b = h.next then xs.getD j default else h.cell b j

def copyAppend {α : Type*} [Inhabited α] (h : Heap α) (s : Slice) (x : α) :
    Heap α where
  next := h.next + 1
  cell := fun b j =>
    if b = h.next then
      if j < s.len then h.cell s.arr (s.off + j)
      else if j = s.len then x
      else default
    else h.cell b j

end Heap

namespace Slice

def nil : Slice := ⟨0, 0, 0, 0, le_rfl⟩

def tail (s : Slice) (h : 0 < s.len) : Slice where
  arr := s.arr
  off := s.off + 1
  len := s.len - 1
  cap := s.cap - 1
  len_le := by have := s.len_le; omega

def reset (s : Slice) : Slice := ⟨s.arr, s.off, 0, s.cap, Nat.zero_le _⟩

def get {α : Type*} (s : Slice) (h : Heap α) (i : ℕ) : α :=
  h.cell s.arr (s.off + i)

def toList {α : Type*} (s : Slice) (h : Heap α) : List α :=
  (List.range s.len).map (s.get h)

/-- `append(s, x)`: in place when there is room, else into a fresh array whose
spare capacity `extra` is left to the runtime. -/
def append {α : Type*} [Inhabited α] (extra : ℕ) (h : Heap α) (s : Slice)
    (x : α) : Heap α × Slice :=
  if hroom : s.len < s.cap then
    (h.write s.arr (s.off + s.len) x, ⟨s.arr, s.off, s.len + 1, s.cap, hroom⟩)
  else
    (h.copyAppend s x,
      ⟨h.next, 0, s.len + 1, s.len + 1 + extra, Nat.le_add_right _ _⟩)

def ofList {α : Type*} [Inhabited α] (extra : ℕ) (h : Heap α) (xs : List α) :
    Heap α × Slice :=
  (h.alloc xs, ⟨h.next, 0, xs.length, xs.length + extra, Nat.le_add_right _ _⟩)

def appendAll {α : Type*} [Inhabited α] (extra : ℕ) (h : Heap α) (s : Slice)
    (xs : List α) : Heap α × Slice :=
  if hroom : s.len + xs.length ≤ s.cap then
    (h.writeAll s.arr (s.off + s.len) xs,
      ⟨s.arr, s.off, s.len + xs.length, s.cap, hroom⟩)
  else ofList extra h (s.toList h ++ xs)

/-- The loop `fresh := s[:0]; for _, e := range s { if p(e) { fresh =
append(fresh, e) } }`: every element is read from the array at its turn, after
the writes of the earlier turns. -/
def filterInPlace {α : Type*} [Inhabited α] (extra : ℕ) (p : α → Bool)
    (h : Heap α) (s : Slice) : Heap α × Slice :=
  (List.range s.len).foldl
    (fun (acc : Heap α × Slice) i =>
      if p (s.get acc.1 i) then append extra acc.1 acc.2 (s.get acc.1 i)
      else acc)
    (h, s.reset)

@[simp] theorem length_toList {α : Type*} (s : Slice) (h : Heap α) :
    (s.toList h).length = s.len := by
  simp [toList]

theorem toList_tail {α : Type*} (s : Slice) (h : Heap α) (hs : 0 < s.len) :
    (s.tail hs).toList h = (s.toList h).tail := by
  obtain ⟨n, hn⟩ : ∃ n, s.len = n + 1 := ⟨s.len - 1, by omega⟩
  have hget : (s.tail hs).get h = s.get h ∘ Nat.succ := by
    funext i
    simp only [get, tail, Function.comp, Nat.succ_eq_add_one]
    congr 1
    omega
  have hlen : (s.tail hs).len = n := by simp [tail, hn]
  rw [toList, toList, hlen, hn, hget, List.range_succ_eq_map]
  simp

theorem toList_congr {α : Type*} {s : Slice} {h h' : Heap α}
    (hc : ∀ i < s.len, s.get h' i = s.get h i) : s.toList h' = s.toList h := by
  unfold toList
  exact List.map_congr_left fun i hi => hc i (List.mem_range.1 hi)

@[simp] theorem append_len {α : Type*} [Inhabited α] (extra : ℕ) (h : Heap α)
    (s : Slice) (x : α) : (append extra h s x).2.len = s.len + 1 := by
  unfold append
  split <;> rfl

theorem toList_append {α : Type*} [Inhabited α] (extra : ℕ) (h : Heap α)
    (s : Slice) (x : α) :
    (append extra h s x).2.toList (append extra h s x).1 = s.toList h ++ [x] := by
  have hlast : (append extra h s x).2.get (append extra h s x).1 s.len = x := by
    unfold append
    split <;> simp [get, Heap.write, Heap.copyAppend]
  have hinit : ∀ i < s.len,
      (append extra h s x).2.get (append extra h s x).1 i = s.get h i := by
    intro i hi
    unfold append
    split
    · have hne : i ≠ s.len := by omega
      simp [get, Heap.write, hne]
    · simp [get, Heap.copyAppend, hi]
  rw [toList, append_len, List.range_succ, List.map_append, List.map_singleton,
    hlast]
  congr 1
  exact List.map_congr_left fun i hi => hinit i (List.mem_range.1 hi)

theorem append_arr {α : Type*} [Inhabited α] (extra : ℕ) (h : Heap α)
    (s : Slice) (x : α) :
    ((append extra h s x).2.arr = s.arr ∧ 0 < s.cap ∧
        (append extra h s x).1.next = h.next) ∨
      ((append extra h s x).2.arr = h.next ∧
        (append extra h s x).1.next = h.next + 1) := by
  unfold append
  split
  · rename_i hroom
    exact Or.inl ⟨rfl, by omega, rfl⟩
  · exact Or.inr ⟨rfl, rfl⟩

/-- `append` touches only the cells of its own array and of the fresh one. -/
theorem append_cell_of_ne {α : Type*} [Inhabited α] (extra : ℕ) (h : Heap α)
    (s : Slice) (x : α) {b j : ℕ} (hb : b ≠ s.arr ∨ s.cap = 0)
    (hlt : b < h.next) : (append extra h s x).1.cell b j = h.cell b j := by
  unfold append
  split
  · rename_i hroom
    have hne : b ≠ s.arr := hb.resolve_right (by omega)
    simp [Heap.write, hne]
  · simp [Heap.copyAppend, Nat.ne_of_lt hlt]

theorem toList_ofList {α : Type*} [Inhabited α] (extra : ℕ) (h : Heap α)
    (xs : List α) : (ofList extra h xs).2.toList (ofList extra h xs).1 = xs := by
  refine List.ext_getElem (by simp [ofList]) fun i hi hi' => ?_
  simp [ofList, toList, get, Heap.alloc, hi']

theorem toList_alloc {α : Type*} [Inhabited α] {h : Heap α} {s : Slice}
    (hs : s.arr < h.next) (xs : List α) : s.toList (h.alloc xs) = s.toList h :=
  toList_congr fun i _ => by simp [get, Heap.alloc, Nat.ne_of_lt hs]

theorem toList_writeAll_of_ne {α : Type*} (h : Heap α) {s : Slice} {a : ℕ}
    (hs : s.arr ≠ a) (i : ℕ) (xs : List α) :
    s.toList (h.writeAll a i xs) = s.toList h :=
  toList_congr fun i _ => by simp [get, Heap.writeAll, hs]

theorem toList_writeAll {α : Type*} (h : Heap α) (s : Slice) (xs : List α) :
    s.toList (h.writeAll s.arr s.off xs) =
      xs.take s.len ++ (s.toList h).drop xs.length := by
  refine List.ext_getElem ?_ fun i hi hi' => ?_
  · simp
    omega
  · rw [length_toList] at hi
    by_cases hxs : i < xs.length
    · rw [List.getElem_append_left (by simp; omega)]
      simp [toList, get, Heap.writeAll, hxs]
    · rw [List.getElem_append_right (by simp; omega)]
      have hsub : xs.length + (i - min s.len xs.length) = i := by omega
      simp [toList, get, Heap.writeAll, hxs, hsub]

/-- A window keeps its contents exactly when they are overwritten by themselves. -/
theorem toList_writeAll_eq_iff {α : Type*} (h : Heap α) (s : Slice) (xs : List α) :
    s.toList (h.writeAll s.arr s.off xs) = s.toList h ↔
      xs.take s.len = (s.toList h).take xs.length := by
  rw [toList_writeAll]
  constructor
  · intro heq
    have hcut := heq.trans (List.take_append_drop xs.length (s.toList h)).symm
    exact (List.append_inj hcut (by simp [min_comm])).1
  · intro heq
    rw [heq, List.take_append_drop]

theorem appendAll_of_room {α : Type*} [Inhabited α] (extra : ℕ) (h : Heap α)
    {s : Slice} {xs : List α} (hroom : s.len + xs.length ≤ s.cap) :
    appendAll extra h s xs =
      (h.writeAll s.arr (s.off + s.len) xs,
        ⟨s.arr, s.off, s.len + xs.length, s.cap, hroom⟩) := dif_pos hroom

theorem appendAll_of_full {α : Type*} [Inhabited α] (extra : ℕ) (h : Heap α)
    {s : Slice} {xs : List α} (hfull : ¬ s.len + xs.length ≤ s.cap) :
    appendAll extra h s xs = ofList extra h (s.toList h ++ xs) := dif_neg hfull

theorem toList_appendAll_reset {α : Type*} [Inhabited α] (extra : ℕ) (h : Heap α)
    (s : Slice) (xs : List α) :
    (appendAll extra h s.reset xs).2.toList (appendAll extra h s.reset xs).1 = xs := by
  by_cases hroom : s.reset.len + xs.length ≤ s.reset.cap
  · rw [appendAll_of_room extra h hroom]
    refine List.ext_getElem (by simp [reset]) fun i hi hi' => ?_
    simp [toList, get, Heap.writeAll, reset, hi']
  · rw [appendAll_of_full extra h hroom, toList_ofList]
    simp [toList, reset]

/-- Refilling a slice shows in no window of another array. -/
theorem toList_appendAll_of_ne {α : Type*} [Inhabited α] (extra : ℕ) {h : Heap α}
    {s t : Slice} (ht : t.arr < h.next) (hne : t.arr ≠ s.arr) (xs : List α) :
    t.toList (appendAll extra h s.reset xs).1 = t.toList h := by
  by_cases hroom : s.reset.len + xs.length ≤ s.reset.cap
  · rw [appendAll_of_room extra h hroom]
    exact toList_writeAll_of_ne h hne _ xs
  · rw [appendAll_of_full extra h hroom]
    exact toList_alloc ht _

/-- A window of the same array that starts where the slice does keeps its contents
exactly when there is no room, so that the refilled slice moves to a fresh array, or
they are overwritten by themselves. -/
theorem toList_appendAll_eq_iff {α : Type*} [Inhabited α] (extra : ℕ) {h : Heap α}
    {s t : Slice} (ht : t.arr < h.next) (harr : t.arr = s.arr) (hoff : t.off = s.off)
    (xs : List α) :
    t.toList (appendAll extra h s.reset xs).1 = t.toList h ↔
      (xs.length ≤ s.cap → xs.take t.len = (t.toList h).take xs.length) := by
  by_cases hroom : s.reset.len + xs.length ≤ s.reset.cap
  · rw [appendAll_of_room extra h hroom]
    have hwindow : s.reset.off + s.reset.len = t.off := hoff.symm
    have hcap : xs.length ≤ s.cap := by simpa [reset] using hroom
    rw [hwindow, show s.reset.arr = t.arr from harr.symm, toList_writeAll_eq_iff]
    exact ⟨fun heq _ => heq, fun heq => heq hcap⟩
  · rw [appendAll_of_full extra h hroom]
    have hcap : ¬ xs.length ≤ s.cap := by simpa [reset] using hroom
    exact ⟨fun _ hle => absurd hle hcap, fun _ => toList_alloc ht _⟩

theorem appendAll_reset_cases {α : Type*} [Inhabited α] (extra : ℕ) (h : Heap α)
    (s : Slice) (xs : List α) :
    let r := appendAll extra h s.reset xs
    (r.2.arr = s.arr ∧ r.2.off = s.off ∧ r.1.next = h.next) ∨
      (r.2.arr = h.next ∧ r.2.off = 0 ∧ r.1.next = h.next + 1) := by
  by_cases hroom : s.reset.len + xs.length ≤ s.reset.cap
  · rw [appendAll_of_room extra h hroom]
    exact Or.inl ⟨rfl, rfl, rfl⟩
  · rw [appendAll_of_full extra h hroom]
    exact Or.inr ⟨rfl, rfl, rfl⟩

/-- What the filtering loop has done after the first `k` turns: the kept elements
stand at the front of the array, and nothing from cell `k` on has moved. -/
structure FilterInv {α : Type*} (p : α → Bool) (h : Heap α) (s : Slice) (k : ℕ)
    (acc : Heap α × Slice) : Prop where
  next_eq : acc.1.next = h.next
  arr_eq : acc.2.arr = s.arr
  off_eq : acc.2.off = s.off
  cap_eq : acc.2.cap = s.cap
  toList_eq : acc.2.toList acc.1 = ((s.toList h).take k).filter p
  rest_eq : ∀ j, k ≤ j → s.get acc.1 j = s.get h j
  frame : ∀ b j, b ≠ s.arr → acc.1.cell b j = h.cell b j

theorem FilterInv.len_le {α : Type*} {p : α → Bool} {h : Heap α} {s : Slice}
    {k : ℕ} {acc : Heap α × Slice} (hinv : FilterInv p h s k acc) :
    acc.2.len ≤ k := by
  have hlen := congrArg List.length hinv.toList_eq
  rw [length_toList] at hlen
  calc acc.2.len = (((s.toList h).take k).filter p).length := hlen
    _ ≤ ((s.toList h).take k).length := List.length_filter_le _ _
    _ ≤ k := List.length_take_le _ _

theorem toList_take_succ {α : Type*} (s : Slice) (h : Heap α) {k : ℕ}
    (hk : k < s.len) :
    (s.toList h).take (k + 1) = (s.toList h).take k ++ [s.get h k] := by
  rw [List.take_add_one]
  congr 1
  simp [toList, hk]

theorem filterInv_step {α : Type*} [Inhabited α] (extra : ℕ) (p : α → Bool)
    (h : Heap α) (s : Slice) {k : ℕ} (hk : k < s.len) {acc : Heap α × Slice}
    (hinv : FilterInv p h s k acc) :
    FilterInv p h s (k + 1)
      (if p (s.get acc.1 k) then append extra acc.1 acc.2 (s.get acc.1 k)
        else acc) := by
  have hread : s.get acc.1 k = s.get h k := hinv.rest_eq k le_rfl
  have hlist : ((s.toList h).take (k + 1)).filter p =
      acc.2.toList acc.1 ++ [s.get h k].filter p := by
    rw [toList_take_succ s h hk, List.filter_append, hinv.toList_eq]
  rw [hread]
  cases hp : p (s.get h k) with
  | false =>
      refine { hinv with toList_eq := ?_, rest_eq := ?_ }
      · simpa [hp] using hlist.symm
      · exact fun j hj => hinv.rest_eq j (by omega)
  | true =>
      have hlen := hinv.len_le
      have hcap := s.len_le
      -- the kept elements never overtake the reader, so there is always room
      have hroom : acc.2.len < acc.2.cap := by rw [hinv.cap_eq]; omega
      have htoList := toList_append extra acc.1 acc.2 (s.get h k)
      have heq : append extra acc.1 acc.2 (s.get h k) =
          (acc.1.write acc.2.arr (acc.2.off + acc.2.len) (s.get h k),
            ⟨acc.2.arr, acc.2.off, acc.2.len + 1, acc.2.cap, hroom⟩) := by
        simp [append, hroom]
      rw [if_pos rfl]
      refine ⟨?_, ?_, ?_, ?_, ?_, ?_, ?_⟩
      · rw [heq]; exact hinv.next_eq
      · rw [heq]; exact hinv.arr_eq
      · rw [heq]; exact hinv.off_eq
      · rw [heq]; exact hinv.cap_eq
      · rw [htoList, hlist]
        simp [hp]
      · intro j hj
        rw [heq, ← hinv.rest_eq j (by omega)]
        have hne : j ≠ acc.2.len := by omega
        simp [get, Heap.write, hinv.off_eq, hne]
      · intro b j hb
        rw [heq, ← hinv.frame b j hb]
        have hne : b ≠ acc.2.arr := by rw [hinv.arr_eq]; exact hb
        simp [Heap.write, hne]

theorem filterInPlace_inv {α : Type*} [Inhabited α] (extra : ℕ) (p : α → Bool)
    (h : Heap α) (s : Slice) :
    FilterInv p h s s.len (filterInPlace extra p h s) := by
  have hupTo : ∀ k ≤ s.len, FilterInv p h s k
      ((List.range k).foldl
        (fun (acc : Heap α × Slice) i =>
          if p (s.get acc.1 i) then append extra acc.1 acc.2 (s.get acc.1 i)
          else acc)
        (h, s.reset)) := by
    intro k hk
    induction k with
    | zero => exact ⟨rfl, rfl, rfl, rfl, rfl, fun _ _ => rfl, fun _ _ _ => rfl⟩
    | succ k ih =>
        rw [List.range_succ, List.foldl_append]
        exact filterInv_step extra p h s hk (ih (by omega))
  exact hupTo s.len le_rfl

/-- Filtering a slice into its own array keeps exactly the elements that satisfy
the test, in order. -/
theorem toList_filterInPlace {α : Type*} [Inhabited α] (extra : ℕ)
    (p : α → Bool) (h : Heap α) (s : Slice) :
    (filterInPlace extra p h s).2.toList (filterInPlace extra p h s).1 =
      (s.toList h).filter p := by
  rw [(filterInPlace_inv extra p h s).toList_eq, List.take_of_length_le]
  simp

end Slice

end GoSlice

end Foundation
