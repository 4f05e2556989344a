import Mathlib.Data.Finset.Insert
import Mathlib.Data.Finset.Lattice.Basic
import Mathlib.Data.List.Nodup

/-!
# Unions that keep the order

`appendNew key mk l a` appends an element for the key `a`, unless `l` already has an
element with that key. Folded over a list of keys this is a union: `l` stays in front
as it is, and each missing key follows once, where it is met first. A loop that
remembers the keys of `l` in a set computes the same list.
-/

namespace Foundation

namespace Union

variable {α β : Type*} [DecidableEq α]

def appendNew (key : β → α) (mk : α → β) (l : List β) (a : α) : List β :=
  if a ∈ l.map key then l else l ++ [mk a]

/-- As `appendNew`, with a set of the keys met so far. -/
def appendUnseen (mk : α → β) (s : Finset α × List β) (a : α) : Finset α × List β :=
  if a ∈ s.1 then s else (insert a s.1, s.2 ++ [mk a])

variable {key : β → α} {mk : α → β}

theorem appendNew_of_mem {l : List β} {a : α} (h : a ∈ l.map key) :
    appendNew key mk l a = l :=
  if_pos h

theorem appendNew_of_notMem {l : List β} {a : α} (h : a ∉ l.map key) :
    appendNew key mk l a = l ++ [mk a] :=
  if_neg h

theorem foldl_appendNew_of_subset {l : List β} {as : List α} (h : as ⊆ l.map key) :
    as.foldl (appendNew key mk) l = l := by
  induction as with
  | nil => rfl
  | cons a as ih =>
      obtain ⟨ha, has⟩ := List.cons_subset.mp h
      rw [List.foldl_cons, appendNew_of_mem ha, ih has]

section LeftInverse

variable (hkey : ∀ a, key (mk a) = a)

include hkey

/-- The folded list is `l` followed by the first occurrence of each key it lacks. -/
theorem foldl_appendNew [BEq α] [LawfulBEq α] (l : List β) (as : List α) :
    as.foldl (appendNew key mk) l =
      l ++ (as.filter (· ∉ l.map key)).eraseDups.map mk := by
  induction as generalizing l with
  | nil => simp
  | cons a as ih =>
      by_cases ha : a ∈ l.map key
      · rw [List.foldl_cons, appendNew_of_mem ha, ih, List.filter_cons_of_neg]
        simpa using ha
      · have hrest : as.filter (· ∉ (l ++ [mk a]).map key) =
            (as.filter (· ∉ l.map key)).filter fun b => !b == a := by
          rw [List.filter_filter]
          refine List.filter_congr fun b _ => ?_
          rw [List.map_append, List.map_singleton, hkey, Bool.eq_iff_iff]
          simp only [decide_eq_true_eq, Bool.and_eq_true, Bool.not_eq_true',
            beq_eq_false_iff_ne, List.mem_append, List.mem_singleton]
          tauto
        rw [List.foldl_cons, appendNew_of_notMem ha, ih, hrest, List.filter_cons_of_pos,
          List.eraseDups_cons, List.map_cons, List.append_assoc, List.singleton_append]
        simpa using ha

theorem subset_foldl_appendNew (l : List β) (as : List α) :
    as ⊆ (as.foldl (appendNew key mk) l).map key := by
  intro a ha
  rw [foldl_appendNew hkey, List.map_append, List.map_map, List.mem_append]
  by_cases hl : a ∈ l.map key
  · exact .inl hl
  · refine .inr (List.mem_map.mpr ⟨a, List.mem_eraseDups.mpr ?_, hkey a⟩)
    exact List.mem_filter.mpr ⟨ha, by simpa using hl⟩

/-- The keys of the folded list are a union of sets. -/
theorem toFinset_foldl_appendNew (l : List β) (as : List α) :
    ((as.foldl (appendNew key mk) l).map key).toFinset =
      (l.map key).toFinset ∪ as.toFinset := by
  have hid : key ∘ mk = id := funext hkey
  ext a
  rw [foldl_appendNew hkey, List.map_append, List.map_map, hid, List.map_id,
    Finset.mem_union, List.mem_toFinset, List.mem_toFinset, List.mem_toFinset,
    List.mem_append, List.mem_eraseDups, List.mem_filter, decide_eq_true_eq]
  tauto

theorem foldl_appendNew_idem (l : List β) (as : List α) :
    as.foldl (appendNew key mk) (as.foldl (appendNew key mk) l) =
      as.foldl (appendNew key mk) l :=
  foldl_appendNew_of_subset (subset_foldl_appendNew hkey l as)

/-- The set stays the set of the keys of the list, so the loop with the set appends
what `appendNew` appends. -/
theorem foldl_appendUnseen {seen : Finset α} {l : List β}
    (h : ∀ a, a ∈ seen ↔ a ∈ l.map key) (as : List α) :
    (as.foldl (appendUnseen mk) (seen, l)).2 = as.foldl (appendNew key mk) l := by
  induction as generalizing seen l with
  | nil => rfl
  | cons a as ih =>
      by_cases ha : a ∈ seen
      · have hstep : appendUnseen mk (seen, l) a = (seen, l) := if_pos ha
        rw [List.foldl_cons, List.foldl_cons, hstep, appendNew_of_mem ((h a).mp ha), ih h]
      · have hstep : appendUnseen mk (seen, l) a = (insert a seen, l ++ [mk a]) :=
          if_neg ha
        have hnew : a ∉ l.map key := fun hmem => ha ((h a).mpr hmem)
        rw [List.foldl_cons, List.foldl_cons, hstep, appendNew_of_notMem hnew, ih]
        intro b
        rw [Finset.mem_insert, h, List.map_append, List.map_singleton, hkey,
          List.mem_append, List.mem_singleton, or_comm]

end LeftInverse

theorem nodup_foldl_appendNew {l : List α} (h : l.Nodup) (as : List α) :
    (as.foldl (appendNew id id) l).Nodup := by
  induction as generalizing l with
  | nil => exact h
  | cons a as ih =>
      rw [List.foldl_cons]
      by_cases ha : a ∈ l.map id
      · rw [appendNew_of_mem ha]
        exact ih h
      · rw [appendNew_of_notMem ha]
        rw [List.map_id] at ha
        exact ih (List.concat_eq_append ▸ h.concat ha)

theorem eraseDups_eq_foldl [BEq α] [LawfulBEq α] (as : List α) :
    as.eraseDups = as.foldl (appendNew id id) [] := by
  rw [foldl_appendNew fun _ => rfl]
  simp

theorem nodup_eraseDups [BEq α] [LawfulBEq α] (as : List α) : as.eraseDups.Nodup := by
  rw [eraseDups_eq_foldl]
  exact nodup_foldl_appendNew List.nodup_nil as

theorem eraseDups_concat [BEq α] [LawfulBEq α] (as : List α) (a : α) :
    (as ++ [a]).eraseDups = appendNew id id as.eraseDups a := by
  rw [eraseDups_eq_foldl, eraseDups_eq_foldl, List.foldl_append]
  rfl

end Union

end Foundation
