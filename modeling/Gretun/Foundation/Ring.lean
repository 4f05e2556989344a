import Mathlib.Data.List.DropRight

/-!
# Bounded queues that drop their oldest element

`push max q x` appends `x` to `q` after dropping the front element of a queue
that is full. Pushing a sequence of elements keeps the last `max` of them.
-/

namespace Foundation

namespace Ring

variable {α : Type*}

def push (max : ℕ) (q : List α) (x : α) : List α :=
  (if max ≤ q.length then q.tail else q) ++ [x]

/-- Pushing onto the last `max` elements of a sequence gives the last `max`
elements of the longer sequence. -/
theorem push_rtake {max : ℕ} (hmax : 0 < max) (l : List α) (x : α) :
    push max (l.rtake max) x = (l ++ [x]).rtake max := by
  unfold push List.rtake
  rw [List.length_append, List.length_singleton, List.length_drop]
  by_cases hfull : max ≤ l.length
  · rw [if_pos (by omega), List.tail_drop, List.drop_append_of_le_length (by omega)]
    congr 2
    omega
  · rw [if_neg (by omega), List.drop_append_of_le_length (by omega)]
    congr 2
    omega

theorem rtake_nil (max : ℕ) : ([] : List α).rtake max = [] := by
  simp [List.rtake]

end Ring

end Foundation
