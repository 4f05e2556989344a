import Mathlib.Data.List.Basic
import Mathlib.Data.Option.Basic
import Mathlib.Tactic.DeriveCountable

/-!
# Documents with tagged fields

A document over tags `T` and scalars `S` is a scalar, a list or an object, in the
form of cells: `nil` ends a list and an object alike. One side writes it with `list`
and `obj`; the other side reads it field by field, and knows a field by its tag
only: a field that is absent reads as a given zero, a field that nobody asks for
is skipped, and of several fields with one tag the last one counts.
-/

namespace Foundation

namespace Tagged

inductive Doc (T S : Type) where
  | scalar (x : S)
  | nil
  | item (x rest : Doc T S)
  | field (tag : T) (x rest : Doc T S)
  deriving Countable

namespace Doc

variable {T S α β : Type}

/-! ## Writing -/

def list (xs : List (Doc T S)) : Doc T S := xs.foldr item nil

def obj (fields : List (T × Doc T S)) : Doc T S :=
  fields.foldr (fun f rest => field f.1 f.2 rest) nil

/-! ## Reading -/

def items : Doc T S → Option (List (Doc T S))
  | nil => some []
  | item x rest => rest.items.map (x :: ·)
  | _ => none

def fields : Doc T S → Option (List (T × Doc T S))
  | nil => some []
  | field tag x rest => rest.fields.map ((tag, x) :: ·)
  | _ => none

def readScalar (read : S → Option α) : Doc T S → Option α
  | scalar x => read x
  | _ => none

def readList (read : Doc T S → Option α) (d : Doc T S) : Option (List α) :=
  d.items.bind fun xs => xs.mapM read

def readField [BEq T] (fs : List (T × Doc T S)) (tag : T) (zero : α)
    (read : Doc T S → Option α) : Option α :=
  (fs.reverse.lookup tag).elim (some zero) read

@[simp] theorem items_list (xs : List (Doc T S)) : (list xs).items = some xs := by
  induction xs with
  | nil => rfl
  | cons x xs ih =>
      change ((list xs).items.map (x :: ·)) = _
      rw [ih]
      rfl

@[simp] theorem fields_obj (fs : List (T × Doc T S)) : (obj fs).fields = some fs := by
  induction fs with
  | nil => rfl
  | cons f fs ih =>
      change ((obj fs).fields.map ((f.1, f.2) :: ·)) = _
      rw [ih]
      rfl

theorem readList_list {read : Doc T S → Option α} {write : β → Doc T S} {f : β → α}
    (h : ∀ b, read (write b) = some (f b)) (bs : List β) :
    readList read (list (bs.map write)) = some (bs.map f) := by
  rw [readList, items_list, Option.bind_some]
  induction bs with
  | nil => rfl
  | cons b bs ih => simp [h, ih]

end Doc

end Tagged

end Foundation
