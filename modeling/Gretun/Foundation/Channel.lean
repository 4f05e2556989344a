import Mathlib.Data.List.Nodup

/-!
# Channels that are only ever closed

A channel used as a one-shot broadcast carries no values: a receiver blocks
until somebody closes it. The state is therefore the number of channels made so
far and the log of the close operations. Closing a closed channel is a fault of
the program, so the log records every close, the second one of a channel as
well, and `NoDoubleClose` says that no channel occurs in it twice.
-/

namespace Foundation

namespace Channel

/-- The channels made so far are those below `next`; `closes` lists the close
operations, the latest first. -/
structure Chans where
  next : ℕ
  closes : List ℕ
  deriving DecidableEq

namespace Chans

def empty : Chans := ⟨0, []⟩

def fresh (c : Chans) : ℕ := c.next

def make (c : Chans) : Chans := { c with next := c.next + 1 }

def close (c : Chans) (ch : ℕ) : Chans := { c with closes := ch :: c.closes }

def IsOpen (c : Chans) (ch : ℕ) : Prop := ch ∉ c.closes

instance (c : Chans) (ch : ℕ) : Decidable (c.IsOpen ch) :=
  inferInstanceAs (Decidable (ch ∉ c.closes))

def NoDoubleClose (c : Chans) : Prop := c.closes.Nodup

structure Wf (c : Chans) : Prop where
  made : ∀ ch ∈ c.closes, ch < c.next
  once : c.NoDoubleClose

@[simp] theorem isOpen_make (c : Chans) (ch : ℕ) :
    c.make.IsOpen ch ↔ c.IsOpen ch := Iff.rfl

@[simp] theorem isOpen_close (c : Chans) (ch d : ℕ) :
    (c.close ch).IsOpen d ↔ d ≠ ch ∧ c.IsOpen d := by
  simp [IsOpen, close]

theorem wf_empty : empty.Wf :=
  ⟨fun _ h => absurd h List.not_mem_nil, List.nodup_nil⟩

theorem Wf.make {c : Chans} (h : c.Wf) : c.make.Wf :=
  ⟨fun ch hch => Nat.lt_succ_of_lt (h.made ch hch), h.once⟩

/-- Closing a channel that was made and is still open keeps the log free of
repetitions. -/
theorem Wf.close {c : Chans} (h : c.Wf) {ch : ℕ} (hmade : ch < c.next)
    (hopen : c.IsOpen ch) : (c.close ch).Wf := by
  refine ⟨?_, List.nodup_cons.2 ⟨hopen, h.once⟩⟩
  intro d hd
  rcases List.mem_cons.1 hd with rfl | hd
  · exact hmade
  · exact h.made d hd

theorem Wf.isOpen_fresh {c : Chans} (h : c.Wf) : c.IsOpen c.fresh :=
  fun hmem => Nat.lt_irrefl _ (h.made _ hmem)

end Chans

end Channel

end Foundation
