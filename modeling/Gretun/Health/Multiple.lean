import Gretun.Foundation.Command
import Gretun.Health.Probe

/-!
# Several probes of one host

`ProbeMultiple` as a program: it asks whether the context is done, makes a probe, pauses,
and so on. What it asks is answered by an environment in which the context may be done
from any moment on and every probe may have any result. The verdict is that of the
threshold only if all probes were made; a cancelled call says that the host is not
healthy, whatever the results so far.

Before the first probe it makes room for all results, and does not come back when the
count is negative or too large for that. An `int` has 64 bits here.
-/

namespace Gretun

namespace Health

open Foundation.Command

/-! ## The room for the results -/

/-- The bytes of a `ProbeResult`: a string of 16, the flag padded to 8, a duration of 8,
another string and a timestamp of 24. -/
def probeResultSize : ℕ := 16 + 8 + 8 + 16 + 24

/-- The largest allocation of the runtime, whose heap addresses have 48 bits. -/
def maxAlloc : ℕ := 2 ^ 48

/-- How `make` ends when it does not return: in a panic, or with the whole process. -/
inductive MakeFault where
  | panics
  | outOfMemory
  deriving DecidableEq

/-- `makeslice` for no elements yet, when the system has `memory` bytes to give. -/
def makeslice (memory size : ℕ) (cap : Int64) : Except MakeFault Unit :=
  let mem := size * cap.toUInt64.toNat
  if maxAlloc < mem ∨ cap < 0 then .error .panics
  else if memory < mem then .error .outOfMemory
  else .ok ()

theorem toNat_toUInt64_of_nonneg {n : Int64} (hn : 0 ≤ n.toInt) :
    (n.toUInt64.toNat : ℤ) = n.toInt := by
  have hlt : n.toBitVec.toNat < 2 ^ 64 := n.toBitVec.isLt
  change 0 ≤ n.toBitVec.toInt at hn
  change (n.toBitVec.toNat : ℤ) = n.toBitVec.toInt
  rw [BitVec.toInt_eq_toNat_cond] at hn ⊢
  split at hn <;> omega

theorem makeslice_eq (memory size : ℕ) (cap : Int64) :
    makeslice memory size cap =
      if cap.toInt < 0 ∨ maxAlloc < size * cap.toInt then .error .panics
      else if memory < size * cap.toInt then .error .outOfMemory
      else .ok () := by
  have hneg : cap < 0 ↔ cap.toInt < 0 := Int64.lt_iff_toInt_lt
  unfold makeslice
  by_cases hcap : cap.toInt < 0
  · rw [if_pos (Or.inr (hneg.2 hcap)), if_pos (Or.inl hcap)]
  · have hread := toNat_toUInt64_of_nonneg (Int.not_lt.1 hcap)
    simp only [hneg, hcap, or_false, false_or]
    rw [← hread]
    norm_cast

inductive MultipleCall where
  | ctxDone
  | probe
  | pause
  deriving DecidableEq

/-- The answers. That of a pause is whether it ended because the context is done. -/
@[reducible] def MultipleCall.Resp : MultipleCall → Type
  | ctxDone => Bool
  | probe => ProbeResult
  | pause => Bool

abbrev Multiple := Prog MultipleCall MultipleCall.Resp

def countSuccess (successes : ℕ) (result : ProbeResult) : ℕ :=
  if result.success then successes + 1 else successes

def probeLoop (threshold : ℤ) : ℕ → List ProbeResult → ℕ →
    Multiple (Bool × List ProbeResult)
  | 0, results, successes => return (decide (threshold ≤ successes), results)
  | left + 1, results, successes => do
      if (← Prog.perform .ctxDone : Bool) then return (false, results)
      let result ← Prog.perform .probe
      let results := results ++ [result]
      let successes := countSuccess successes result
      if 0 < left then
        if (← Prog.perform .pause : Bool) then return (false, results)
      probeLoop threshold left results successes

/-- `ProbeMultiple`, in a system that has `memory` bytes for the results. -/
def probeMultiple (memory : ℕ) (count threshold : Int64) :
    Except MakeFault (Multiple (Bool × List ProbeResult)) := do
  makeslice memory probeResultSize count
  return probeLoop threshold.toInt count.toInt.toNat [] 0

/-! ## Every course of events -/

structure Surroundings where
  done : Bool
  probed : List ProbeResult

/-- What happens up to an answer: whether the context is done by then, the result of a
probe, and whether a pause that the context could end has ended by itself. -/
structure Turn where
  fires : Bool
  result : ProbeResult
  timer : Bool

def Surroundings.handle (t : Turn) : (c : MultipleCall) → Surroundings →
    c.Resp × Surroundings
  | .ctxDone, s => (s.done || t.fires, { s with done := s.done || t.fires })
  | .probe, s => (t.result, ⟨s.done || t.fires, s.probed ++ [t.result]⟩)
  | .pause, s => ((s.done || t.fires) && !t.timer, { s with done := s.done || t.fires })

structure Judged (count : ℕ) (threshold : ℤ) (a : Bool × List ProbeResult)
    (s : Surroundings) : Prop where
  results : a.2 = s.probed
  length : a.2.length ≤ count
  early : a.2.length < count → s.done = true
  healthy : a.1 = true ↔
    a.2.length = count ∧ threshold ≤ (a.2.countP (·.success) : ℕ)

theorem countSuccess_countP (results : List ProbeResult) (result : ProbeResult) :
    countSuccess (results.countP (·.success)) result =
      (results ++ [result]).countP (·.success) := by
  cases h : result.success <;> simp [countSuccess, h]

theorem handle_pause (t : Turn) (s : Surroundings) :
    (Surroundings.handle t .pause s).2.probed = s.probed ∧
      ((Surroundings.handle t .pause s).1 = true →
        (Surroundings.handle t .pause s).2.done = true) :=
  ⟨rfl, fun h => (Bool.and_eq_true_iff.1 h).1⟩

theorem judged_early {count : ℕ} {threshold : ℤ} {s : Surroundings}
    (hlength : s.probed.length < count) (hdone : s.done = true) :
    Judged count threshold (false, s.probed) s where
  results := rfl
  length := Nat.le_of_lt hlength
  early _ := hdone
  healthy := by
    simp only [Bool.false_eq_true, false_iff, not_and]
    omega

/-- The invariant of the loop: the results so far are those of the probes made, and the
rest is still to be made. -/
theorem wp_probeLoop {ok : MultipleCall → Turn → Prop} {count left : ℕ} (threshold : ℤ)
    {s : Surroundings} (hcount : s.probed.length + left = count) :
    Prog.wp Surroundings.handle ok
      (probeLoop threshold left s.probed (s.probed.countP (·.success)))
      (Judged count threshold) s := by
  induction left generalizing s with
  | zero =>
      refine ⟨rfl, Nat.le_of_eq hcount, fun hlt => ?_, ?_⟩
      · simp only at hlt
        omega
      · simp only [decide_eq_true_eq]
        exact ⟨fun h => ⟨hcount, h⟩, fun h => h.2⟩
  | succ left ih =>
      rw [probeLoop, Prog.perform_bind, Prog.wp_call]
      intro t _
      simp only [Surroundings.handle]
      split
      · rename_i hdone
        exact judged_early (s := { s with done := s.done || t.fires })
          (Nat.lt_of_lt_of_eq (by simp) hcount) hdone
      · rw [Prog.perform_bind, Prog.wp_call]
        intro t' _
        simp only [Surroundings.handle]
        have hcount' : (s.probed ++ [t'.result]).length + left = count := by
          simp only [List.length_append, List.length_singleton]
          omega
        rw [countSuccess_countP]
        by_cases hleft : 0 < left
        · rw [if_pos hleft, Prog.perform_bind, Prog.wp_call]
          intro t'' _
          have hpause := handle_pause t'' ⟨s.done || t.fires || t'.fires,
            s.probed ++ [t'.result]⟩
          generalize Surroundings.handle t'' .pause _ = out at hpause ⊢
          obtain ⟨noticed, s'⟩ := out
          obtain ⟨hprobed, hdone⟩ := hpause
          simp only at hprobed
          rw [← hprobed] at hcount' ⊢
          cases noticed with
          | true =>
              refine judged_early ?_ (hdone rfl)
              exact Nat.lt_of_lt_of_eq (Nat.lt_add_of_pos_right hleft) hcount'
          | false => exact ih hcount'
        · rw [if_neg hleft]
          exact ih (s := ⟨_, s.probed ++ [t'.result]⟩) hcount'

end Health

end Gretun
