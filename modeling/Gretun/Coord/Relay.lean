import Gretun.Coord.Signals
import Gretun.Foundation.Run

/-!
# Runs of the relay

A run is a sequence of `EnqueueSignal` and `PopSignals` calls, each with the
state of its context. `recent dst ops` are the envelopes enqueued for `dst` since
the last successful `PopSignals` for it; the queue of `dst` always holds the last
of them, up to the cap.
-/

namespace Gretun

namespace Coord

open Foundation.GoSlice
open Foundation.Ring
open Foundation.Run

/-- A call, with the error of its context if that is done, and the value of the
clock or the choice of the allocator it uses. -/
inductive SignalOp where
  | enqueue (ctx : Option CtxError) (dst : Key) (env : Envelope) (extra : ℕ)
  | pop (ctx : Option CtxError) (dst : Key) (now : Time)
  deriving DecidableEq

namespace SignalOp

def ctx : SignalOp → Option CtxError
  | enqueue c _ _ _ => c
  | pop c _ _ => c

def dst : SignalOp → Key
  | enqueue _ d _ _ => d
  | pop _ d _ => d

end SignalOp

namespace Signals

def call (limits : Limits) (s : Signals) : SignalOp → Signals
  | .enqueue ctx dst env extra => (s.enqueueSignal limits extra ctx dst env).2
  | .pop ctx dst now => (s.popSignals limits ctx now dst).2

def after (limits : Limits) (ops : List SignalOp) : Signals :=
  ops.foldl (call limits) empty

theorem after_append (limits : Limits) (ops ops' : List SignalOp) :
    after limits (ops ++ ops') = ops'.foldl (call limits) (after limits ops) :=
  List.foldl_append

end Signals

def queueStep (max : ℕ) (dst : Key) (l : List Envelope) : SignalOp → List Envelope
  | .enqueue none d env _ => if d = dst then push max l env else l
  | .pop none d _ => if d = dst then [] else l
  | _ => l

def recentStep (dst : Key) (l : List Envelope) : SignalOp → List Envelope
  | .enqueue none d env _ => if d = dst then l ++ [env] else l
  | .pop none d _ => if d = dst then [] else l
  | _ => l

/-- The envelopes enqueued for `dst` since the last successful `PopSignals` for
it, in order. -/
def recent (dst : Key) (ops : List SignalOp) : List Envelope :=
  ops.foldl (recentStep dst) []

theorem recent_append_singleton (dst : Key) (ops : List SignalOp) (op : SignalOp) :
    recent dst (ops ++ [op]) = recentStep dst (recent dst ops) op := by
  rw [recent, List.foldl_append]
  rfl

theorem queueStep_rtake {max : ℕ} (hmax : 0 < max) (dst : Key) (l : List Envelope)
    (op : SignalOp) :
    queueStep max dst (l.rtake max) op = (recentStep dst l op).rtake max := by
  cases op with
  | enqueue ctx d env extra =>
      cases ctx with
      | some e => rfl
      | none =>
          simp only [queueStep, recentStep]
          split
          · exact push_rtake hmax l env
          · rfl
  | pop ctx d now =>
      cases ctx with
      | some e => rfl
      | none =>
          simp only [queueStep, recentStep]
          split
          · exact (rtake_nil max).symm
          · rfl

namespace Signals

@[simp] theorem signals_closeWake (wake : Option ℕ) (s : Signals) :
    (closeWake wake s).signals = s.signals := by
  cases wake <;> rfl

@[simp] theorem heap_closeWake (wake : Option ℕ) (s : Signals) :
    (closeWake wake s).heap = s.heap := by
  cases wake <;> rfl

/-- What a call does to the store: nothing when its context is done, else the
locked part of `EnqueueSignal`, up to the channels, or a `PopSignals`. -/
theorem call_cases (limits : Limits) (s : Signals) (op : SignalOp) :
    (op.ctx ≠ none ∧ s.call limits op = s) ∨
      (∃ dst env extra, op = .enqueue none dst env extra ∧
        (s.call limits op).signals = (s.enqueueLocked limits extra dst env).2.signals ∧
        (s.call limits op).heap = (s.enqueueLocked limits extra dst env).2.heap) ∨
      ∃ dst now, op = .pop none dst now ∧
        s.call limits op = s.popped limits now dst := by
  cases op with
  | enqueue ctx dst env extra =>
      cases ctx with
      | some e => exact Or.inl ⟨by simp [SignalOp.ctx], rfl⟩
      | none => exact Or.inr (Or.inl ⟨dst, env, extra, rfl, by simp [call,
          enqueueSignal], by simp [call, enqueueSignal]⟩)
  | pop ctx dst now =>
      cases ctx with
      | some e => exact Or.inl ⟨by simp [SignalOp.ctx], rfl⟩
      | none => exact Or.inr (Or.inr ⟨dst, now, rfl, rfl⟩)

theorem Wf.of_eq {s s' : Signals} (h : s.Wf) (hsignals : s'.signals = s.signals)
    (hheap : s'.heap = s.heap) : s'.Wf := by
  constructor
  · rw [hsignals, hheap]
    exact h.arr_lt
  · rw [hsignals]
    exact h.arr_inj

theorem contents_of_eq {s s' : Signals} (hsignals : s'.signals = s.signals)
    (hheap : s'.heap = s.heap) (dst : Key) : s'.contents dst = s.contents dst := by
  rw [contents, contents, queue, queue, hsignals, hheap]

theorem Wf.call {s : Signals} (h : s.Wf) (limits : Limits) (op : SignalOp) :
    (s.call limits op).Wf := by
  rcases call_cases limits s op with
    ⟨-, hsame⟩ | ⟨dst, env, extra, -, hsignals, hheap⟩ | ⟨dst, now, -, hpop⟩
  · rwa [hsame]
  · exact (h.enqueueLocked limits extra dst env).of_eq hsignals hheap
  · rw [hpop]
    exact h.popped limits now dst

/-- One call changes the queues as `queueStep` says. -/
theorem contents_call {s : Signals} (h : s.Wf) (limits : Limits) (op : SignalOp)
    (dst : Key) :
    (s.call limits op).contents dst =
      queueStep limits.maxQueueDepth dst (s.contents dst) op := by
  rcases call_cases limits s op with
    ⟨hctx, hsame⟩ | ⟨d, env, extra, rfl, hsignals, hheap⟩ | ⟨d, now, rfl, hpop⟩
  · rw [hsame]
    cases op with
    | enqueue ctx d env extra =>
        cases ctx with
        | none => exact absurd rfl hctx
        | some e => rfl
    | pop ctx d now =>
        cases ctx with
        | none => exact absurd rfl hctx
        | some e => rfl
  · rw [contents_of_eq hsignals hheap, queueStep]
    by_cases hd : d = dst
    · rw [if_pos hd, ← hd]
      exact contents_enqueueLocked_self limits extra d env s
    · rw [if_neg hd]
      exact contents_enqueueLocked_of_ne h limits extra env (Ne.symm hd)
  · rw [hpop, queueStep]
    by_cases hd : d = dst
    · rw [if_pos hd, ← hd]
      exact contents_popped_self limits now d s
    · rw [if_neg hd]
      exact contents_popped_of_ne h limits now (Ne.symm hd)

theorem wf_after (limits : Limits) (ops : List SignalOp) : (after limits ops).Wf :=
  invariant_foldl (fun _ op h => h.call limits op) wf_empty ops

/-- A queue holds the last of the envelopes enqueued since it was last popped, up
to the cap. -/
theorem contents_after (limits : Limits) (ops : List SignalOp) (dst : Key) :
    (after limits ops).contents dst =
      (recent dst ops).rtake limits.maxQueueDepth := by
  induction ops using List.reverseRecOn with
  | nil => exact (rtake_nil _).symm
  | append_singleton ops op ih =>
      rw [after_append, List.foldl_cons, List.foldl_nil,
        contents_call (wf_after limits ops), ih,
        queueStep_rtake limits.depth_pos, recent_append_singleton]

/-! ## Slices that were handed out -/

theorem detached_call {s : Signals} {a : ℕ} (h : Detached a s) (limits : Limits)
    (op : SignalOp) :
    Detached a (s.call limits op) ∧
      ∀ j, (s.call limits op).heap.cell a j = s.heap.cell a j := by
  rcases call_cases limits s op with
    ⟨-, hsame⟩ | ⟨dst, env, extra, -, hsignals, hheap⟩ | ⟨dst, now, -, hpop⟩
  · rw [hsame]
    exact ⟨h, fun _ => rfl⟩
  · have hnew := h.enqueueLocked limits extra dst env
    rw [hheap]
    refine ⟨⟨?_, ?_⟩, ?_⟩
    · rw [hheap]
      exact hnew.arr_lt
    · rw [hsignals]
      exact hnew.arr_ne
    · exact cell_enqueueLocked h.arr_lt (h.arr_ne dst)
  · rw [hpop]
    exact ⟨h.popped limits now dst, cell_popped (h.arr_ne dst)⟩

/-- What a `PopSignals` handed out reads the same however the run goes on. -/
theorem toList_handedOut_run {s : Signals} (h : s.Wf) (limits : Limits)
    (now : Time) (dst : Key) (ops : List SignalOp) :
    (s.handedOut limits now dst).toList
        (ops.foldl (call limits) (s.popped limits now dst)).heap =
      (s.contents dst).filter (fresh limits now) := by
  rw [← toList_handedOut limits now dst s]
  rcases handedOut_detached h limits now dst with hlen | hdetached
  · have hnil : ∀ hp : Heap Envelope,
        (s.handedOut limits now dst).toList hp = [] := by
      intro hp
      rw [Slice.toList, hlen]
      rfl
    rw [hnil, hnil]
  · let Kept : Signals → Prop := fun s' =>
      Detached (s.handedOut limits now dst).arr s' ∧
        ∀ j, s'.heap.cell (s.handedOut limits now dst).arr j =
          (s.popped limits now dst).heap.cell (s.handedOut limits now dst).arr j
    have hkeep : Kept (ops.foldl (call limits) (s.popped limits now dst)) := by
      refine invariant_foldl (I := Kept) ?_ ⟨hdetached, fun _ => rfl⟩ ops
      rintro s' op ⟨hs', hcell⟩
      obtain ⟨hnext, hsame⟩ := detached_call hs' limits op
      exact ⟨hnext, fun j => (hsame j).trans (hcell j)⟩
    exact Slice.toList_congr fun i _ => hkeep.2 _

end Signals

end Coord

end Gretun
