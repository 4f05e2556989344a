import Gretun.Coord.Types
import Gretun.Foundation.Assoc
import Gretun.Foundation.Channel
import Gretun.Foundation.Ring
import Gretun.Foundation.Slice

/-!
# The signal queues of the store

The half of `MemStore` that `signalMu` guards: a queue of envelopes and a wake
channel for each recipient. The queues are slices: `EnqueueSignal` drops the
oldest envelope of a full queue by re-slicing, and `PopSignals` filters the
queue into its own array and hands that slice out. `contents` is the list a queue
stands for. The lemmas say what the two operations do to the contents of every
queue, and that a slice that was handed out is never written again.
-/

namespace Gretun

namespace Coord

open Foundation.Assoc
open Foundation.GoSlice
open Foundation.Channel
open Foundation.Ring

structure Limits where
  maxQueueDepth : ℕ
  depth_pos : 0 < maxQueueDepth
  maxAge : Duration

def defaultLimits : Limits where
  maxQueueDepth := 64
  depth_pos := by decide
  maxAge := 30 * Time.second

structure Signals where
  heap : Heap Envelope
  signals : AList fun _ : Key => Slice
  signalWakes : AList fun _ : Key => ℕ
  chans : Chans

namespace Signals

def empty : Signals where
  heap := Heap.empty
  signals := ∅
  signalWakes := ∅
  chans := Chans.empty

def queue (s : Signals) (dst : Key) : Slice := (s.signals.lookup dst).getD Slice.nil

def contents (s : Signals) (dst : Key) : List Envelope := (s.queue dst).toList s.heap

def makeRoom (limits : Limits) (q : Slice) : Slice :=
  if h : limits.maxQueueDepth ≤ q.len then
    q.tail (lt_of_lt_of_le limits.depth_pos h)
  else q

/-- The part of `EnqueueSignal` under the lock. It returns the wake channel that
it took out of the map. -/
def enqueueLocked (limits : Limits) (extra : ℕ) (dst : Key) (env : Envelope)
    (s : Signals) : Option ℕ × Signals :=
  let r := Slice.append extra s.heap (makeRoom limits (s.queue dst)) env
  (s.signalWakes.lookup dst,
    { s with
      heap := r.1
      signals := s.signals.insert dst r.2
      signalWakes := s.signalWakes.erase dst })

def closeWake (wake : Option ℕ) (s : Signals) : Signals :=
  match wake with
  | some ch => { s with chans := s.chans.close ch }
  | none => s

def enqueueSignal (limits : Limits) (extra : ℕ) (ctx : Option CtxError) (dst : Key)
    (env : Envelope) (s : Signals) : Except CtxError Unit × Signals :=
  match ctx with
  | some e => (.error e, s)
  | none =>
      let r := s.enqueueLocked limits extra dst env
      (.ok (), closeWake r.1 r.2)

def fresh (limits : Limits) (now : Time) (e : Envelope) : Bool :=
  now + -limits.maxAge < e.enqueue

/-- `PopSignals`. The filtered queue never outgrows its array, so nothing is
allocated. -/
def popSignals (limits : Limits) (ctx : Option CtxError) (now : Time) (dst : Key)
    (s : Signals) : Except CtxError Slice × Signals :=
  match ctx with
  | some e => (.error e, s)
  | none =>
      let r := Slice.filterInPlace 0 (fresh limits now) s.heap (s.queue dst)
      (.ok r.2, { s with heap := r.1, signals := s.signals.erase dst })

/-! ## Arrays are not shared -/

structure Wf (s : Signals) : Prop where
  arr_lt : ∀ dst q, s.signals.lookup dst = some q → q.arr < s.heap.next
  arr_inj : ∀ dst dst' q q', s.signals.lookup dst = some q →
    s.signals.lookup dst' = some q' → q.arr = q'.arr → dst = dst'

theorem wf_empty : empty.Wf where
  arr_lt := by
    intro dst q h
    simp [empty] at h
  arr_inj := by
    intro dst dst' q q' h
    simp [empty] at h

structure Detached (a : ℕ) (s : Signals) : Prop where
  arr_lt : a < s.heap.next
  arr_ne : ∀ dst q, s.signals.lookup dst = some q → q.arr ≠ a

/-- The queue of `dst` is the zero slice, or its array is its own. -/
theorem queue_cases (s : Signals) (dst : Key) :
    s.queue dst = Slice.nil ∧ s.signals.lookup dst = none ∨
      s.signals.lookup dst = some (s.queue dst) := by
  unfold queue
  cases s.signals.lookup dst with
  | none => exact Or.inl ⟨rfl, rfl⟩
  | some q => exact Or.inr rfl

@[simp] theorem makeRoom_arr (limits : Limits) (q : Slice) :
    (makeRoom limits q).arr = q.arr := by
  unfold makeRoom
  split <;> rfl

theorem makeRoom_nil (limits : Limits) : makeRoom limits Slice.nil = Slice.nil := by
  unfold makeRoom
  split
  · rename_i h
    exact absurd (lt_of_lt_of_le limits.depth_pos h) (Nat.lt_irrefl 0)
  · rfl

theorem toList_makeRoom (limits : Limits) (q : Slice) (h : Heap Envelope) :
    (makeRoom limits q).toList h =
      if limits.maxQueueDepth ≤ (q.toList h).length then (q.toList h).tail
      else q.toList h := by
  rw [Slice.length_toList]
  unfold makeRoom
  split
  · exact Slice.toList_tail q h _
  · rfl

/-! ## Enqueueing -/

theorem queue_of_lookup {s : Signals} {dst : Key} {q : Slice}
    (h : s.signals.lookup dst = some q) : s.queue dst = q := by
  rw [queue, h]
  rfl

theorem contents_enqueueLocked_self (limits : Limits) (extra : ℕ) (dst : Key)
    (env : Envelope) (s : Signals) :
    (s.enqueueLocked limits extra dst env).2.contents dst =
      push limits.maxQueueDepth (s.contents dst) env := by
  rw [contents, queue_of_lookup (AList.lookup_insert _)]
  change (Slice.append extra s.heap _ env).2.toList
    (Slice.append extra s.heap _ env).1 = _
  rw [Slice.toList_append, toList_makeRoom]
  rfl

/-- The slice that `enqueueLocked` stores: it extends the old one in place, or is
a copy in a fresh array. -/
theorem enqueueLocked_cases (limits : Limits) (extra : ℕ) (dst : Key)
    (env : Envelope) (s : Signals) :
    ∃ q, (s.enqueueLocked limits extra dst env).2.signals =
        s.signals.insert dst q ∧
      (s.signals.lookup dst = some (s.queue dst) ∧ q.arr = (s.queue dst).arr ∧
          (s.enqueueLocked limits extra dst env).2.heap.next = s.heap.next ∨
        q.arr = s.heap.next ∧
          (s.enqueueLocked limits extra dst env).2.heap.next = s.heap.next + 1) := by
  refine ⟨_, rfl, ?_⟩
  have harr := Slice.append_arr extra s.heap (makeRoom limits (s.queue dst)) env
  rcases harr with ⟨harr, hcap, hnext⟩ | hfresh
  · refine Or.inl ⟨?_, harr.trans (makeRoom_arr limits _), hnext⟩
    rcases s.queue_cases dst with ⟨hnil, -⟩ | hsome
    · rw [hnil, makeRoom_nil] at hcap
      exact absurd hcap (Nat.lt_irrefl 0)
    · exact hsome
  · exact Or.inr hfresh

theorem cell_enqueueLocked {limits : Limits} {extra : ℕ} {dst : Key}
    {env : Envelope} {s : Signals} {a : ℕ} (hlt : a < s.heap.next)
    (hne : ∀ q, s.signals.lookup dst = some q → q.arr ≠ a) (j : ℕ) :
    (s.enqueueLocked limits extra dst env).2.heap.cell a j = s.heap.cell a j := by
  refine Slice.append_cell_of_ne extra s.heap (makeRoom limits (s.queue dst)) env
    ?_ hlt
  rcases s.queue_cases dst with ⟨hnil, -⟩ | hsome
  · right
    rw [hnil, makeRoom_nil]
    rfl
  · left
    rw [makeRoom_arr]
    exact (hne _ hsome).symm

theorem Wf.enqueueLocked {s : Signals} (h : s.Wf) (limits : Limits) (extra : ℕ)
    (dst : Key) (env : Envelope) : (s.enqueueLocked limits extra dst env).2.Wf := by
  obtain ⟨q, hsignals, hq⟩ := enqueueLocked_cases limits extra dst env s
  have hle : s.heap.next ≤ (s.enqueueLocked limits extra dst env).2.heap.next := by
    rcases hq with ⟨-, -, hnext⟩ | ⟨-, hnext⟩ <;> omega
  -- the array of the new slice differs from those of the other queues
  have hother : ∀ dst' q', dst' ≠ dst → s.signals.lookup dst' = some q' →
      q'.arr ≠ q.arr := by
    intro dst' q' hne hlookup heq
    rcases hq with ⟨hold, harr, -⟩ | ⟨harr, -⟩
    · exact hne (h.arr_inj _ _ _ _ hlookup hold (heq.trans harr))
    · have := h.arr_lt _ _ hlookup
      omega
  constructor
  · intro dst' q' hlookup
    rw [hsignals] at hlookup
    rcases lookup_insert_cases hlookup with ⟨-, rfl⟩ | ⟨-, hlookup⟩
    · rcases hq with ⟨hold, harr, hnext⟩ | ⟨harr, hnext⟩
      · have := h.arr_lt _ _ hold
        omega
      · omega
    · have := h.arr_lt _ _ hlookup
      omega
  · intro d d' q₁ q₂ h₁ h₂ harr
    rw [hsignals] at h₁ h₂
    rcases lookup_insert_cases h₁ with ⟨hd, hq₁⟩ | ⟨hd, hold₁⟩
    · rcases lookup_insert_cases h₂ with ⟨hd', -⟩ | ⟨hd', hold₂⟩
      · rw [hd, hd']
      · rw [hq₁] at harr
        exact absurd harr.symm (hother d' q₂ hd' hold₂)
    · rcases lookup_insert_cases h₂ with ⟨-, hq₂⟩ | ⟨-, hold₂⟩
      · rw [hq₂] at harr
        exact absurd harr (hother d q₁ hd hold₁)
      · exact h.arr_inj _ _ _ _ hold₁ hold₂ harr

theorem Detached.enqueueLocked {s : Signals} {a : ℕ} (h : Detached a s)
    (limits : Limits) (extra : ℕ) (dst : Key) (env : Envelope) :
    Detached a (s.enqueueLocked limits extra dst env).2 := by
  obtain ⟨q, hsignals, hq⟩ := enqueueLocked_cases limits extra dst env s
  have hlt := h.arr_lt
  constructor
  · rcases hq with ⟨-, -, hnext⟩ | ⟨-, hnext⟩ <;> omega
  · intro dst' q' hlookup
    rw [hsignals] at hlookup
    rcases lookup_insert_cases hlookup with ⟨-, rfl⟩ | ⟨-, hlookup⟩
    · rcases hq with ⟨hold, harr, -⟩ | ⟨harr, -⟩
      · rw [harr]
        exact h.arr_ne _ _ hold
      · omega
    · exact h.arr_ne _ _ hlookup

theorem contents_congr {s s' : Signals} {dst : Key}
    (hlookup : s'.signals.lookup dst = s.signals.lookup dst)
    (hcell : ∀ q, s.signals.lookup dst = some q →
      ∀ j, s'.heap.cell q.arr j = s.heap.cell q.arr j) :
    s'.contents dst = s.contents dst := by
  have hqueue : s'.queue dst = s.queue dst := by rw [queue, queue, hlookup]
  rw [contents, contents, hqueue]
  rcases s.queue_cases dst with ⟨hnil, -⟩ | hsome
  · rw [hnil]
    rfl
  · exact Slice.toList_congr fun i _ => hcell _ hsome _

theorem contents_enqueueLocked_of_ne {s : Signals} (h : s.Wf) (limits : Limits)
    (extra : ℕ) (env : Envelope) {dst dst' : Key} (hne : dst' ≠ dst) :
    (s.enqueueLocked limits extra dst env).2.contents dst' = s.contents dst' := by
  obtain ⟨q, hsignals, -⟩ := enqueueLocked_cases limits extra dst env s
  refine contents_congr (by rw [hsignals, AList.lookup_insert_ne hne]) ?_
  intro q' hlookup j
  refine cell_enqueueLocked (h.arr_lt _ _ hlookup) ?_ j
  intro q'' hq'' harr
  exact hne (h.arr_inj _ _ _ _ hlookup hq'' harr.symm)

/-! ## Popping -/

def popped (limits : Limits) (now : Time) (dst : Key) (s : Signals) : Signals :=
  (s.popSignals limits none now dst).2

def handedOut (limits : Limits) (now : Time) (dst : Key) (s : Signals) : Slice :=
  (Slice.filterInPlace 0 (fresh limits now) s.heap (s.queue dst)).2

theorem popSignals_none (limits : Limits) (now : Time) (dst : Key) (s : Signals) :
    s.popSignals limits none now dst =
      (.ok (s.handedOut limits now dst), s.popped limits now dst) := rfl

theorem toList_handedOut (limits : Limits) (now : Time) (dst : Key) (s : Signals) :
    (s.handedOut limits now dst).toList (s.popped limits now dst).heap =
      (s.contents dst).filter (fresh limits now) :=
  Slice.toList_filterInPlace 0 (fresh limits now) s.heap (s.queue dst)

theorem lookup_popped_self (limits : Limits) (now : Time) (dst : Key)
    (s : Signals) : (s.popped limits now dst).signals.lookup dst = none :=
  AList.lookup_erase _ _

theorem lookup_popped_of_ne (limits : Limits) (now : Time) {dst dst' : Key}
    (hne : dst' ≠ dst) (s : Signals) :
    (s.popped limits now dst).signals.lookup dst' = s.signals.lookup dst' :=
  AList.lookup_erase_ne hne

theorem next_popped (limits : Limits) (now : Time) (dst : Key) (s : Signals) :
    (s.popped limits now dst).heap.next = s.heap.next :=
  (Slice.filterInPlace_inv 0 (fresh limits now) s.heap (s.queue dst)).next_eq

theorem contents_popped_self (limits : Limits) (now : Time) (dst : Key)
    (s : Signals) : (s.popped limits now dst).contents dst = [] := by
  rw [contents, queue, lookup_popped_self]
  rfl

theorem cell_popped {limits : Limits} {now : Time} {dst : Key} {s : Signals}
    {a : ℕ} (hne : ∀ q, s.signals.lookup dst = some q → q.arr ≠ a) (j : ℕ) :
    (s.popped limits now dst).heap.cell a j = s.heap.cell a j := by
  rcases s.queue_cases dst with ⟨hnil, -⟩ | hsome
  · change (Slice.filterInPlace 0 _ s.heap (s.queue dst)).1.cell a j = _
    rw [hnil]
    rfl
  · exact (Slice.filterInPlace_inv 0 (fresh limits now) s.heap
      (s.queue dst)).frame a j (hne _ hsome).symm

theorem lookup_of_lookup_popped {limits : Limits} {now : Time} {dst dst' : Key}
    {s : Signals} {q : Slice}
    (h : (s.popped limits now dst).signals.lookup dst' = some q) :
    dst' ≠ dst ∧ s.signals.lookup dst' = some q :=
  lookup_of_lookup_erase h

theorem Wf.popped {s : Signals} (h : s.Wf) (limits : Limits) (now : Time)
    (dst : Key) : (s.popped limits now dst).Wf := by
  constructor
  · intro dst' q hlookup
    rw [next_popped]
    exact h.arr_lt _ _ (lookup_of_lookup_popped hlookup).2
  · intro d d' q q' hq hq'
    exact h.arr_inj _ _ _ _ (lookup_of_lookup_popped hq).2
      (lookup_of_lookup_popped hq').2

theorem contents_popped_of_ne {s : Signals} (h : s.Wf) (limits : Limits)
    (now : Time) {dst dst' : Key} (hne : dst' ≠ dst) :
    (s.popped limits now dst).contents dst' = s.contents dst' := by
  refine contents_congr (lookup_popped_of_ne limits now hne s) ?_
  intro q hlookup j
  refine cell_popped ?_ j
  intro q' hq' harr
  exact hne (h.arr_inj _ _ _ _ hlookup hq' harr.symm)

theorem Detached.popped {s : Signals} {a : ℕ} (h : Detached a s) (limits : Limits)
    (now : Time) (dst : Key) : Detached a (s.popped limits now dst) := by
  constructor
  · rw [next_popped]
    exact h.arr_lt
  · intro dst' q hlookup
    exact h.arr_ne _ _ (lookup_of_lookup_popped hlookup).2

/-- A slice that was handed out is empty or has an array that no queue uses. -/
theorem handedOut_detached {s : Signals} (h : s.Wf) (limits : Limits) (now : Time)
    (dst : Key) :
    (s.handedOut limits now dst).len = 0 ∨
      Detached (s.handedOut limits now dst).arr (s.popped limits now dst) := by
  rcases s.queue_cases dst with ⟨hnil, -⟩ | hsome
  · left
    rw [handedOut, hnil]
    rfl
  · right
    have hinv := Slice.filterInPlace_inv 0 (fresh limits now) s.heap (s.queue dst)
    have harr : (s.handedOut limits now dst).arr = (s.queue dst).arr := hinv.arr_eq
    rw [harr]
    constructor
    · rw [next_popped]
      exact h.arr_lt _ _ hsome
    · intro dst' q hlookup harr'
      obtain ⟨hne, hq⟩ := lookup_of_lookup_popped hlookup
      exact hne (h.arr_inj _ _ _ _ hq hsome harr')

end Signals

end Coord

end Gretun
