import Gretun.Coord.Relay

/-!
# What becomes of an envelope

The ledger lists the envelopes the relay has accepted, in the order in which it
accepted them, each with what became of it: it waits, a `PopSignals` returned it,
it was dropped because the queue was full, or it was too old when its queue was
popped. An entry has one fate at a time, and only a waiting entry changes its
fate. The store agrees with the ledger: a queue holds the waiting entries of its
recipient, and the slice that a call handed out holds the entries returned by
that call.
-/

namespace Gretun

namespace Coord

open Foundation.GoSlice
open Foundation.Ring
open Foundation.Run

/-- What became of an accepted envelope; a number counts the calls of the run. -/
inductive Fate where
  | queued
  | returned (call : ℕ)
  | overflowed
  | aged (call : ℕ)
  deriving DecidableEq

structure Entry where
  dst : Key
  env : Envelope
  fate : Fate
  deriving DecidableEq

structure Ledger where
  calls : ℕ
  entries : List Entry

namespace Ledger

def empty : Ledger := ⟨0, []⟩

def Waits (dst : Key) (x : Entry) : Prop := x.dst = dst ∧ x.fate = .queued

instance (dst : Key) (x : Entry) : Decidable (Waits dst x) :=
  inferInstanceAs (Decidable (_ ∧ _))

def waiting (dst : Key) (l : List Entry) : List Envelope :=
  (l.filter (Waits dst ·)).map (·.env)

def returnedBy (n : ℕ) (l : List Entry) : List Envelope :=
  (l.filter (·.fate = .returned n)).map (·.env)

def overflow (dst : Key) : List Entry → List Entry
  | [] => []
  | x :: l =>
      if Waits dst x then { x with fate := .overflowed } :: l
      else x :: overflow dst l

/-- An accepted envelope waits, in place of the oldest one if the queue is full. -/
def accept (max : ℕ) (dst : Key) (env : Envelope) (l : List Entry) : List Entry :=
  (if max ≤ (waiting dst l).length then overflow dst l else l) ++
    [⟨dst, env, .queued⟩]

def settle (n : ℕ) (dst : Key) (isFresh : Envelope → Bool) (l : List Entry) :
    List Entry :=
  l.map fun x =>
    if Waits dst x then
      { x with fate := if isFresh x.env then .returned n else .aged n }
    else x

def call (limits : Limits) (L : Ledger) (op : SignalOp) : Ledger where
  calls := L.calls + 1
  entries :=
    match op with
    | .enqueue none dst env _ => accept limits.maxQueueDepth dst env L.entries
    | .pop none dst now =>
        settle L.calls dst (Signals.fresh limits now) L.entries
    | _ => L.entries

def after (limits : Limits) (ops : List SignalOp) : Ledger :=
  ops.foldl (call limits) empty

theorem after_append (limits : Limits) (ops ops' : List SignalOp) :
    after limits (ops ++ ops') = ops'.foldl (call limits) (after limits ops) :=
  List.foldl_append

@[simp] theorem calls_after (limits : Limits) (ops : List SignalOp) :
    (after limits ops).calls = ops.length := by
  induction ops using List.reverseRecOn with
  | nil => rfl
  | append_singleton ops op ih =>
      rw [after_append, List.foldl_cons, List.foldl_nil, List.length_append]
      exact congrArg (· + 1) ih

/-! ## What waits -/

theorem waiting_overflow_self (dst : Key) (l : List Entry) :
    waiting dst (overflow dst l) = (waiting dst l).tail := by
  induction l with
  | nil => rfl
  | cons x l ih =>
      by_cases hx : Waits dst x
      · have hdropped : ¬ Waits dst { x with fate := .overflowed } := by
          simp [Waits]
        simp [overflow, waiting, hx, hdropped]
      · simpa [overflow, waiting, hx] using ih

theorem waiting_overflow_of_ne {dst dst' : Key} (hne : dst' ≠ dst)
    (l : List Entry) : waiting dst' (overflow dst l) = waiting dst' l := by
  induction l with
  | nil => rfl
  | cons x l ih =>
      by_cases hx : Waits dst x
      · have hother : ¬ Waits dst' x := fun h => hne (h.1.symm.trans hx.1)
        have hdropped : ¬ Waits dst' { x with fate := .overflowed } := by
          simp [Waits]
        simp [overflow, waiting, hx, hother, hdropped]
      · by_cases hx' : Waits dst' x
        · simpa [overflow, waiting, hx, hx'] using ih
        · simpa [overflow, waiting, hx, hx'] using ih

theorem waiting_accept_self (max : ℕ) (dst : Key) (env : Envelope)
    (l : List Entry) :
    waiting dst (accept max dst env l) = push max (waiting dst l) env := by
  have hnew : Waits dst ⟨dst, env, .queued⟩ := ⟨rfl, rfl⟩
  unfold accept push
  split
  · rw [← waiting_overflow_self]
    simp [waiting, hnew]
  · simp [waiting, hnew]

theorem waiting_accept_of_ne {dst dst' : Key} (hne : dst' ≠ dst) (max : ℕ)
    (env : Envelope) (l : List Entry) :
    waiting dst' (accept max dst env l) = waiting dst' l := by
  have hnew : ¬ Waits dst' ⟨dst, env, .queued⟩ := fun h => hne h.1.symm
  unfold accept
  split
  · rw [← waiting_overflow_of_ne hne l]
    simp [waiting, hnew]
  · simp [waiting, hnew]

theorem waiting_settle_self (n : ℕ) (dst : Key) (isFresh : Envelope → Bool)
    (l : List Entry) : waiting dst (settle n dst isFresh l) = [] := by
  rw [waiting, List.map_eq_nil_iff, List.filter_eq_nil_iff]
  intro x hx
  obtain ⟨y, -, rfl⟩ := List.mem_map.1 hx
  by_cases hy : Waits dst y
  · cases isFresh y.env <;> simp [Waits, hy.1, hy.2]
  · simp [hy]

theorem waiting_settle_of_ne {dst dst' : Key} (hne : dst' ≠ dst) (n : ℕ)
    (isFresh : Envelope → Bool) (l : List Entry) :
    waiting dst' (settle n dst isFresh l) = waiting dst' l := by
  induction l with
  | nil => rfl
  | cons x l ih =>
      rw [settle, List.map_cons]
      change waiting dst' (_ :: settle n dst isFresh l) = _
      by_cases hx : Waits dst x
      · have hother : ¬ Waits dst' x := fun h => hne (h.1.symm.trans hx.1)
        have hsettled : ∀ f, ¬ Waits dst' { x with fate := f } :=
          fun f h => hne (h.1.symm.trans hx.1)
        simpa [waiting, hx, hother, hsettled] using ih
      · by_cases hx' : Waits dst' x
        · simpa [waiting, hx, hx'] using ih
        · simpa [waiting, hx, hx'] using ih

theorem waiting_call (limits : Limits) (L : Ledger) (op : SignalOp) (dst : Key) :
    waiting dst (L.call limits op).entries =
      queueStep limits.maxQueueDepth dst (waiting dst L.entries) op := by
  cases op with
  | enqueue ctx d env extra =>
      cases ctx with
      | some e => rfl
      | none =>
          simp only [call, queueStep]
          split
          · rename_i hd
            rw [hd, waiting_accept_self]
          · rename_i hd
            exact waiting_accept_of_ne (Ne.symm hd) _ _ _
  | pop ctx d now =>
      cases ctx with
      | some e => rfl
      | none =>
          simp only [call, queueStep]
          split
          · rename_i hd
            rw [hd, waiting_settle_self]
          · rename_i hd
            exact waiting_settle_of_ne (Ne.symm hd) _ _ _

/-- The queues are what waits in the ledger. -/
theorem waiting_after (limits : Limits) (ops : List SignalOp) (dst : Key) :
    waiting dst (after limits ops).entries =
      (Signals.after limits ops).contents dst := by
  induction ops using List.reverseRecOn with
  | nil => rfl
  | append_singleton ops op ih =>
      rw [after_append, Signals.after_append, List.foldl_cons, List.foldl_nil,
        List.foldl_cons, List.foldl_nil, waiting_call, ih,
        Signals.contents_call (Signals.wf_after limits ops)]

/-! ## What one call does to an entry -/

/-- How an entry may change in the call `n`: a waiting entry may be dropped by a
full queue of its recipient, or be settled by a pop of it. -/
inductive Evolves (limits : Limits) (n : ℕ) (op : SignalOp) (x : Entry) :
    Entry → Prop
  | same : Evolves limits n op x x
  | overflowed (env : Envelope) (extra : ℕ)
      (hop : op = .enqueue none x.dst env extra) (hx : x.fate = .queued) :
      Evolves limits n op x { x with fate := .overflowed }
  | returned (now : Time) (hop : op = .pop none x.dst now)
      (hx : x.fate = .queued) (hfresh : Signals.fresh limits now x.env = true) :
      Evolves limits n op x { x with fate := .returned n }
  | aged (now : Time) (hop : op = .pop none x.dst now) (hx : x.fate = .queued)
      (hold : Signals.fresh limits now x.env = false) :
      Evolves limits n op x { x with fate := .aged n }

theorem overflow_getElem? (dst : Key) {l : List Entry} {i : ℕ} {x : Entry}
    (h : l[i]? = some x) :
    (overflow dst l)[i]? = some x ∨
      Waits dst x ∧
        (overflow dst l)[i]? = some { x with fate := .overflowed } := by
  induction l generalizing i with
  | nil => cases h
  | cons y l ih =>
      by_cases hy : Waits dst y
      · cases i with
        | zero =>
            obtain rfl := Option.some.inj h
            exact Or.inr ⟨hy, by simp [overflow, hy]⟩
        | succ i => exact Or.inl (by simpa [overflow, hy] using h)
      · cases i with
        | zero => exact Or.inl (by simpa [overflow, hy] using h)
        | succ i =>
            have htail : l[i]? = some x := by simpa using h
            simpa [overflow, hy] using ih htail

@[simp] theorem length_overflow (dst : Key) (l : List Entry) :
    (overflow dst l).length = l.length := by
  induction l with
  | nil => rfl
  | cons x l ih =>
      unfold overflow
      split
      · rfl
      · simp [ih]

/-- Every entry stays in its place and changes as `Evolves` allows. -/
theorem evolves_call (limits : Limits) {L : Ledger} (op : SignalOp) {i : ℕ}
    {x : Entry} (h : L.entries[i]? = some x) :
    ∃ y, (L.call limits op).entries[i]? = some y ∧
      Evolves limits L.calls op x y := by
  have hlt : i < L.entries.length := (List.getElem?_eq_some_iff.1 h).1
  cases op with
  | enqueue ctx d env extra =>
      cases ctx with
      | some e => exact ⟨x, h, .same⟩
      | none =>
          simp only [call, accept]
          split
          · rw [List.getElem?_append_left (by simpa using hlt)]
            rcases overflow_getElem? d h with hsame | ⟨⟨rfl, hx⟩, hdrop⟩
            · exact ⟨x, hsame, .same⟩
            · exact ⟨_, hdrop, .overflowed env extra rfl hx⟩
          · rw [List.getElem?_append_left hlt]
            exact ⟨x, h, .same⟩
  | pop ctx d now =>
      cases ctx with
      | some e => exact ⟨x, h, .same⟩
      | none =>
          simp only [call, settle, List.getElem?_map, h, Option.map_some]
          refine ⟨_, rfl, ?_⟩
          split
          · rename_i hx
            obtain ⟨rfl, hx⟩ := hx
            cases hfresh : Signals.fresh limits now x.env with
            | true => exact .returned now rfl hx hfresh
            | false => exact .aged now rfl hx hfresh
          · exact .same

theorem mem_entries_call {limits : Limits} {L : Ledger} {op : SignalOp} {y : Entry}
    (h : y ∈ (L.call limits op).entries) :
    (∃ x ∈ L.entries, Evolves limits L.calls op x y) ∨ y.fate = .queued := by
  obtain ⟨i, hi⟩ := List.getElem?_of_mem h
  cases hx : L.entries[i]? with
  | some x =>
      obtain ⟨y', hy', hevolves⟩ := evolves_call limits op hx
      obtain rfl : y' = y := Option.some.inj (hy'.symm.trans hi)
      exact Or.inl ⟨x, List.mem_of_getElem? hx, hevolves⟩
  | none =>
      have hge : L.entries.length ≤ i := List.getElem?_eq_none_iff.1 hx
      right
      cases op with
      | enqueue ctx d env extra =>
          cases ctx with
          | some e => exact absurd (hx.symm.trans hi) (by simp)
          | none =>
              simp only [call, accept] at hi
              rw [List.getElem?_append_right (by split <;> simpa using hge)] at hi
              have hmem := List.mem_of_getElem? hi
              rw [List.mem_singleton] at hmem
              rw [hmem]
      | pop ctx d now =>
          cases ctx with
          | some e => exact absurd (hx.symm.trans hi) (by simp)
          | none =>
              simp [call, settle, hx] at hi

theorem settled_after (limits : Limits) (ops : List SignalOp) {x : Entry}
    (hx : x ∈ (after limits ops).entries) {n : ℕ}
    (hn : x.fate = .returned n ∨ x.fate = .aged n) :
    ∃ now, ops[n]? = some (.pop none x.dst now) := by
  induction ops using List.reverseRecOn generalizing x with
  | nil => cases hx
  | append_singleton ops op ih =>
      rw [after_append, List.foldl_cons, List.foldl_nil] at hx
      have hlast : (ops ++ [op])[(after limits ops).calls]? = some op := by simp
      rcases mem_entries_call hx with ⟨y, hy, hevolves⟩ | hqueued
      · cases hevolves with
        | same =>
            obtain ⟨now, hnow⟩ := ih hy hn
            have hlt : n < ops.length := (List.getElem?_eq_some_iff.1 hnow).1
            exact ⟨now, by rw [List.getElem?_append_left hlt, hnow]⟩
        | overflowed env extra hop hq => simp at hn
        | returned now hop hq hfresh =>
            obtain rfl : (after limits ops).calls = n := by simpa using hn
            exact ⟨now, hlast.trans (congrArg some hop)⟩
        | aged now hop hq hold =>
            obtain rfl : (after limits ops).calls = n := by simpa using hn
            exact ⟨now, hlast.trans (congrArg some hop)⟩
      · rw [hqueued] at hn
        simp at hn

/-! ## What a call returned -/

theorem returnedBy_overflow (n : ℕ) (dst : Key) (l : List Entry) :
    returnedBy n (overflow dst l) = returnedBy n l := by
  induction l with
  | nil => rfl
  | cons x l ih =>
      by_cases hx : Waits dst x
      · simp [overflow, returnedBy, hx, hx.2]
      · by_cases hn : x.fate = .returned n
        · simpa [overflow, returnedBy, hx, hn] using ih
        · simpa [overflow, returnedBy, hx, hn] using ih

theorem returnedBy_accept (n max : ℕ) (dst : Key) (env : Envelope)
    (l : List Entry) : returnedBy n (accept max dst env l) = returnedBy n l := by
  unfold accept
  split
  · rw [← returnedBy_overflow n dst l]
    simp [returnedBy]
  · simp [returnedBy]

theorem returnedBy_settle_of_ne {n m : ℕ} (hne : n ≠ m) (dst : Key)
    (isFresh : Envelope → Bool) (l : List Entry) :
    returnedBy n (settle m dst isFresh l) = returnedBy n l := by
  induction l with
  | nil => rfl
  | cons x l ih =>
      rw [settle, List.map_cons]
      change returnedBy n (_ :: settle m dst isFresh l) = _
      by_cases hx : Waits dst x
      · cases hfresh : isFresh x.env
        · simpa [returnedBy, hx, hx.2, hfresh] using ih
        · simpa [returnedBy, hx, hx.2, hfresh, Ne.symm hne] using ih
      · by_cases hn : x.fate = .returned n
        · simpa [returnedBy, hx, hn] using ih
        · simpa [returnedBy, hx, hn] using ih

theorem returnedBy_settle_self {n : ℕ} (dst : Key) (isFresh : Envelope → Bool)
    {l : List Entry} (h : ∀ x ∈ l, x.fate ≠ .returned n) :
    returnedBy n (settle n dst isFresh l) = (waiting dst l).filter isFresh := by
  induction l with
  | nil => rfl
  | cons x l ih =>
      have htail := ih fun y hy => h y (List.mem_cons_of_mem _ hy)
      have hx' : x.fate ≠ .returned n := h x List.mem_cons_self
      rw [settle, List.map_cons]
      change returnedBy n (_ :: settle n dst isFresh l) = _
      by_cases hx : Waits dst x
      · cases hfresh : isFresh x.env
        · simpa [returnedBy, waiting, hx, hfresh] using htail
        · simpa [returnedBy, waiting, hx, hfresh] using htail
      · simpa [returnedBy, waiting, hx, hx'] using htail

theorem returnedBy_call_of_ne {n : ℕ} {L : Ledger} (hne : n ≠ L.calls)
    (limits : Limits) (op : SignalOp) :
    returnedBy n (L.call limits op).entries = returnedBy n L.entries := by
  cases op with
  | enqueue ctx d env extra =>
      cases ctx with
      | some e => rfl
      | none => exact returnedBy_accept n _ d env L.entries
  | pop ctx d now =>
      cases ctx with
      | some e => rfl
      | none => exact returnedBy_settle_of_ne hne d _ L.entries

/-- Later calls do not change what a call returned. -/
theorem returnedBy_run {n : ℕ} {L : Ledger} (hn : n < L.calls) (limits : Limits)
    (ops : List SignalOp) :
    returnedBy n (ops.foldl (call limits) L).entries = returnedBy n L.entries := by
  have hkeep : n < (ops.foldl (call limits) L).calls ∧
      returnedBy n (ops.foldl (call limits) L).entries =
        returnedBy n L.entries := by
    refine invariant_foldl (I := fun L' : Ledger => n < L'.calls ∧
      returnedBy n L'.entries = returnedBy n L.entries) ?_ ⟨hn, rfl⟩ ops
    rintro L' op ⟨hlt, hsame⟩
    refine ⟨Nat.lt_succ_of_lt hlt, ?_⟩
    rw [returnedBy_call_of_ne (Nat.ne_of_lt hlt), hsame]
  exact hkeep.2

theorem returnedBy_after (limits : Limits) (pre post : List SignalOp) (dst : Key)
    (now : Time) :
    returnedBy pre.length
        (after limits (pre ++ .pop none dst now :: post)).entries =
      ((Signals.after limits pre).contents dst).filter
        (Signals.fresh limits now) := by
  have hnone : ∀ x ∈ (after limits pre).entries,
      x.fate ≠ .returned pre.length := by
    intro x hx hfate
    obtain ⟨now', hnow'⟩ := settled_after limits pre hx (Or.inl hfate)
    exact absurd hnow' (by simp)
  have hcalls : pre.length <
      ((after limits pre).call limits (.pop none dst now)).calls := by
    simp [call]
  rw [after_append, List.foldl_cons, returnedBy_run hcalls, ← waiting_after,
    ← returnedBy_settle_self dst (Signals.fresh limits now) hnone]
  simp [call]

/-! ## The relay as a whole -/

def accepted (ops : List SignalOp) : List (Key × Envelope) :=
  ops.filterMap fun
    | .enqueue none dst env _ => some (dst, env)
    | _ => none

theorem map_overflow (dst : Key) (l : List Entry) :
    (overflow dst l).map (fun x => (x.dst, x.env)) =
      l.map fun x => (x.dst, x.env) := by
  induction l with
  | nil => rfl
  | cons x l ih =>
      unfold overflow
      split
      · rfl
      · rw [List.map_cons, List.map_cons, ih]

theorem map_settle (n : ℕ) (dst : Key) (isFresh : Envelope → Bool)
    (l : List Entry) :
    (settle n dst isFresh l).map (fun x => (x.dst, x.env)) =
      l.map fun x => (x.dst, x.env) := by
  rw [settle, List.map_map]
  refine List.map_congr_left fun x _ => ?_
  simp only [Function.comp]
  split <;> rfl

/-- The ledger lists the accepted envelopes, each once and in order. -/
theorem entries_after (limits : Limits) (ops : List SignalOp) :
    (after limits ops).entries.map (fun x => (x.dst, x.env)) = accepted ops := by
  induction ops using List.reverseRecOn with
  | nil => rfl
  | append_singleton ops op ih =>
      rw [after_append, List.foldl_cons, List.foldl_nil, accepted,
        List.filterMap_append]
      change _ = accepted ops ++ _
      rw [← ih]
      cases op with
      | enqueue ctx d env extra =>
          cases ctx with
          | some e => simp [call]
          | none =>
              simp only [call, accept]
              split
              · rw [List.map_append, map_overflow]
                rfl
              · rw [List.map_append]
                rfl
      | pop ctx d now =>
          cases ctx with
          | some e => simp [call]
          | none =>
              simp only [call, map_settle]
              exact (List.append_nil _).symm

end Ledger

structure RelaySpec (limits : Limits) (ops : List SignalOp) : Prop where
  /-- A queue holds the last envelopes since its last pop, up to the cap. -/
  queue : ∀ dst, (Signals.after limits ops).contents dst =
    (recent dst ops).rtake limits.maxQueueDepth
  /-- A pop returns the young ones of them and empties the queue. -/
  pop : ∀ dst now, ∃ r s,
    (Signals.after limits ops).popSignals limits none now dst = (.ok r, s) ∧
      r.toList s.heap = ((recent dst ops).rtake limits.maxQueueDepth).filter
        (fun e => now - limits.maxAge < e.enqueue) ∧
      s.contents dst = []
  /-- A call whose context is done changes nothing. -/
  done : ∀ op : SignalOp, op.ctx ≠ none →
    (Signals.after limits ops).call limits op = Signals.after limits ops
  /-- A call for another recipient leaves the queue alone. -/
  others : ∀ (op : SignalOp) dst, op.dst ≠ dst →
    ((Signals.after limits ops).call limits op).contents dst =
      (Signals.after limits ops).contents dst
  /-- The ledger has one entry for each accepted envelope. -/
  accepted : (Ledger.after limits ops).entries.map (fun x => (x.dst, x.env)) =
    Ledger.accepted ops
  /-- The entries that wait are those in the queue of their recipient. -/
  waiting : ∀ dst, Ledger.waiting dst (Ledger.after limits ops).entries =
    (Signals.after limits ops).contents dst
  /-- The entries that a pop returned are those in the slice it handed out, which
  still reads the same now. -/
  returned : ∀ pre dst now post, ops = pre ++ .pop none dst now :: post →
    ∃ r s, (Signals.after limits pre).popSignals limits none now dst = (.ok r, s) ∧
      Ledger.returnedBy pre.length (Ledger.after limits ops).entries =
        r.toList (Signals.after limits ops).heap
  /-- An entry is settled by a pop of its own recipient only. -/
  settled : ∀ x ∈ (Ledger.after limits ops).entries, ∀ n,
    x.fate = .returned n ∨ x.fate = .aged n →
    ∃ now, ops[n]? = some (.pop none x.dst now)
  /-- A further call changes the fate of waiting entries only. -/
  evolves : ∀ op (i : ℕ) x, (Ledger.after limits ops).entries[i]? = some x →
    ∃ y, (Ledger.after limits (ops ++ [op])).entries[i]? = some y ∧
      Ledger.Evolves limits ops.length op x y

/-- The relay meets its contract after every sequence of calls. -/
theorem relaySpec_after (limits : Limits) (ops : List SignalOp) :
    RelaySpec limits ops where
  queue := Signals.contents_after limits ops
  pop := by
    intro dst now
    refine ⟨_, _, Signals.popSignals_none limits now dst _, ?_,
      Signals.contents_popped_self limits now dst _⟩
    rw [Signals.toList_handedOut, Signals.contents_after]
    rfl
  done := by
    intro op hctx
    rcases Signals.call_cases limits (Signals.after limits ops) op with
      ⟨-, hsame⟩ | ⟨dst, env, extra, rfl, -⟩ | ⟨dst, now, rfl, -⟩
    · exact hsame
    · exact absurd rfl hctx
    · exact absurd rfl hctx
  others := by
    intro op dst hne
    rw [Signals.contents_call (Signals.wf_after limits ops)]
    cases op with
    | enqueue ctx d env extra =>
        cases ctx with
        | some e => rfl
        | none => exact if_neg hne
    | pop ctx d now =>
        cases ctx with
        | some e => rfl
        | none => exact if_neg hne
  accepted := Ledger.entries_after limits ops
  waiting := Ledger.waiting_after limits ops
  returned := by
    rintro pre dst now post rfl
    refine ⟨_, _, Signals.popSignals_none limits now dst _, ?_⟩
    rw [Ledger.returnedBy_after, Signals.after_append, List.foldl_cons]
    exact (Signals.toList_handedOut_run (Signals.wf_after limits pre) limits now
      dst post).symm
  settled := fun _ hx _ hn => Ledger.settled_after limits ops hx hn
  evolves := by
    intro op i x hx
    rw [Ledger.after_append, List.foldl_cons, List.foldl_nil,
      ← Ledger.calls_after limits ops]
    exact Ledger.evolves_call limits op hx

end Coord

end Gretun
