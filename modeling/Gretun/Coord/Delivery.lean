import Gretun.Coord.Integrity
import Gretun.Coord.Ledger
import Gretun.Coord.ServerSignals
import Gretun.Foundation.Log
import Mathlib.Data.List.Flatten

/-!
# Delivery across requests

What the relay does under any interleaving of the requests. `trace` lists the store
calls of a run of the server, each with the request that made it, in the order in
which they took place. The calls among them that touch the queues are a run of the
relay, so that the ledger says what became of each envelope; and the responses are
compared with the trace request by request: what the server has answered under a
number, or is about to answer, is what the calls under this number have got.
-/

namespace Gretun

namespace Coord

open Gretun.Net
open Foundation.Assoc
open Foundation.Command
open Foundation.Run

/-! ## Store calls of a run -/

structure Performed where
  id : ℕ
  decision : Decision
  call : StoreCall
  answer : Answer call

def StoreCall.signalOp (d : Decision) : StoreCall → Option SignalOp
  | .enqueueLocked dst env => some (.enqueue d.ctx dst env d.extra)
  | .popSignals dst => some (.pop d.ctx dst d.now)
  | _ => none

def relayCalls (tr : List Performed) : List (ℕ × SignalOp) :=
  tr.filterMap fun p => (p.call.signalOp p.decision).map (p.id, ·)

def ledgerOf (limits : Limits) (tr : List Performed) : Ledger :=
  Ledger.after limits ((relayCalls tr).map Prod.snd)

def callNumbers (id : ℕ) (calls : List (ℕ × SignalOp)) : List ℕ :=
  (calls.zipIdx.filter (·.1.1 = id)).map Prod.snd

theorem callNumbers_append_singleton (id : ℕ) (calls : List (ℕ × SignalOp))
    (x : ℕ × SignalOp) :
    callNumbers id (calls ++ [x]) =
      callNumbers id calls ++ if x.1 = id then [calls.length] else [] := by
  rw [callNumbers, List.zipIdx_append, List.filter_append, List.map_append]
  by_cases hx : x.1 = id <;> simp [callNumbers, hx]

theorem mem_callNumbers {id n : ℕ} {calls : List (ℕ × SignalOp)} :
    n ∈ callNumbers id calls ↔ ∃ op, calls[n]? = some (id, op) := by
  simp only [callNumbers, List.mem_map, List.mem_filter, decide_eq_true_eq]
  constructor
  · rintro ⟨⟨⟨id', op⟩, n'⟩, ⟨hmem, rfl⟩, rfl⟩
    exact ⟨op, by simpa using List.mk_mem_zipIdx_iff_getElem?.1 hmem⟩
  · rintro ⟨op, hop⟩
    exact ⟨((id, op), n), ⟨List.mk_mem_zipIdx_iff_getElem?.2 (by simpa using hop), rfl⟩,
      rfl⟩

theorem nodup_flatMap_callNumbers {ids : List ℕ} (hids : ids.Nodup)
    (calls : List (ℕ × SignalOp)) : (ids.flatMap (callNumbers · calls)).Nodup := by
  refine List.nodup_flatMap.2 ⟨fun id _ => ?_, hids.imp fun {id id'} hne => ?_⟩
  · have hzip : (calls.zipIdx.map Prod.snd).Nodup := by
      rw [List.zipIdx_map_snd]
      exact List.nodup_range'
    exact hzip.sublist (List.filter_sublist.map Prod.snd)
  · intro n hn hn'
    obtain ⟨op, hop⟩ := mem_callNumbers.1 hn
    obtain ⟨op', hop'⟩ := mem_callNumbers.1 hn'
    rw [hop] at hop'
    cases hop'
    exact hne rfl

namespace Server

def performed (env : ServerEnv) (s : Server) : ServerInput → Option Performed
  | .arrive .. => none
  | .advance id d => match s.inflight id with
    | none => none
    | some f => match f.prog with
      | .ret _ => none
      | .call c _ => (s.store.answer env.newEtag env.limits d c).map fun r =>
          ⟨id, d, c, r.1⟩

def trace (env : ServerEnv) (pool : Prefix) (is : List ServerInput) : List Performed :=
  outputs (step env) (performed env) (start env pool) is

/-- All that a step can be: nothing, the arrival of a request, a response, or one
store call of a request in flight. -/
theorem step_performed (env : ServerEnv) (s : Server) (i : ServerInput) :
    s.performed env i = none ∧ s.step env i = s ∨
      (∃ id req now, i = .arrive id req now ∧ s.inflight id = none ∧
        s.performed env i = none ∧
        s.step env i = { s with
          inflight := Function.update s.inflight id
            (some ⟨req, now, serveHTTP env now req⟩) }) ∨
      (∃ id f resp, s.inflight id = some f ∧ f.prog = .ret resp ∧
        s.performed env i = none ∧
        s.step env i = { s with
          inflight := Function.update s.inflight id none
          sent := s.sent ++ [(id, resp)] }) ∨
      ∃ id d f c k a store, s.inflight id = some f ∧ f.prog = .call c k ∧
        s.store.answer env.newEtag env.limits d c = some (a, store) ∧
        s.performed env i = some ⟨id, d, c, a⟩ ∧
        s.step env i = { s with
          store := store
          inflight := Function.update s.inflight id (some { f with prog := k a }) } := by
  cases i with
  | arrive id req now =>
      cases hf : s.inflight id with
      | some f => exact Or.inl ⟨rfl, by simp only [step, hf]⟩
      | none =>
          exact Or.inr (Or.inl ⟨id, req, now, rfl, hf, rfl, by simp only [step, hf]⟩)
  | advance id d =>
      cases hf : s.inflight id with
      | none => exact Or.inl ⟨by simp only [performed, hf], by simp only [step, hf]⟩
      | some f =>
          cases hprog : f.prog with
          | ret resp =>
              refine Or.inr (Or.inr (Or.inl ⟨id, f, resp, hf, hprog, ?_, ?_⟩))
              · simp only [performed, hf, hprog]
              · simp only [step, hf, advance, hprog]
          | call c k =>
              cases ha : s.store.answer env.newEtag env.limits d c with
              | none =>
                  refine Or.inl ⟨?_, ?_⟩
                  · simp only [performed, hf, hprog, ha, Option.map_none]
                  · simp only [step, hf, advance, hprog, ha]
              | some r =>
                  refine Or.inr (Or.inr (Or.inr
                    ⟨id, d, f, c, k, r.1, r.2, hf, hprog, ha, ?_, ?_⟩))
                  · simp only [performed, hf, hprog, ha, Option.map_some]
                  · simp only [step, hf, advance, hprog, ha]

end Server

/-! ## What is handed over -/

/-- What a client of the relay is handed: an envelope, or the receipt for one. -/
inductive Handed where
  | envelope (e : Envelope)
  | receipt
  deriving DecidableEq

namespace Handed

def inBody : ResponseBody → List Handed
  | .signals envs => envs.map envelope
  | .queued => [receipt]
  | _ => []

/-- What a handler is about to hand over. From the moment its envelope is in the queue, a
post can answer nothing but the receipt. -/
def held : Handler Response → List Handed
  | .ret r => inBody r.body
  | .call (.closeWake _) _ => [receipt]
  | .call .. => []

def gain : (c : StoreCall) → Answer c → List Handed
  | .popSignals _, .ok envs => envs.map envelope
  | .enqueueLocked .., .ok _ => [receipt]
  | _, _ => []

end Handed

/-- A handler that has made no call yet: it holds nothing, and it will answer what its
calls get. -/
def Opens (m : Handler Response) : Prop :=
  Handed.held m = [] ∧ Prog.Balanced Handed.gain Handed.held m

def Apart : Handler Response → Prop
  | .ret r => Handed.inBody r.body = []
  | .call c k => c.Quiet ∧ ∀ a, Apart (k a)

theorem Apart.opens {m : Handler Response} (h : Apart m) : Opens m := by
  induction m with
  | ret r => exact ⟨h, trivial⟩
  | call c k ih =>
      have hheld : Handed.held (.call c k) = [] := by
        cases c with
        | closeWake wake => exact absurd h.1 id
        | _ => rfl
      refine ⟨hheld, fun a => ⟨?_, (ih a (h.2 a)).2⟩⟩
      rw [(ih a (h.2 a)).1, hheld]
      cases c with
      | enqueueLocked dst env => exact absurd h.1 id
      | popSignals dst => exact absurd h.1 id
      | _ => rfl

theorem apart_handleRegister (env : ServerEnv) (r : HttpRequest) :
    Apart (handleRegister env r) := by
  unfold handleRegister
  cases env.decodeRegister r.body r.bodyErr with
  | none => rfl
  | some req =>
      by_cases hlen : req.nodePubkey.length = publicKeySize
      · simp only [hlen, ne_eq, not_true_eq_false, if_false]
        refine ⟨trivial, fun a => ?_⟩
        cases a with
        | error err => rfl
        | ok ip =>
            refine ⟨trivial, fun a => ?_⟩
            cases a <;> rfl
      · simp only [hlen, ne_eq, not_false_eq_true, if_true]
        rfl

theorem apart_handleEndpoints (env : ServerEnv) (pub body : Bytes) :
    Apart (handleEndpoints env pub body) := by
  unfold handleEndpoints
  cases env.decodeEndpoints body with
  | none => rfl
  | some eps =>
      refine ⟨trivial, fun a => ?_⟩
      cases a <;> rfl

theorem apart_handleDebugPeers (env : ServerEnv) : Apart (handleDebugPeers env) := by
  refine ⟨trivial, fun a => ?_⟩
  cases a <;> rfl

theorem apart_handlePeers (env : ServerEnv) (r : HttpRequest) :
    Apart (handlePeers env r) := by
  unfold handlePeers
  split
  · exact apart_handleDebugPeers env
  · refine ⟨trivial, fun a => ?_⟩
    cases a with
    | none => exact apart_handleDebugPeers env
    | some ch => exact ⟨trivial, fun _ => apart_handleDebugPeers env⟩

/-- A post answers a receipt exactly when its envelope is in the queue. -/
theorem opens_handleSignal (env : ServerEnv) (body : Bytes) :
    Opens (handleSignal env body) := by
  unfold handleSignal
  cases env.decodeSignal body with
  | none => exact ⟨rfl, trivial⟩
  | some req =>
      refine ⟨rfl, fun now => ⟨rfl, fun a => ?_⟩⟩
      cases a with
      | error e => exact ⟨rfl, trivial⟩
      | ok wake => exact ⟨rfl, fun _ => ⟨rfl, trivial⟩⟩

/-- A pull answers what it has popped: a first pop that got something is answered at
once, and one that got nothing leaves nothing behind. -/
theorem opens_pullFrom (dst : Key) : Opens (pullFrom dst) := by
  have hpop : Prog.Balanced Handed.gain Handed.held (popAgain dst) := by
    intro a
    cases a <;> exact ⟨rfl, trivial⟩
  have hagain : Prog.Balanced Handed.gain Handed.held (pullAgain dst) := by
    intro a
    cases a with
    | none => exact ⟨rfl, hpop⟩
    | some ch =>
        refine ⟨rfl, fun a => ?_⟩
        cases a with
        | error e => exact ⟨rfl, trivial⟩
        | ok u => exact ⟨rfl, hpop⟩
  refine ⟨rfl, fun a => ?_⟩
  rcases a with e | (_ | ⟨e, envs⟩)
  · exact ⟨rfl, hagain⟩
  · exact ⟨rfl, hagain⟩
  · exact ⟨rfl, trivial⟩

theorem opens_handleSignalPull (env : ServerEnv) (pub : Bytes) :
    Opens (handleSignalPull env pub) := by
  have hfound (found : Except String Key) : Opens (pullFound found) := by
    cases found with
    | error text => exact ⟨rfl, trivial⟩
    | ok dst => exact opens_pullFrom dst
  exact ⟨rfl, fun a => hfound (discoKeyIn env pub a)⟩

theorem opens_authed {env : ServerEnv} {now : Time} {r : HttpRequest}
    {h : Bytes → Bytes → Handler Response} (hh : ∀ pub body, Opens (h pub body)) :
    Opens (authed env now r h) := by
  unfold authed
  cases verifyRequest env.crypto now r with
  | error err => exact ⟨rfl, trivial⟩
  | ok v => exact hh v.1 v.2

def ServerEnv.PlainUnmatched (env : ServerEnv) : Prop :=
  ∀ r, ∃ text, (env.unmatched r).body = .text text

theorem opens_serveHTTP {env : ServerEnv} (henv : env.PlainUnmatched) (now : Time)
    (r : HttpRequest) : Opens (serveHTTP env now r) := by
  unfold serveHTTP
  split
  · obtain ⟨text, htext⟩ := henv r
    refine ⟨?_, trivial⟩
    change Handed.inBody (env.unmatched r).body = []
    rw [htext]
    rfl
  · exact (apart_handleRegister env r).opens
  · exact opens_authed fun pub body => (apart_handleEndpoints env pub body).opens
  · exact opens_authed fun _ _ => (apart_handlePeers env r).opens
  · exact opens_authed fun _ body => opens_handleSignal env body
  · exact opens_authed fun pub _ => opens_handleSignalPull env pub
  · exact (apart_handleDebugPeers env).opens

namespace Server

def handedTo (id : ℕ) (s : Server) : List Handed :=
  (s.sent.filter (·.1 = id)).flatMap (fun x => Handed.inBody x.2.body) ++
    (s.inflight id).elim [] fun f => Handed.held f.prog

def gained (id : ℕ) (tr : List Performed) : List Handed :=
  (tr.filter (·.id = id)).flatMap fun p => Handed.gain p.call p.answer

theorem gained_append (id : ℕ) (tr tr' : List Performed) :
    gained id (tr ++ tr') = gained id tr ++ gained id tr' := by
  rw [gained, List.filter_append, List.flatMap_append]
  rfl

def Booked (s : Server) : Prop :=
  ∀ id f, s.inflight id = some f → Prog.Balanced Handed.gain Handed.held f.prog

section Runs

variable {env : ServerEnv}

theorem Booked.step (henv : env.PlainUnmatched) {s : Server} (h : s.Booked)
    (i : ServerInput) : (s.step env i).Booked := by
  intro id f hf
  rcases inflight_step_cases hf with
    hold | hfresh | ⟨d, g, c, k, a, store, -, hg, hprog, -, rfl⟩
  · exact h id f hold
  · rw [hfresh]
    exact (opens_serveHTTP henv f.now f.req).2
  · have hbooks := h id g hg
    rw [hprog] at hbooks
    exact (hbooks a).2

theorem handedTo_step (henv : env.PlainUnmatched) {s : Server} (h : s.Booked)
    (i : ServerInput) (id : ℕ) :
    (s.step env i).handedTo id =
      s.handedTo id ++ gained id (s.performed env i).toList := by
  rcases s.step_performed env i with
    ⟨hnone, heq⟩ | ⟨id', req, now, -, hfree, hnone, heq⟩ |
      ⟨id', f, resp, hf, hprog, hnone, heq⟩ |
      ⟨id', d, f, c, k, a, store, hf, hprog, -, hsome, heq⟩
  · rw [heq, hnone]
    exact (List.append_nil _).symm
  · rw [heq, hnone]
    by_cases hid : id = id'
    · subst hid
      simp [handedTo, gained, hfree, (opens_serveHTTP henv now req).1]
    · simp [handedTo, gained, hid]
  · rw [heq, hnone]
    by_cases hid : id = id'
    · subst hid
      simp [handedTo, gained, hf, hprog, Handed.held]
    · simp [handedTo, gained, hid, Ne.symm hid]
  · rw [heq, hsome]
    by_cases hid : id = id'
    · subst hid
      have hbooks := h id f hf
      rw [hprog] at hbooks
      simp [handedTo, gained, hf, hprog, (hbooks a).1]
    · simp [handedTo, gained, hid, Ne.symm hid]

/-- Along a run, what is handed over under a number is what its calls have got. -/
theorem handedTo_run (henv : env.PlainUnmatched) (pool : Prefix) (is : List ServerInput)
    (id : ℕ) :
    (is.foldl (step env) (start env pool)).handedTo id =
      gained id (trace env pool is) := by
  induction is using List.reverseRecOn with
  | nil => rfl
  | append_singleton is i ih =>
      have hbooked : (is.foldl (Server.step env) (start env pool)).Booked :=
        invariant_foldl (fun s i (h : s.Booked) => h.step henv i)
          (fun id f hf => by cases hf) is
      rw [trace, outputs_append, gained_append, List.foldl_append, List.foldl_cons,
        List.foldl_nil, handedTo_step henv hbooked, ih]
      simp [outputs, trace]

end Runs

end Server

/-! ## The ledger of a run -/

theorem Ledger.accepted_append (ops ops' : List SignalOp) :
    Ledger.accepted (ops ++ ops') = Ledger.accepted ops ++ Ledger.accepted ops' :=
  List.filterMap_append

/-- A store call does to the queues what the call of the relay does that it is, and
nothing if it is none. -/
theorem Store.signals_answer {newEtag : ℕ → String} {limits : Limits} {d : Decision}
    {c : StoreCall} {s s' : Store} {a : Answer c}
    (h : s.answer newEtag limits d c = some (a, s')) :
    s'.signals.signals =
        ((c.signalOp d).elim s.signals (s.signals.call limits)).signals ∧
      s'.signals.heap =
        ((c.signalOp d).elim s.signals (s.signals.call limits)).heap := by
  cases c with
  | enqueueLocked dst env =>
      unfold Store.answer at h
      cases hctx : d.ctx with
      | some e =>
          simp only [hctx] at h
          cases h
          simp [StoreCall.signalOp, hctx, Signals.call, Signals.enqueueSignal]
      | none =>
          simp only [hctx] at h
          cases h
          simp [StoreCall.signalOp, hctx, Signals.call, Signals.enqueueSignal]
  | popSignals dst =>
      cases h
      exact ⟨rfl, rfl⟩
  | closeWake wake =>
      cases h
      exact ⟨Signals.signals_closeWake wake _, Signals.heap_closeWake wake _⟩
  | waitLocked dst =>
      cases h
      simp only [StoreCall.signalOp, Option.elim_none]
      unfold Signals.waitLocked
      split
      · exact ⟨rfl, rfl⟩
      · split <;> exact ⟨rfl, rfl⟩
  | receivePeers | receiveWake =>
      obtain ⟨r, -, heq⟩ := Option.map_eq_some_iff.1 h
      cases heq
      exact ⟨rfl, rfl⟩
  | now | register | setEndpoints | peers | waitChannel =>
      cases h
      exact ⟨rfl, rfl⟩

namespace Handed

def envelopes (l : List Handed) : List Envelope :=
  l.filterMap fun
    | .envelope e => some e
    | .receipt => none

def receipts (l : List Handed) : ℕ := l.count .receipt

theorem envelopes_append (l l' : List Handed) :
    envelopes (l ++ l') = envelopes l ++ envelopes l' :=
  List.filterMap_append

theorem receipts_append (l l' : List Handed) :
    receipts (l ++ l') = receipts l + receipts l' :=
  List.count_append

theorem envelopes_map_envelope (envs : List Envelope) :
    envelopes (envs.map envelope) = envs := by
  rw [envelopes, List.filterMap_map]
  exact List.filterMap_some

theorem receipts_map_envelope (envs : List Envelope) : receipts (envs.map envelope) = 0 := by
  refine List.count_eq_zero.2 fun hmem => ?_
  obtain ⟨e, -, he⟩ := List.mem_map.1 hmem
  cases he

theorem envelopes_gain {newEtag : ℕ → String} {limits : Limits} {d : Decision}
    {c : StoreCall} {s s' : Store} {a : Answer c}
    (h : s.answer newEtag limits d c = some (a, s')) {ops : List SignalOp}
    (hqueue : ∀ dst, s.signals.contents dst =
      Ledger.waiting dst (Ledger.after limits ops).entries) :
    envelopes (gain c a) = (c.signalOp d).elim [] fun op =>
      Ledger.returnedBy ops.length (Ledger.after limits (ops ++ [op])).entries := by
  have hnone (op : SignalOp) (hop : ∀ dst now, op ≠ .pop none dst now) :
      Ledger.returnedBy ops.length (Ledger.after limits (ops ++ [op])).entries = [] := by
    rw [Ledger.returnedBy, List.map_eq_nil_iff, List.filter_eq_nil_iff]
    intro x hx hfate
    obtain ⟨now, hnow⟩ := Ledger.settled_after limits _ hx
      (Or.inl (of_decide_eq_true hfate))
    rw [List.getElem?_concat_length] at hnow
    exact hop _ now (Option.some.inj hnow)
  cases c with
  | popSignals dst =>
      unfold Store.answer Signals.popSignals at h
      cases hctx : d.ctx with
      | some e =>
          simp only [hctx] at h
          cases h
          simp only [StoreCall.signalOp, hctx, Option.elim_some]
          rw [hnone _ fun _ _ => by rintro ⟨⟩]
          rfl
      | none =>
          simp only [hctx] at h
          cases h
          simp only [StoreCall.signalOp, hctx, Option.elim_some, Except.map]
          rw [Ledger.returnedBy_after limits ops [] dst d.now, gain,
            envelopes_map_envelope, ← Ledger.waiting_after, ← hqueue]
          exact Signals.toList_handedOut limits d.now dst s.signals
  | enqueueLocked dst env =>
      simp only [StoreCall.signalOp, Option.elim_some]
      rw [hnone _ fun _ _ => by rintro ⟨⟩]
      cases a <;> rfl
  | _ => rfl

theorem receipts_gain {newEtag : ℕ → String} {limits : Limits} {d : Decision}
    {c : StoreCall} {s s' : Store} {a : Answer c}
    (h : s.answer newEtag limits d c = some (a, s')) :
    receipts (gain c a) = (Ledger.accepted (c.signalOp d).toList).length := by
  cases c with
  | popSignals dst =>
      cases a with
      | error e => rfl
      | ok envs => exact receipts_map_envelope envs
  | enqueueLocked dst env =>
      unfold Store.answer at h
      cases hctx : d.ctx with
      | some e =>
          simp only [hctx] at h
          cases h
          simp [StoreCall.signalOp, hctx, Ledger.accepted, receipts, gain]
      | none =>
          simp only [hctx] at h
          cases h
          simp [StoreCall.signalOp, hctx, Ledger.accepted, receipts, gain]
  | _ => rfl

end Handed

def callsOf (id : ℕ) (tr : List Performed) : List SignalOp :=
  ((relayCalls tr).filter (·.1 = id)).map Prod.snd

namespace Server

/-- The store of a server and what its calls have got, as the ledger of the trace has
them. -/
structure Tracked (limits : Limits) (store : Store) (tr : List Performed) : Prop where
  wf : store.signals.Wf
  queue : ∀ dst, store.signals.contents dst =
    Ledger.waiting dst (ledgerOf limits tr).entries
  pulled : ∀ id, Handed.envelopes (gained id tr) =
    (callNumbers id (relayCalls tr)).flatMap
      (Ledger.returnedBy · (ledgerOf limits tr).entries)
  receipts : ∀ id, Handed.receipts (gained id tr) =
    (Ledger.accepted (callsOf id tr)).length

theorem tracked_start (env : ServerEnv) (pool : Prefix) :
    Tracked env.limits (start env pool).store [] where
  wf := Signals.wf_empty
  queue := fun _ => rfl
  pulled := fun _ => rfl
  receipts := fun _ => rfl

theorem gained_append_singleton (id : ℕ) (tr : List Performed) (p : Performed) :
    gained id (tr ++ [p]) =
      gained id tr ++ if p.id = id then Handed.gain p.call p.answer else [] := by
  rw [gained_append]
  by_cases hp : p.id = id <;> simp [gained, hp]

theorem Tracked.answer {newEtag : ℕ → String} {limits : Limits} {id : ℕ} {d : Decision}
    {c : StoreCall} {s s' : Store} {a : Answer c} {tr : List Performed}
    (h : Tracked limits s tr) (ha : s.answer newEtag limits d c = some (a, s')) :
    Tracked limits s' (tr ++ [⟨id, d, c, a⟩]) := by
  obtain ⟨hsignals, hheap⟩ := Store.signals_answer ha
  have henvelopes := Handed.envelopes_gain ha h.queue
  have hreceipts := Handed.receipts_gain ha
  rw [List.length_map] at henvelopes
  cases hop : c.signalOp d with
  | none =>
      rw [hop] at hsignals hheap henvelopes hreceipts
      have hcalls : relayCalls (tr ++ [⟨id, d, c, a⟩]) = relayCalls tr := by
        simp [relayCalls, hop]
      have hledger : ledgerOf limits (tr ++ [⟨id, d, c, a⟩]) = ledgerOf limits tr := by
        rw [ledgerOf, hcalls, ledgerOf]
      refine ⟨h.wf.of_eq hsignals hheap, fun dst => ?_, fun id' => ?_, fun id' => ?_⟩
      · rw [Signals.contents_of_eq hsignals hheap, hledger]
        exact h.queue dst
      · rw [gained_append_singleton, Handed.envelopes_append, h.pulled, hledger, hcalls]
        split
        · rw [henvelopes, Option.elim_none, List.append_nil]
        · exact List.append_nil _
      · have hcallsOf : callsOf id' (tr ++ [⟨id, d, c, a⟩]) = callsOf id' tr := by
          rw [callsOf, hcalls, callsOf]
        rw [gained_append_singleton, Handed.receipts_append, h.receipts, hcallsOf]
        split
        · rw [hreceipts]
          rfl
        · rfl
  | some op =>
      rw [hop] at hsignals hheap henvelopes hreceipts
      have hcalls : relayCalls (tr ++ [⟨id, d, c, a⟩]) = relayCalls tr ++ [(id, op)] := by
        simp [relayCalls, hop]
      have hledger : ledgerOf limits (tr ++ [⟨id, d, c, a⟩]) =
          (ledgerOf limits tr).call limits op := by
        rw [ledgerOf, hcalls, List.map_append, Ledger.after_append]
        rfl
      have hafter : Ledger.after limits ((relayCalls tr).map Prod.snd ++ [op]) =
          (ledgerOf limits tr).call limits op := by
        rw [Ledger.after_append]
        rfl
      rw [Option.elim_some, hafter] at henvelopes
      refine ⟨(h.wf.call limits op).of_eq hsignals hheap, fun dst => ?_, fun id' => ?_,
        fun id' => ?_⟩
      · rw [Signals.contents_of_eq hsignals hheap, Option.elim_some,
          Signals.contents_call h.wf, h.queue, hledger, Ledger.waiting_call]
      · have hold : (callNumbers id' (relayCalls tr)).flatMap
              (Ledger.returnedBy · ((ledgerOf limits tr).call limits op).entries) =
            (callNumbers id' (relayCalls tr)).flatMap
              (Ledger.returnedBy · (ledgerOf limits tr).entries) := by
          refine List.flatMap_congr fun n hn => ?_
          obtain ⟨op', hop'⟩ := mem_callNumbers.1 hn
          have hlt : n < (relayCalls tr).length := (List.getElem?_eq_some_iff.1 hop').1
          refine Ledger.returnedBy_call_of_ne ?_ limits op
          rw [ledgerOf, Ledger.calls_after, List.length_map]
          omega
        rw [gained_append_singleton, Handed.envelopes_append, h.pulled, hledger, hcalls,
          callNumbers_append_singleton, List.flatMap_append, hold]
        split
        · rw [henvelopes, List.flatMap_singleton]
        · rfl
      · have hcallsOf : callsOf id' (tr ++ [⟨id, d, c, a⟩]) =
            callsOf id' tr ++ if id = id' then [op] else [] := by
          rw [callsOf, hcalls, List.filter_append, List.map_append]
          by_cases hid : id = id' <;> simp [hid, callsOf]
        rw [gained_append_singleton, Handed.receipts_append, h.receipts, hcallsOf,
          Ledger.accepted_append, List.length_append]
        split
        · rw [hreceipts]
          rfl
        · rfl

theorem Tracked.step {env : ServerEnv} {s : Server} {tr : List Performed}
    (h : Tracked env.limits s.store tr) (i : ServerInput) :
    Tracked env.limits (s.step env i).store (tr ++ (s.performed env i).toList) := by
  rcases s.step_performed env i with
    ⟨hnone, heq⟩ | ⟨id, req, now, -, -, hnone, heq⟩ | ⟨id, f, resp, -, -, hnone, heq⟩ |
      ⟨id, d, f, c, k, a, store, -, -, ha, hsome, heq⟩
  · rw [heq, hnone, Option.toList_none, List.append_nil]
    exact h
  · rw [heq, hnone, Option.toList_none, List.append_nil]
    exact h
  · rw [heq, hnone, Option.toList_none, List.append_nil]
    exact h
  · rw [heq, hsome]
    exact h.answer ha

theorem tracked_run (env : ServerEnv) (pool : Prefix) (is : List ServerInput) :
    Tracked env.limits (is.foldl (step env) (start env pool)).store
      (trace env pool is) := by
  induction is using List.reverseRecOn with
  | nil => exact tracked_start env pool
  | append_singleton is i ih =>
      rw [List.foldl_append, trace, outputs_append, outputs, outputs, List.append_nil]
      exact ih.step i

/-! ## Requests behind the calls -/

/-- What a request may ask of the queues: a signed post puts the envelope that its body
names into the queue that its body names, and a signed pull takes envelopes out. -/
def Relays (env : ServerEnv) (now : Time) (req : HttpRequest) : StoreCall → Prop
  | .enqueueLocked dst e => route req = some .signal ∧
      ∃ pub body, verifyRequest env.crypto now req = .ok (pub, body) ∧
        ∃ r, env.decodeSignal body = some r ∧ r.dst = dst ∧ r.sealed = e.sealed
  | .popSignals _ => route req = some .signalPull ∧
      ∃ pub, SignedBy env.crypto now pub req
  | _ => True

theorem relays_handleSignal {env : ServerEnv} {now : Time} {req : HttpRequest}
    {pub body : Bytes} (hroute : route req = some .signal)
    (hverify : verifyRequest env.crypto now req = .ok (pub, body)) :
    Prog.AllCalls (Relays env now req) (handleSignal env body) := by
  unfold handleSignal
  cases hdecode : env.decodeSignal body with
  | none => trivial
  | some r =>
      refine ⟨trivial, fun t => ⟨⟨hroute, pub, body, hverify, r, hdecode, rfl, rfl⟩, ?_⟩⟩
      intro a
      cases a with
      | error e => trivial
      | ok wake => exact ⟨trivial, fun _ => trivial⟩

theorem relays_serveHTTP (env : ServerEnv) (now : Time) (req : HttpRequest) :
    Prog.AllCalls (Relays env now req) (serveHTTP env now req) := by
  unfold serveHTTP
  split
  · trivial
  · exact allCalls_handleRegister (fun _ _ _ => trivial) trivial
  · exact allCalls_authed fun _ body _ =>
      allCalls_handleEndpoints (fun _ => trivial) body
  · exact allCalls_authed fun _ _ _ =>
      allCalls_handlePeers trivial trivial fun _ => trivial
  · rename_i hroute
    unfold authed
    cases hverify : verifyRequest env.crypto now req with
    | error err => trivial
    | ok v => exact relays_handleSignal hroute hverify
  · rename_i hroute
    exact allCalls_authed fun pub _ hsigned =>
      allCalls_handleSignalPull trivial fun _ =>
        allCalls_pullFrom ⟨hroute, pub, hsigned⟩ trivial fun _ => trivial
  · exact allCalls_handleDebugPeers trivial

def Attributed (env : ServerEnv) (is : List ServerInput) (s : Server) : Prop :=
  ∀ id f, s.inflight id = some f → .arrive id f.req f.now ∈ is ∧
    Prog.AllCalls (Relays env f.now f.req) f.prog

theorem Attributed.step {env : ServerEnv} {is : List ServerInput} {s : Server}
    (h : Attributed env is s) (i : ServerInput) :
    Attributed env (is ++ [i]) (s.step env i) := by
  intro id f hf
  rcases s.step_performed env i with
    ⟨-, heq⟩ | ⟨id', req, now, rfl, -, -, heq⟩ | ⟨id', g, resp, -, -, -, heq⟩ |
      ⟨id', d, g, c, k, a, store, hg, hprog, -, -, heq⟩
  · rw [heq] at hf
    exact ⟨List.mem_append_left _ (h id f hf).1, (h id f hf).2⟩
  · rw [heq] at hf
    rcases update_cases hf with ⟨rfl, hnew⟩ | ⟨-, hold⟩
    · cases hnew
      exact ⟨by simp, relays_serveHTTP env now req⟩
    · exact ⟨List.mem_append_left _ (h id f hold).1, (h id f hold).2⟩
  · rw [heq] at hf
    rcases update_cases hf with ⟨-, hnew⟩ | ⟨-, hold⟩
    · cases hnew
    · exact ⟨List.mem_append_left _ (h id f hold).1, (h id f hold).2⟩
  · rw [heq] at hf
    rcases update_cases hf with ⟨rfl, hnew⟩ | ⟨-, hold⟩
    · cases hnew
      have hall := (h id g hg).2
      rw [hprog] at hall
      exact ⟨List.mem_append_left _ (h id g hg).1, hall.2 a⟩
    · exact ⟨List.mem_append_left _ (h id f hold).1, (h id f hold).2⟩

theorem attributed_run (env : ServerEnv) (pool : Prefix) (is : List ServerInput) :
    Attributed env is (is.foldl (step env) (start env pool)) := by
  induction is using List.reverseRecOn with
  | nil => exact fun id f hf => by cases hf
  | append_singleton is i ih =>
      rw [List.foldl_append]
      exact ih.step i

theorem relays_of_mem_trace {env : ServerEnv} {pool : Prefix} {is : List ServerInput}
    {p : Performed} (hp : p ∈ trace env pool is) :
    ∃ req now, .arrive p.id req now ∈ is ∧ Relays env now req p.call := by
  induction is using List.reverseRecOn with
  | nil => cases hp
  | append_singleton is i ih =>
      rw [trace, outputs_append, List.mem_append] at hp
      rcases hp with hold | hnew
      · obtain ⟨req, now, hmem, hrelays⟩ := ih hold
        exact ⟨req, now, List.mem_append_left _ hmem, hrelays⟩
      · rw [outputs, outputs, List.append_nil, Option.mem_toList] at hnew
        rcases step_performed env (is.foldl (step env) (start env pool)) i with
          ⟨hnone, -⟩ | ⟨id, req, now, -, -, hnone, -⟩ | ⟨id, f, resp, -, -, hnone, -⟩ |
            ⟨id, d, f, c, k, a, store, hf, hprog, -, hsome, -⟩
        · rw [hnone] at hnew
          cases hnew
        · rw [hnone] at hnew
          cases hnew
        · rw [hnone] at hnew
          cases hnew
        · rw [hsome] at hnew
          cases hnew
          obtain ⟨hmem, hall⟩ := attributed_run env pool is id f hf
          rw [hprog] at hall
          exact ⟨f.req, f.now, List.mem_append_left _ hmem, hall.1⟩

/-! ## Delivery -/

/-- What becomes of the envelopes in a run of the server, under any interleaving of the
requests. -/
structure Delivery (env : ServerEnv) (pool : Prefix) (is : List ServerInput) : Prop where
  /-- A queue holds what waits for its recipient. -/
  queue : ∀ dst, (is.foldl (step env) (start env pool)).store.signals.contents dst =
    Ledger.waiting dst (ledgerOf env.limits (trace env pool is)).entries
  /-- A request is handed the envelopes that its own calls have popped, all of them and
  in the order of the queue. -/
  pulled : ∀ id,
    Handed.envelopes ((is.foldl (step env) (start env pool)).handedTo id) =
      (callNumbers id (relayCalls (trace env pool is))).flatMap
        (Ledger.returnedBy · (ledgerOf env.limits (trace env pool is)).entries)
  /-- A request is handed a receipt for each envelope that the relay accepted from it. -/
  receipts : ∀ id,
    Handed.receipts ((is.foldl (step env) (start env pool)).handedTo id) =
      (Ledger.accepted (callsOf id (trace env pool is))).length
  /-- No envelope is handed out twice, to whatever requests. -/
  once : ∀ ids : List ℕ, ids.Nodup →
    (ids.flatMap fun id => Handed.envelopes
        ((is.foldl (step env) (start env pool)).handedTo id)).Subperm
      ((Ledger.accepted ((relayCalls (trace env pool is)).map Prod.snd)).map Prod.snd)
  /-- An envelope is handed to a pull of the queue it was posted to. -/
  addressed : ∀ id,
    ∀ e ∈ Handed.envelopes ((is.foldl (step env) (start env pool)).handedTo id),
      ∃ dst now, .pop none dst now ∈ callsOf id (trace env pool is) ∧
        (dst, e) ∈ Ledger.accepted ((relayCalls (trace env pool is)).map Prod.snd)
  /-- The calls are made by signed requests that ask for them. -/
  asked : ∀ p ∈ trace env pool is,
    ∃ req now, .arrive p.id req now ∈ is ∧ Relays env now req p.call

/-- Calls share out the entries of the ledger: what different calls have returned are
different entries. -/
theorem subperm_returnedBy {ns : List ℕ} (hns : ns.Nodup) (l : List Entry) :
    (ns.flatMap (Ledger.returnedBy · l)).Subperm (l.map Entry.env) := by
  have hfates : (ns.map Fate.returned).Nodup :=
    hns.map fun n m h => Fate.returned.inj h
  have hshared := Foundation.Log.perm_flatMap_filter Entry.fate hfates l
  rw [List.flatMap_map] at hshared
  have heq : ns.flatMap (Ledger.returnedBy · l) =
      (ns.flatMap fun n => l.filter (Entry.fate · = .returned n)).map Entry.env :=
    List.map_flatMap.symm
  rw [heq]
  exact ⟨_, (hshared.map Entry.env).symm, List.filter_sublist.map Entry.env⟩

section Handover

variable {env : ServerEnv}

/-- A request is handed the envelopes that its own calls have popped. -/
theorem envelopes_handedTo (henv : env.PlainUnmatched) (pool : Prefix)
    (is : List ServerInput) (id : ℕ) :
    Handed.envelopes ((is.foldl (step env) (start env pool)).handedTo id) =
      (callNumbers id (relayCalls (trace env pool is))).flatMap
        (Ledger.returnedBy · (ledgerOf env.limits (trace env pool is)).entries) := by
  rw [handedTo_run henv]
  exact (tracked_run env pool is).pulled id

/-- Different requests are handed different envelopes. -/
theorem subperm_handedTo (henv : env.PlainUnmatched) (pool : Prefix)
    (is : List ServerInput) {ids : List ℕ} (hids : ids.Nodup) :
    (ids.flatMap fun id => Handed.envelopes
        ((is.foldl (step env) (start env pool)).handedTo id)).Subperm
      ((Ledger.accepted ((relayCalls (trace env pool is)).map Prod.snd)).map Prod.snd) := by
  have henvs : (Ledger.accepted
        ((relayCalls (trace env pool is)).map Prod.snd)).map Prod.snd =
      (ledgerOf env.limits (trace env pool is)).entries.map Entry.env := by
    rw [← Ledger.entries_after env.limits, List.map_map]
    rfl
  simp only [envelopes_handedTo henv]
  rw [henvs, ← List.flatMap_assoc]
  exact subperm_returnedBy (nodup_flatMap_callNumbers hids _) _

theorem subperm_sent (henv : env.PlainUnmatched) (pool : Prefix) (is : List ServerInput) :
    ((is.foldl (step env) (start env pool)).sent.flatMap fun x =>
        Handed.envelopes (Handed.inBody x.2.body)).Subperm
      ((Ledger.accepted ((relayCalls (trace env pool is)).map Prod.snd)).map Prod.snd) := by
  generalize hs : is.foldl (step env) (start env pool) = s
  have hids : (s.sent.map Prod.fst).dedup.Nodup := List.nodup_dedup _
  have hshared := Foundation.Log.perm_flatMap_filter Prod.fst hids s.sent
  rw [List.filter_eq_self.2 fun x hx => by
    simpa using ⟨x.2, hx⟩] at hshared
  have hperm := hshared.symm.flatMap_right fun x =>
    Handed.envelopes (Handed.inBody x.2.body)
  have hsub : (((s.sent.map Prod.fst).dedup.flatMap fun id =>
        s.sent.filter (·.1 = id)).flatMap fun x =>
          Handed.envelopes (Handed.inBody x.2.body)).Sublist
      ((s.sent.map Prod.fst).dedup.flatMap fun id =>
        Handed.envelopes (s.handedTo id)) := by
    rw [List.flatMap_assoc]
    refine List.Sublist.flatMap_right _ fun id _ => ?_
    rw [handedTo, Handed.envelopes_append, Handed.envelopes, List.filterMap_flatMap]
    exact List.sublist_append_left _ _
  subst hs
  exact hperm.subperm.trans (hsub.subperm.trans (subperm_handedTo henv pool is hids))

/-- An envelope is handed to a pull of the queue it was posted to. -/
theorem accepted_of_mem_handedTo (henv : env.PlainUnmatched) {pool : Prefix}
    {is : List ServerInput} {id : ℕ} {e : Envelope}
    (he : e ∈ Handed.envelopes ((is.foldl (step env) (start env pool)).handedTo id)) :
    ∃ dst now, .pop none dst now ∈ callsOf id (trace env pool is) ∧
      (dst, e) ∈ Ledger.accepted ((relayCalls (trace env pool is)).map Prod.snd) := by
  rw [envelopes_handedTo henv, List.mem_flatMap] at he
  obtain ⟨n, hn, he⟩ := he
  obtain ⟨x, hx, rfl⟩ := List.mem_map.1 he
  obtain ⟨hx, hfate⟩ := List.mem_filter.1 hx
  obtain ⟨op, hop⟩ := mem_callNumbers.1 hn
  obtain ⟨now, hnow⟩ := Ledger.settled_after env.limits _ hx
    (Or.inl (of_decide_eq_true hfate))
  rw [List.getElem?_map, hop] at hnow
  obtain rfl : op = .pop none x.dst now := Option.some.inj hnow
  refine ⟨x.dst, now, ?_, ?_⟩
  · exact List.mem_map.2 ⟨(id, .pop none x.dst now),
      List.mem_filter.2 ⟨List.mem_of_getElem? hop, by simp⟩, rfl⟩
  · rw [← Ledger.entries_after env.limits]
    exact List.mem_map.2 ⟨x, hx, rfl⟩

theorem exists_enqueueLocked {tr : List Performed} {dst : Key} {e : Envelope}
    (h : (dst, e) ∈ Ledger.accepted ((relayCalls tr).map Prod.snd)) :
    ∃ p ∈ tr, p.call = .enqueueLocked dst e := by
  obtain ⟨op, hop, heq⟩ := List.mem_filterMap.1 h
  obtain ⟨x, hx, rfl⟩ := List.mem_map.1 hop
  obtain ⟨p, hp, hcall⟩ := List.mem_filterMap.1 hx
  obtain ⟨op, hsignal, rfl⟩ := Option.map_eq_some_iff.1 hcall
  refine ⟨p, hp, ?_⟩
  cases hc : p.call with
  | enqueueLocked dst' e' =>
      rw [hc] at hsignal
      cases hsignal
      cases hctx : p.decision.ctx with
      | some err => simp [hctx] at heq
      | none =>
          simp only [hctx, Option.some.injEq, Prod.mk.injEq] at heq
          rw [heq.1, heq.2]
  | popSignals dst' =>
      rw [hc] at hsignal
      cases hsignal
      simp at heq
  | _ =>
      rw [hc] at hsignal
      cases hsignal

theorem mem_handedTo_of_sent {s : Server} {x : ℕ × Response} (hx : x ∈ s.sent)
    {e : Envelope} (he : e ∈ Handed.envelopes (Handed.inBody x.2.body)) :
    e ∈ Handed.envelopes (s.handedTo x.1) := by
  rw [handedTo, Handed.envelopes_append, Handed.envelopes, List.filterMap_flatMap]
  refine List.mem_append_left _ (List.mem_flatMap.2 ⟨x, ?_, he⟩)
  exact List.mem_filter.2 ⟨hx, by simp⟩

end Handover

/-- In every run of the server, whatever the interleaving of its requests, each envelope
that the relay accepted is handed out at most once, to a pull of the queue that it was
posted to, and what is neither handed out nor dropped is in that queue. -/
theorem delivery_run (env : ServerEnv) (henv : env.PlainUnmatched) (pool : Prefix)
    (is : List ServerInput) : Delivery env pool is where
  queue := (tracked_run env pool is).queue
  pulled := envelopes_handedTo henv pool is
  receipts := by
    intro id
    rw [handedTo_run henv]
    exact (tracked_run env pool is).receipts id
  once := fun _ hids => subperm_handedTo henv pool is hids
  addressed := fun _ _ he => accepted_of_mem_handedTo henv he
  asked := fun _ hp => relays_of_mem_trace hp

/-! A node pulls before anything is posted to it; the post wakes its request up. -/

/-- The server on the texts of `relayRun`: whatever is posted is for the one node. -/
def relayEnv (disco : UInt8) : ServerEnv :=
  { sampleEnv with
    crypto := { sampleEnv.crypto with verify := fun pub _ _ => pub = sampleNode }
    decodeSignal := fun body => some ⟨Vector.replicate 32 disco, body⟩ }

theorem plainUnmatched_relayEnv (disco : UInt8) : (relayEnv disco).PlainUnmatched :=
  fun _ => ⟨_, rfl⟩

def signalRequest (method : String) (body : Bytes) : HttpRequest where
  method := method
  path := utf8 "/v1/signal"
  segments := ["v1", "signal"]
  timestamp := "0"
  node := sampleNodeText
  authorization := "Gretun " ++ sampleSigText
  body := body

def relayRun (disco : UInt8) (body : Bytes) : List ServerInput :=
  [.arrive 0 (registerRequest disco) sampleNow, .advance 0 {},
    .arrive 1 (signalRequest "GET" []) sampleNow, .advance 1 {}, .advance 1 {},
    .advance 1 {}, .arrive 2 (signalRequest "POST" body) sampleNow, .advance 2 {},
    .advance 2 {}, .advance 2 {}, .advance 1 {}, .advance 1 {}, .advance 1 {},
    .advance 2 {}]

theorem delivery_relayRun :
    Delivery (relayEnv 1) samplePool (relayRun 1 [7]) ∧
      ((relayRun 1 [7]).foldl (step (relayEnv 1))
          (start (relayEnv 1) samplePool)).handedTo 1 =
        [.envelope ⟨Vector.replicate 32 0, [7], 0⟩] ∧
      ((relayRun 1 [7]).foldl (step (relayEnv 1))
          (start (relayEnv 1) samplePool)).handedTo 2 = [.receipt] :=
  ⟨delivery_run (relayEnv 1) (plainUnmatched_relayEnv 1) samplePool (relayRun 1 [7]),
    by decide +kernel, by decide +kernel⟩

end Server

end Coord

end Gretun
