import Gretun.Coord.Server
import Gretun.Foundation.Run

/-!
# The signal half of the server

Every run of the server is, on the signal queues, a run of `SignalSystem`, with a
goroutine for each request in flight. `Moves` says how a store call moves a
goroutine, and `Follows` that a handler makes its calls in the order that these
moves allow; the handlers do, so what is known of `SignalSystem` holds of the
server.
-/

namespace Gretun

namespace Coord

open Gretun.Net
open Foundation.Channel
open Foundation.Command
open Foundation.Run

def StoreCall.Quiet : StoreCall → Prop
  | .now | .register _ | .setEndpoints .. | .peers | .waitChannel _
  | .receivePeers _ => True
  | _ => False

def afterEnqueue : Except CtxError (Option ℕ) → Thread
  | .error _ => .idle
  | .ok wake => .closing wake

/-- The place after the first pop of a pull: with nothing to return it goes on to
wait. -/
def afterPop (dst : Key) : Except CtxError (List Envelope) → Thread
  | .ok (_ :: _) => .idle
  | _ => .pulled dst

def afterReceive (dst : Key) : Except CtxError Unit → Thread
  | .ok () => .woken dst
  | .error _ => .idle

inductive Moves : (c : StoreCall) → Thread → (Answer c → Thread) → Prop
  | quiet (c : StoreCall) (hc : c.Quiet) : Moves c .idle fun _ => .idle
  | enqueue (dst : Key) (env : Envelope) :
      Moves (.enqueueLocked dst env) .idle afterEnqueue
  | close (wake : Option ℕ) : Moves (.closeWake wake) (.closing wake) fun _ => .idle
  | pop (dst : Key) : Moves (.popSignals dst) .idle (afterPop dst)
  | wait (dst : Key) :
      Moves (.waitLocked dst) (.pulled dst) (SignalSystem.afterWaitLocked dst true)
  | receive (dst : Key) (ch : ℕ) :
      Moves (.receiveWake ch) (.blocked dst ch true) (afterReceive dst)
  | popAgain (dst : Key) : Moves (.popSignals dst) (.woken dst) fun _ => .idle

/-- From the place `t`, the program makes only calls that `Moves` allows, and is
idle when it returns. -/
def Follows : Handler Response → Thread → Prop
  | .ret _, t => t = .idle
  | .call c k, t => ∃ next, Moves c t next ∧ ∀ a, Follows (k a) (next a)

/-! ## The handlers -/

theorem follows_of_quiet {m : Handler Response}
    (h : Prog.AllCalls StoreCall.Quiet m) : Follows m .idle := by
  induction m with
  | ret a => rfl
  | call c k ih => exact ⟨_, .quiet c h.1, fun a => ih a (h.2 a)⟩

theorem follows_handleSignal (env : ServerEnv) (body : Bytes) :
    Follows (handleSignal env body) .idle := by
  unfold handleSignal
  cases env.decodeSignal body with
  | none => rfl
  | some req =>
      refine ⟨_, .quiet _ trivial, fun now => ⟨_, .enqueue _ _, fun a => ?_⟩⟩
      cases a with
      | error e => rfl
      | ok wake => exact ⟨_, .close wake, fun _ => rfl⟩

theorem follows_popAgain (dst : Key) : Follows (popAgain dst) (.woken dst) := by
  refine ⟨_, .popAgain dst, fun a => ?_⟩
  cases a <;> rfl

theorem follows_pullAgain (dst : Key) : Follows (pullAgain dst) (.pulled dst) := by
  refine ⟨_, .wait dst, fun a => ?_⟩
  cases a with
  | none => exact follows_popAgain dst
  | some ch =>
      refine ⟨_, .receive dst ch, fun a => ?_⟩
      cases a with
      | error e => rfl
      | ok u => exact follows_popAgain dst

theorem follows_pullFrom (dst : Key) : Follows (pullFrom dst) .idle := by
  refine ⟨_, .pop dst, fun a => ?_⟩
  rcases a with e | (_ | ⟨e, envs⟩)
  · exact follows_pullAgain dst
  · exact follows_pullAgain dst
  · rfl

theorem follows_handleSignalPull (env : ServerEnv) (pub : Bytes) :
    Follows (handleSignalPull env pub) .idle := by
  refine ⟨_, .quiet _ trivial, fun a => ?_⟩
  change Follows (pullFound (discoKeyIn env pub a)) .idle
  cases discoKeyIn env pub a with
  | error text => rfl
  | ok dst => exact follows_pullFrom dst

theorem follows_authed {env : ServerEnv} {now : Time} {r : HttpRequest}
    {h : Bytes → Bytes → Handler Response}
    (hh : ∀ pub body, Follows (h pub body) .idle) :
    Follows (authed env now r h) .idle := by
  unfold authed
  cases verifyRequest env.crypto now r with
  | error err => rfl
  | ok v => exact hh v.1 v.2

theorem follows_serveHTTP (env : ServerEnv) (now : Time) (r : HttpRequest) :
    Follows (serveHTTP env now r) .idle := by
  unfold serveHTTP
  split
  · rfl
  · exact follows_of_quiet (allCalls_handleRegister (fun _ _ _ => trivial) trivial)
  · exact follows_authed fun _ body =>
      follows_of_quiet (allCalls_handleEndpoints (fun _ => trivial) body)
  · exact follows_authed fun _ _ =>
      follows_of_quiet (allCalls_handlePeers trivial trivial fun _ => trivial)
  · exact follows_authed fun _ body => follows_handleSignal env body
  · exact follows_authed fun pub _ => follows_handleSignalPull env pub
  · exact follows_of_quiet (allCalls_handleDebugPeers trivial)

/-! ## One call -/

theorem signals_of_quiet {newEtag : ℕ → String} {limits : Limits} {d : Decision}
    {c : StoreCall} {s s' : Store} {a : Answer c} (hc : c.Quiet)
    (h : s.answer newEtag limits d c = some (a, s')) : s'.signals = s.signals := by
  cases c with
  | receivePeers ch =>
      obtain ⟨r, -, heq⟩ := Option.map_eq_some_iff.1 h
      cases heq
      rfl
  | now | register | setEndpoints | peers | waitChannel =>
      cases h
      rfl
  | enqueueLocked | closeWake | popSignals | waitLocked | receiveWake => cases hc

theorem steps_firstPop (limits : Limits) (now : Time) (dst : Key) {s : Signals}
    {threads : ℕ → Thread} {id : ℕ} (ht : threads id = .idle) :
    Relation.ReflTransGen (SignalSystem.Step limits) ⟨s, threads⟩
      ⟨s.popped limits now dst, Function.update threads id (afterPop dst
        (.ok ((s.handedOut limits now dst).toList (s.popped limits now dst).heap)))⟩ := by
  cases hout : (s.handedOut limits now dst).toList (s.popped limits now dst).heap with
  | nil =>
      refine .single (.firstPop ⟨s, threads⟩ id dst now ht ?_)
      rw [← Foundation.GoSlice.Slice.length_toList _ (s.popped limits now dst).heap, hout]
      rfl
  | cons e envs =>
      have hstay : Function.update threads id (afterPop dst (.ok (e :: envs))) =
          threads := by
        rw [afterPop, ← ht, Function.update_eq_self]
      rw [hstay]
      exact .single (.pop ⟨s, threads⟩ id dst now ht)

theorem steps_of_moves {newEtag : ℕ → String} {limits : Limits} {d : Decision}
    {c : StoreCall} {t : Thread} {next : Answer c → Thread} (hmoves : Moves c t next)
    {s s' : Store} {a : Answer c} (h : s.answer newEtag limits d c = some (a, s'))
    {threads : ℕ → Thread} {id : ℕ} (ht : threads id = t) :
    Relation.ReflTransGen (SignalSystem.Step limits) ⟨s.signals, threads⟩
      ⟨s'.signals, Function.update threads id (next a)⟩ := by
  have hstay : threads id = .idle → Function.update threads id .idle = threads := by
    intro hidle
    rw [← hidle, Function.update_eq_self]
  cases hmoves with
  | quiet c hc => rw [hstay ht, signals_of_quiet hc h]
  | enqueue dst env =>
      unfold Store.answer at h
      cases hctx : d.ctx with
      | some e =>
          simp only [hctx] at h
          cases h
          exact (hstay ht).symm ▸ .refl
      | none =>
          simp only [hctx] at h
          cases h
          exact .single (.enqueue ⟨s.signals, threads⟩ id d.extra dst env ht)
  | close wake =>
      cases h
      exact .single (.close ⟨s.signals, threads⟩ id wake ht)
  | pop dst =>
      unfold Store.answer Signals.popSignals at h
      cases hctx : d.ctx with
      | some e =>
          simp only [hctx] at h
          cases h
          exact .single (.firstPopFails ⟨s.signals, threads⟩ id dst ht)
      | none =>
          simp only [hctx] at h
          cases h
          exact steps_firstPop limits d.now dst ht
  | wait dst =>
      cases h
      exact .single (.wait ⟨s.signals, threads⟩ id dst true ht)
  | receive dst ch =>
      obtain ⟨r, hr, heq⟩ := Option.map_eq_some_iff.1 h
      cases heq
      unfold Store.receive at hr
      cases hctx : d.ctx with
      | some e =>
          simp only [hctx] at hr
          cases hr
          exact .single (.giveUp ⟨s.signals, threads⟩ id dst ch true ht)
      | none =>
          simp only [hctx] at hr
          split at hr
          · cases hr
          · rename_i hclosed
            cases hr
            exact .single (.wake ⟨s.signals, threads⟩ id dst ch true ht hclosed)
  | popAgain dst =>
      unfold Store.answer Signals.popSignals at h
      cases hctx : d.ctx with
      | some e =>
          simp only [hctx] at h
          cases h
          exact .single (.secondPopFails ⟨s.signals, threads⟩ id dst ht)
      | none =>
          simp only [hctx] at h
          cases h
          exact .single (.secondPop ⟨s.signals, threads⟩ id dst d.now ht)

/-! ## Runs -/

namespace Server

/-- The goroutine of a request in flight is where its handler needs it; the others
are idle. -/
def Shows : Option InFlight → Thread → Prop
  | none, t => t = .idle
  | some f, t => Follows f.prog t

structure Simulates (s : Server) (σ : SignalSystem) : Prop where
  store : σ.store = s.store.signals
  threads : ∀ id, Shows (s.inflight id) (σ.threads id)

theorem simulates_start (env : ServerEnv) (pool : Prefix) :
    Simulates (start env pool) SignalSystem.start :=
  ⟨rfl, fun _ => rfl⟩

theorem shows_update {inflight : ℕ → Option InFlight} {threads : ℕ → Thread}
    (h : ∀ id, Shows (inflight id) (threads id)) (id : ℕ) {f : Option InFlight}
    {t : Thread} (hf : Shows f t) (id' : ℕ) :
    Shows (Function.update inflight id f id') (Function.update threads id t id') := by
  by_cases hid : id' = id
  · subst hid
    rw [Function.update_self, Function.update_self]
    exact hf
  · rw [Function.update_of_ne hid, Function.update_of_ne hid]
    exact h id'

/-- A step of the server is a step of `SignalSystem`, or none. -/
theorem simulates_step {env : ServerEnv} {s : Server} {σ : SignalSystem}
    (h : Simulates s σ) (i : ServerInput) :
    ∃ σ', Relation.ReflTransGen (SignalSystem.Step env.limits) σ σ' ∧
      Simulates (s.step env i) σ' := by
  -- replacing an idle goroutine by an idle one changes nothing
  have hidle : ∀ {id f}, σ.threads id = .idle → Shows f .idle →
      ∀ id', Shows (Function.update s.inflight id f id') (σ.threads id') := by
    intro id f ht hf id'
    have hshows := shows_update h.threads id hf id'
    rwa [← ht, Function.update_eq_self] at hshows
  cases i with
  | arrive id req now =>
      cases hf : s.inflight id with
      | some f =>
          simp only [step, hf]
          exact ⟨σ, .refl, h⟩
      | none =>
          have ht := h.threads id
          rw [hf] at ht
          simp only [step, hf]
          exact ⟨σ, .refl, h.store, hidle ht (follows_serveHTTP env now req)⟩
  | advance id d =>
      cases hf : s.inflight id with
      | none =>
          simp only [step, hf]
          exact ⟨σ, .refl, h⟩
      | some f =>
          have ht := h.threads id
          rw [hf] at ht
          simp only [step, hf, advance]
          change Follows f.prog (σ.threads id) at ht
          cases hprog : f.prog with
          | ret resp =>
              rw [hprog] at ht
              exact ⟨σ, .refl, h.store, hidle ht rfl⟩
          | call c k =>
              rw [hprog] at ht
              obtain ⟨next, hmoves, hnext⟩ := ht
              cases ha : s.store.answer env.newEtag env.limits d c with
              | none =>
                  simp only [ha]
                  exact ⟨σ, .refl, h⟩
              | some r =>
                  simp only [ha]
                  have hsteps := steps_of_moves hmoves ha rfl
                  rw [← h.store] at hsteps
                  have hf' : Shows (some { f with prog := k r.1 }) (next r.1) :=
                    hnext r.1
                  exact ⟨_, hsteps, rfl, shows_update h.threads id hf'⟩

/-- Every state that the server reaches is, on the signal queues, a state that
`SignalSystem` reaches. -/
theorem simulates_run (env : ServerEnv) (pool : Prefix) (is : List ServerInput) :
    ∃ σ, SignalSystem.Reachable env.limits σ ∧
      Simulates (is.foldl (step env) (start env pool)) σ :=
  simulation_foldl (R := Simulates) (fun _ _ i h => simulates_step h i)
    (simulates_start env pool) is

/-- Who waits for a wake channel is asleep in a pull, and pops from the same queue
when it wakes. -/
theorem blocked_of_follows {ch : ℕ}
    {k : Answer (.receiveWake ch) → Handler Response} {t : Thread}
    (h : Follows (.call (.receiveWake ch) k) t) :
    ∃ dst k', t = .blocked dst ch true ∧
      k (.ok ()) = .call (.popSignals dst) k' := by
  obtain ⟨next, hmoves, hnext⟩ := h
  cases hmoves with
  | quiet c hc => cases hc
  | receive dst ch =>
      have hwoken : Follows (k (.ok ())) (.woken dst) := hnext (.ok ())
      cases hk : k (.ok ()) with
      | ret resp =>
          rw [hk] at hwoken
          cases hwoken
      | call c k' =>
          rw [hk] at hwoken
          obtain ⟨next', hmoves', -⟩ := hwoken
          cases hmoves' with
          | popAgain => exact ⟨dst, k', rfl, rfl⟩

theorem closeWake_of_follows {m : Handler Response} {wake : Option ℕ}
    (h : Follows m (.closing wake)) : ∃ k, m = .call (.closeWake wake) k := by
  cases m with
  | ret resp => cases h
  | call c k =>
      obtain ⟨next, hmoves, -⟩ := h
      cases hmoves with
      | close => exact ⟨k, rfl⟩

/-- In every run: while a pull sleeps on an open channel, the queue that it will
pop from is empty, or a request in flight is about to close the channel. -/
theorem pull_not_lost {env : ServerEnv} {pool : Prefix} {is : List ServerInput}
    {s : Server} (hs : is.foldl (step env) (start env pool) = s) {id ch : ℕ}
    {f : InFlight} {k : Answer (.receiveWake ch) → Handler Response}
    (hf : s.inflight id = some f) (hprog : f.prog = .call (.receiveWake ch) k)
    (hopen : s.store.signals.chans.IsOpen ch) :
    ∃ dst k', k (.ok ()) = .call (.popSignals dst) k' ∧
      (s.store.signals.contents dst = [] ∨
        ∃ id' f' k'', s.inflight id' = some f' ∧
          f'.prog = .call (.closeWake (some ch)) k'') := by
  subst hs
  obtain ⟨σ, hreach, hsim⟩ := simulates_run env pool is
  have hshows := hsim.threads id
  rw [hf] at hshows
  change Follows f.prog (σ.threads id) at hshows
  rw [hprog] at hshows
  obtain ⟨dst, k', ht, hk⟩ := blocked_of_follows hshows
  refine ⟨dst, k', hk, ?_⟩
  rw [← hsim.store] at hopen ⊢
  rcases ((SignalSystem.inv_of_reachable hreach).blocked id dst ch true ht).2 hopen with
    hmapped | ⟨id', ht'⟩
  · exact Or.inl ((SignalSystem.inv_of_reachable hreach).mapped dst ch hmapped).2.2
  · right
    have hshows' := hsim.threads id'
    rw [ht'] at hshows'
    cases hf' : (is.foldl (step env) (start env pool)).inflight id' with
    | none =>
        rw [hf'] at hshows'
        cases hshows'
    | some f' =>
        rw [hf'] at hshows'
        obtain ⟨k'', hclose⟩ := closeWake_of_follows hshows'
        exact ⟨id', f', k'', hf', hclose⟩

theorem wakes_closed_once (env : ServerEnv) (pool : Prefix) (is : List ServerInput) :
    (is.foldl (step env) (start env pool)).store.signals.chans.NoDoubleClose := by
  obtain ⟨σ, hreach, hsim⟩ := simulates_run env pool is
  rw [← hsim.store]
  exact (SignalSystem.inv_of_reachable hreach).chans.once

end Server

end Coord

end Gretun
