import Gretun.Daemon.Replay

/-!
# What comes before a direct path

A machine becomes direct on a pong, the other side sends a pong only when it
handles a ping, and a machine that has not been direct sends pings only from its
punch timer. Following a position of each log back to the step that filled it
turns this into an order of events: a ping while punching, then its handling and
answer on the other side, then the direct path.
-/

namespace Gretun

namespace Daemon

open Gretun.Net
open Gretun.Disco
open Foundation.Run
open Foundation.Log

namespace Pair

def Sends (p : Pair) (s : Side) (σ : Side → World) (i : PairInput) (body : Body) :
    Prop :=
  ∃ x ∈ (p.step σ i s).effects.drop (σ s).effects.length, x.body = some body

def Handles (p : Pair) (s : Side) (σ : Side → World) (i : PairInput)
    (body : Body) : Prop :=
  i.side = s ∧ (p.event σ s i.cause).bind Event.body = some body

/-- In the run of `is`, side `s` sends a ping while it is punching, and later the
other side handles that ping and answers it. -/
def PunchedThrough (p : Pair) (s : Side) (σ : Side → World)
    (is : List PairInput) : Prop :=
  ∃ is₁ i₁ is₂ i₂ is₃ ping pong,
    is = is₁ ++ i₁ :: (is₂ ++ i₂ :: is₃) ∧
      (is₁.foldl p.step σ s).fsm.state = .punching ∧
      ping.type = .ping ∧ p.Sends s (is₁.foldl p.step σ) i₁ ping ∧
      p.Handles s.other ((is₁ ++ i₁ :: is₂).foldl p.step σ) i₂ ping ∧
      pong.type = .pong ∧ pong.tx = ping.tx ∧
      p.Sends s.other ((is₁ ++ i₁ :: is₂).foldl p.step σ) i₂ pong

end Pair

/-! ## The step that filled a position -/

theorem Pair.sends_of_new {p : Pair} {s : Side} {σ : Side → World} {i : PairInput}
    {n : ℕ} {x : Effect} {body : Body} (hnew : (σ s).effects.length ≤ n)
    (hx : (p.step σ i s).effects[n]? = some x) (hbody : x.body = some body) :
    p.Sends s σ i body := by
  obtain ⟨xs, hxs⟩ := p.effects_isPrefix_step s σ i
  refine ⟨x, ?_, hbody⟩
  rw [← hxs, List.drop_left]
  rw [← hxs] at hx
  exact mem_of_getElem?_append hnew hx

/-- A log grows only in a step of its own side. -/
theorem Pair.event_of_new {p : Pair} {s : Side} {σ : Side → World} {i : PairInput}
    {n : ℕ} {x : Effect} (hnew : (σ s).effects.length ≤ n)
    (hx : (p.step σ i s).effects[n]? = some x) :
    i.side = s ∧ ∃ ev, p.event σ s i.cause = some ev ∧
      p.step σ i s =
        Daemon.step (p.env s) (σ s) ⟨ev, i.ifaceAddrs, i.faults⟩ := by
  have hnone : (σ s).effects[n]? = none := List.getElem?_eq_none hnew
  rcases p.step_cases σ i with hsame | ⟨ev, hev, heq⟩
  · rw [hsame, hnone] at hx
    cases hx
  · by_cases hs : i.side = s
    · subst hs
      exact ⟨rfl, ev, hev, by rw [heq, Function.update_self]⟩
    · rw [heq, Function.update_of_ne (Ne.symm hs), hnone] at hx
      cases hx

/-- An entry of a log that was not there at the start was written by one step, and
its position was free until then. -/
theorem Pair.exists_step_of_getElem? {p : Pair} {s : Side} {σ : Side → World}
    {is : List PairInput} {n : ℕ} {x : Effect} (hstart : x ∉ (σ s).effects)
    (hx : (is.foldl p.step σ s).effects[n]? = some x) :
    ∃ js i ks, is = js ++ i :: ks ∧
      (js.foldl p.step σ s).effects.length ≤ n ∧
      (p.step (js.foldl p.step σ) i s).effects[n]? = some x := by
  obtain ⟨js, i, ks, his, hbefore, hi⟩ :=
    exists_first_step (P := fun σ : Side → World => (σ s).effects[n]? = some x)
      (fun h => hstart (List.mem_of_getElem? h)) hx
  refine ⟨js, i, ks, his, ?_, hi⟩
  by_contra hlt
  have hfilled := List.getElem?_eq_getElem (Nat.lt_of_not_le hlt)
  refine hbefore js (List.prefix_refl js) ?_
  have hlater := getElem?_of_isPrefix (p.effects_isPrefix_step s _ i) hfilled
  rw [hfilled, ← hlater, hi]

theorem Pair.Started.notMem_effects {p : Pair} {σ : Side → World}
    (h : p.Started σ) {s : Side} {x : Effect} {body : Body}
    (hbody : x.body = some body) (htype : body.type = .ping ∨ body.type = .pong) :
    x ∉ (σ s).effects := by
  intro hmem
  have hsent : ∀ t, body.type = t → body.tx ∈ (σ s).sent t := by
    intro t ht
    refine List.mem_filterMap.2 ⟨x, hmem, ?_⟩
    simp [hbody, txOf, ht]
  rcases htype with ht | ht
  · have hping := hsent _ ht
    rw [(h.sent s).1] at hping
    cases hping
  · have hpong := hsent _ ht
    rw [(h.sent s).2.1] at hpong
    cases hpong

theorem Pair.Started.state {p : Pair} {σ : Side → World} (h : p.Started σ)
    (s : Side) : (σ s).fsm.state = .unknown := by
  obtain ⟨peer, ifaceAddrs, faults, k, -, hrun⟩ := h s
  simp only [runDaemon] at hrun
  split at hrun
  · rw [← Except.ok.inj hrun]
    rfl
  · cases hrun

/-! ## Where pings and pongs come from -/

/-- Until a machine has been direct, its pings come from its punch timer. -/
theorem Pair.Started.punching_of_ping {p : Pair} {σ : Side → World}
    (hstart : p.Started σ) {s : Side} {is : List PairInput}
    (hdirect : ∀ ls, ls <+: is → (ls.foldl p.step σ s).fsm.state ≠ .direct)
    {n : ℕ} {x : Effect} {ping : Body}
    (hx : (is.foldl p.step σ s).effects[n]? = some x)
    (hbody : x.body = some ping) (htype : ping.type = .ping) :
    ∃ js i ks, is = js ++ i :: ks ∧
      (js.foldl p.step σ s).fsm.state = .punching ∧
      p.Sends s (js.foldl p.step σ) i ping := by
  obtain ⟨js, i, ks, his, hnew, hi⟩ :=
    Pair.exists_step_of_getElem? (hstart.notMem_effects hbody (Or.inl htype)) hx
  refine ⟨js, i, ks, his, ?_, Pair.sends_of_new hnew hi hbody⟩
  obtain ⟨-, ev, -, hstep⟩ := Pair.event_of_new hnew hi
  rw [hstep] at hi
  rcases timerPings_of_ping hnew hi hbody htype with ⟨-, hs⟩ | ⟨-, hs⟩
  · exact hs
  · exact absurd hs (hdirect js ⟨i :: ks, his.symm⟩)

/-- A pong is sent in the step that handles the ping it answers. -/
theorem Pair.Started.handles_of_pong {p : Pair} {σ : Side → World}
    (hstart : p.Started σ) {s : Side} {is : List PairInput} {n : ℕ} {x : Effect}
    {pong : Body} (hx : (is.foldl p.step σ s).effects[n]? = some x)
    (hbody : x.body = some pong) (htype : pong.type = .pong) :
    ∃ js i ks ping, is = js ++ i :: ks ∧ ping.type = .ping ∧
      pong.tx = ping.tx ∧ p.Handles s (js.foldl p.step σ) i ping ∧
      p.Sends s (js.foldl p.step σ) i pong := by
  obtain ⟨js, i, ks, his, hnew, hi⟩ :=
    Pair.exists_step_of_getElem? (hstart.notMem_effects hbody (Or.inr htype)) hx
  have hsends := Pair.sends_of_new hnew hi hbody
  obtain ⟨hside, ev, hev, hstep⟩ := Pair.event_of_new hnew hi
  rw [hstep] at hi
  obtain ⟨ping, hping, htx⟩ :=
    Option.bind_eq_some_iff.1 (txOf_ping_of_pong hnew hi hbody htype)
  simp only [txOf] at htx
  split at htx
  · rename_i hpingType
    refine ⟨js, i, ks, ping, his, hpingType, (Option.some.inj htx).symm,
      ⟨hside, ?_⟩, hsends⟩
    rw [hev]
    exact hping
  · cases htx

theorem Pair.getElem?_of_handles {p : Pair} {s : Side} {σ : Side → World}
    {i : PairInput} {body : Body} (h : p.Handles s σ i body) :
    ∃ (n : ℕ) (x : Effect),
      (σ s.other).effects[n]? = some x ∧ x.body = some body := by
  obtain ⟨ev, hev, hbody⟩ := Option.bind_eq_some_iff.1 h.2
  rcases Pair.event_cases hev with ⟨n, via, b, -, hb, rfl⟩ | ⟨-, hlocal⟩
  · obtain ⟨x, hx, hfor⟩ := Option.bind_eq_some_iff.1 hb
    refine ⟨n, x, hx, ?_⟩
    rw [body_of_bodyFor hfor, ← hbody]
    cases via <;> rfl
  · rcases hlocal with ⟨peer, rfl⟩ | rfl | rfl | rfl <;> cases hbody

/-- A machine that enters the direct state does so on a pong of the other log. -/
theorem Pair.getElem?_of_direct {p : Pair} {s : Side} {σ : Side → World}
    {i : PairInput} (hbefore : (σ s).fsm.state ≠ .direct)
    (hafter : (p.step σ i s).fsm.state = .direct) :
    ∃ (n : ℕ) (x : Effect) (pong : Body), (σ s.other).effects[n]? = some x ∧
      x.body = some pong ∧ pong.type = .pong := by
  rcases p.step_cases σ i with hsame | ⟨ev, hev, heq⟩
  · rw [hsame] at hafter
    exact absurd hafter hbefore
  · by_cases hs : s = i.side
    · subst hs
      rw [heq, Function.update_self] at hafter
      cases hpong : ev.pongFrom with
      | none => exact absurd (direct_of_step_direct hpong hafter) hbefore
      | some src =>
          obtain ⟨n, via, pong, -, henv, htype, -⟩ :=
            Pair.event_pongFrom hev hpong
          obtain ⟨x, hx, hfor⟩ := Option.bind_eq_some_iff.1 henv
          exact ⟨n, x, pong, hx, body_of_bodyFor hfor, htype⟩
    · rw [heq, Function.update_of_ne hs] at hafter
      exact absurd hafter hbefore

/-! ## The order of events -/

/-- In every run of two daemons, a side that is direct at some time first became
direct in a step before which it had sent a ping while punching, and before which
the other side had then handled that ping and answered it with a pong. -/
theorem punchedThrough_of_direct {p : Pair} {σ : Side → World}
    (hstart : p.Started σ) (s : Side) {is ls : List PairInput} (hls : ls <+: is)
    (hdirect : (ls.foldl p.step σ s).fsm.state = .direct) :
    ∃ js i, js ++ [i] <+: is ∧
      (∀ ks, ks <+: js → (ks.foldl p.step σ s).fsm.state ≠ .direct) ∧
      ((js ++ [i]).foldl p.step σ s).fsm.state = .direct ∧
      p.PunchedThrough s σ js := by
  obtain ⟨js, i, ks, rfl, hbefore, hi⟩ :=
    exists_first_step (P := fun σ : Side → World => (σ s).fsm.state = .direct)
      (by rw [hstart.state]; decide) hdirect
  have hpre : js ++ [i] <+: is :=
    List.IsPrefix.trans ⟨ks, by simp⟩ hls
  refine ⟨js, i, hpre, hbefore, by rwa [List.foldl_append], ?_⟩
  -- back from the direct path to the pong, to its ping, to the timer
  obtain ⟨n, x, pong, hx, hpong, hpongType⟩ :=
    Pair.getElem?_of_direct (hbefore js (List.prefix_refl js)) hi
  obtain ⟨ms, i₂, is₃, ping, rfl, hpingType, htx, hhandles, hanswers⟩ :=
    hstart.handles_of_pong hx hpong hpongType
  obtain ⟨m, y, hy, hping⟩ := Pair.getElem?_of_handles hhandles
  rw [Side.other_other] at hy
  obtain ⟨is₁, i₁, is₂, rfl, hpunching, hsends⟩ :=
    hstart.punching_of_ping
      (fun ls hls => hbefore ls (hls.trans (List.prefix_append _ _))) hy hping
      hpingType
  exact ⟨is₁, i₁, is₂, i₂, is₃, ping, pong, by simp, hpunching, hpingType,
    hsends, hhandles, hpongType, htx, hanswers⟩

/-- The handshake makes side `a` direct. -/
theorem punchedThrough_of_handshake :
    ∃ js i, js ++ [i] <+: handshake 4000 ∧
      (∀ ks, ks <+: js →
        (ks.foldl (samplePair 4000).step (sampleStart 4000) .a).fsm.state ≠
          .direct) ∧
      ((js ++ [i]).foldl (samplePair 4000).step (sampleStart 4000) .a).fsm.state =
        .direct ∧
      (samplePair 4000).PunchedThrough .a (sampleStart 4000) js :=
  punchedThrough_of_direct (started_sampleStart 4000) .a
    (List.prefix_refl (handshake 4000)) (by decide +kernel)

end Daemon

end Gretun
