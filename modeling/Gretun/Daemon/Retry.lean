import Gretun.Daemon.Messages
import Gretun.Foundation.Run

/-!
# Punching again

A machine that is not direct can ping its peer's endpoints again only while its
punch timer still runs: from the unknown state, which an update leaves for
punching, or from a punching phase whose deadline has not passed. The relay state
and a punching phase past its deadline are left by a pong and by nothing else; no
timer reads a retry interval.

The events that drive a retry are chosen by the environment, and so are the times
at which they happen: a continuation comes with its own later clock readings.
-/

namespace Gretun

namespace Daemon

open Gretun.Net
open Gretun.Disco
open Foundation.Run
open Foundation.Log

/-- A timer, a coordinator update or a call for a callback. -/
def Event.Routine : Event → Prop
  | .setPeer _ => True
  | .update => True
  | .udp _ body => body.type = .callMeMaybe
  | .signal body => body.type = .callMeMaybe
  | .tick => True
  | .keepalive => True

def PingsEvery (e : Env) (w : World) (i : Input) : Prop :=
  w.fsm.peer.endpoints ≠ [] ∧
    ∀ ep ∈ w.fsm.peer.endpoints, ∃ body, body.type = .ping ∧
      .udp ep.addr w.fsm.peer.discoKey body ∈
        (step e w i).effects.drop w.effects.length

/-- Some continuation of routine events makes the machine ping every endpoint.
The readings of its clock so far are given, later ones are free. -/
def CanRetry (e : Env) (w : World) : Prop :=
  ∃ clock : ℕ → Time, Monotone clock ∧ (∀ n < w.reads, clock n = e.clock n) ∧
    ∃ (is : List Input) (i : Input), (∀ j ∈ is, j.event.Routine) ∧
      i.event.Routine ∧
      PingsEvery { e with clock := clock }
        (is.foldl (step { e with clock := clock }) w) i

def Abandoned (e : Env) (w : World) : Prop :=
  w.fsm.state = .relay ∨
    w.fsm.state = .punching ∧ ∃ n < w.reads, w.punchDeadline < e.clock n

/-! ## Nothing but a pong ends an abandoned attempt -/

theorem Event.Routine.pongFrom {ev : Event} (h : ev.Routine) :
    ev.pongFrom = none := by
  cases ev with
  | udp src body =>
      have htype : body.type = .callMeMaybe := h
      simp [Event.pongFrom, htype]
  | signal body =>
      have htype : body.type = .callMeMaybe := h
      simp [Event.pongFrom, htype]
  | _ => rfl

@[simp] theorem sendPing_reads (e : Env) (dst : AddrPort) (w : World) :
    (sendPing e dst w).reads = w.reads := by
  simp [sendPing, sendDisco, World.emit]

@[simp] theorem pingAll_reads (e : Env) (dsts : List AddrPort) (w : World) :
    (pingAll e dsts w).reads = w.reads :=
  pingAll_induction e (I := fun w' => w'.reads = w.reads)
    (fun dst w' h => by rw [sendPing_reads, h]) dsts rfl

theorem reads_le_onPeerUpdate (e : Env) (w : World) :
    w.reads ≤ (onPeerUpdate e w).reads := by
  unfold onPeerUpdate
  split
  · exact Nat.le_add_right w.reads 2
  · exact le_rfl

theorem reads_le_step (e : Env) (w : World) {i : Input} (h : i.event.Routine) :
    w.reads ≤ (step e w i).reads := by
  have hudp : ∀ src body, body.type = .callMeMaybe →
      w.reads ≤ (onDiscoUDP e i src body w).reads := by
    intro src body htype
    simp only [onDiscoUDP, htype]
    exact reads_le_onPeerUpdate e (absorbEndpoints e body.endpoints w)
  unfold step
  cases hev : i.event with
  | setPeer peer => exact le_rfl
  | update => exact reads_le_onPeerUpdate e w
  | udp src body => exact hudp src body (by rw [hev] at h; exact h)
  | signal body => exact hudp AddrPort.zero body (by rw [hev] at h; exact h)
  | tick =>
      simp only [tickPunch]
      split
      · exact le_rfl
      · split <;> simp [World.setState]
  | keepalive =>
      simp only [keepalive]
      split
      · exact le_rfl
      · split <;> simp [World.setState]

theorem Abandoned.step {e : Env} {w : World} {i : Input} (h : Abandoned e w)
    (hi : i.event.Routine) : Abandoned e (Daemon.step e w i) := by
  have hne : w.fsm.state ≠ .unknown ∧ w.fsm.state ≠ .direct := by
    rcases h with hs | ⟨hs, -⟩ <;> rw [hs] <;> decide
  rcases step_state_cases e w i hi.pongFrom with
    hsame | hbegins | ⟨-, hrelay⟩ | ⟨hlost, -⟩
  · rcases h with hs | ⟨hs, n, hn, hlate⟩
    · exact Or.inl (hsame.state.trans hs)
    · refine Or.inr ⟨hsame.state.trans hs, n,
        lt_of_lt_of_le hn (reads_le_step e w hi), ?_⟩
      rwa [hsame.punchDeadline]
  · exact absurd hbegins.unknown hne.1
  · exact Or.inl hrelay
  · exact absurd hlost.2.1 hne.2

theorem tickPunch_effects_of_expired {e : Env} {w : World}
    (h : w.punchDeadline < e.clock w.reads) :
    (tickPunch e w).effects = w.effects := by
  unfold tickPunch
  split
  · rfl
  · simp [World.now, h, World.setState]

theorem Abandoned.not_pingsEvery {e : Env} (hclock : Monotone e.clock) {w : World}
    (h : Abandoned e w) (i : Input) : ¬ PingsEvery e w i := by
  rintro ⟨hne, hpings⟩
  obtain ⟨ep, hep⟩ := List.exists_mem_of_ne_nil _ hne
  obtain ⟨body, htype, hmem⟩ := hpings ep hep
  obtain ⟨n, hn⟩ := List.mem_iff_getElem?.1 hmem
  rw [List.getElem?_drop] at hn
  rcases timerPings_of_ping (Nat.le_add_right _ n) hn rfl htype with
    ⟨htick, hs⟩ | ⟨-, hs⟩
  · rcases h with hrelay | ⟨-, m, hm, hlate⟩
    · rw [hs] at hrelay
      cases hrelay
    · -- the reading of this tick is no earlier than the one past the deadline
      have hexpired : w.punchDeadline < e.clock w.reads :=
        lt_of_lt_of_le hlate (hclock hm.le)
      have heffects : (Daemon.step e w i).effects = w.effects := by
        rw [Daemon.step, htick]
        exact tickPunch_effects_of_expired hexpired
      rw [heffects, List.getElem?_eq_none (Nat.le_add_right _ n)] at hn
      cases hn
  · rcases h with hrelay | ⟨hpunching, -⟩
    · rw [hs] at hrelay
      cases hrelay
    · rw [hs] at hpunching
      cases hpunching

theorem Abandoned.not_canRetry {e : Env} {w : World} (h : Abandoned e w) :
    ¬ CanRetry e w := by
  rintro ⟨clock, hmono, hsame, is, i, his, -, hpings⟩
  have hstart : Abandoned { e with clock := clock } w := by
    rcases h with hs | ⟨hs, n, hn, hlate⟩
    · exact Or.inl hs
    · refine Or.inr ⟨hs, n, hn, ?_⟩
      change w.punchDeadline < clock n
      rwa [hsame n hn]
  have hrun := invariant_of_eachStep (I := Abandoned { e with clock := clock })
    (P := fun _ (j : Input) => j.event.Routine) (fun _ _ hw hj => hw.step hj) hstart
    (eachStep_of_forall_mem his w)
  exact hrun.not_pingsEvery hmono i hpings

/-! ## Where a retry can start -/

/-- The first `k` readings of `f`, and `c` from then on. -/
def clockUntil (f : ℕ → Time) (k : ℕ) (c : Time) (n : ℕ) : Time :=
  if n < k then f n else c

theorem monotone_clockUntil {f : ℕ → Time} (hf : Monotone f) {k : ℕ} {c : Time}
    (hc : ∀ n < k, f n ≤ c) : Monotone (clockUntil f k c) := by
  intro n m hnm
  unfold clockUntil
  by_cases hm : m < k
  · rw [if_pos hm, if_pos (lt_of_le_of_lt hnm hm)]
    exact hf hnm
  · rw [if_neg hm]
    split
    · exact hc n ‹n < k›
    · exact le_rfl

theorem clockUntil_of_le (f : ℕ → Time) {k : ℕ} (c : Time) {n : ℕ} (h : k ≤ n) :
    clockUntil f k c n = c := if_neg (Nat.not_lt.2 h)

theorem pingAll_effects (e : Env) (dsts : List AddrPort) (w : World) :
    ∃ xs, (pingAll e dsts w).effects = w.effects ++ xs ∧
      ∀ dst ∈ dsts, ∃ body, body.type = .ping ∧
        .udp dst w.fsm.peer.discoKey body ∈ xs := by
  induction dsts generalizing w with
  | nil => exact ⟨[], (List.append_nil _).symm, by simp⟩
  | cons dst dsts ih =>
      obtain ⟨ys, -, hfirst⟩ := sendPing_effects e dst w
      obtain ⟨xs, hrest, hxs⟩ := ih (sendPing e dst w)
      refine ⟨.udp dst w.fsm.peer.discoKey
        { type := .ping, tx := e.newTxID w.txs, nodeKey := e.deps.selfNode } ::
          (ys ++ xs), ?_, ?_⟩
      · change (pingAll e dsts (sendPing e dst w)).effects = _
        rw [hrest, hfirst, List.append_assoc, List.cons_append]
      · intro d hd
        rcases List.mem_cons.1 hd with rfl | hd
        · exact ⟨_, rfl, List.mem_cons_self⟩
        · obtain ⟨body, htype, hmem⟩ := hxs d hd
          rw [sendPing_fsm] at hmem
          exact ⟨body, htype,
            List.mem_cons_of_mem _ (List.mem_append_right _ hmem)⟩

theorem pingsEvery_tick {e : Env} {w : World} (hstate : w.fsm.state = .punching)
    (hne : w.fsm.peer.endpoints ≠ []) (hnow : e.clock w.reads ≤ w.punchDeadline)
    {i : Input} (hi : i.event = .tick) : PingsEvery e w i := by
  refine ⟨hne, fun ep hep => ?_⟩
  have hstep : step e w i = pingAll e (w.fsm.peer.endpoints.map (·.addr))
      { w with reads := w.reads + 1 } := by
    simp [step, hi, tickPunch, hstate, World.now, not_lt.2 hnow]
  obtain ⟨xs, hxs, hall⟩ := pingAll_effects e
    (w.fsm.peer.endpoints.map (·.addr)) { w with reads := w.reads + 1 }
  obtain ⟨body, htype, hmem⟩ := hall ep.addr (List.mem_map_of_mem hep)
  refine ⟨body, htype, ?_⟩
  rw [hstep, hxs, List.drop_left]
  exact hmem

theorem canRetry_of_punching {e : Env} (hclock : Monotone e.clock) {w : World}
    (hstate : w.fsm.state = .punching) (hne : w.fsm.peer.endpoints ≠ [])
    (hearly : ∀ n < w.reads, e.clock n ≤ w.punchDeadline) : CanRetry e w := by
  refine ⟨clockUntil e.clock w.reads w.punchDeadline,
    monotone_clockUntil hclock hearly, fun n hn => if_pos hn, [],
    ⟨.tick, [], fun _ _ => none⟩, by simp, trivial, ?_⟩
  refine pingsEvery_tick hstate hne ?_ rfl
  exact (clockUntil_of_le e.clock w.punchDeadline le_rfl).le

/-- Known endpoints take a machine from the unknown state to punching. -/
theorem onPeerUpdate_of_unknown (e : Env) {w : World}
    (hstate : w.fsm.state = .unknown) (hne : w.fsm.peer.endpoints ≠ []) :
    BeginsPunch e w (onPeerUpdate e w) ∧
      (onPeerUpdate e w).fsm.peer = w.fsm.peer ∧
      (onPeerUpdate e w).reads = w.reads + 2 := by
  rw [onPeerUpdate, if_pos ⟨hne, hstate⟩]
  exact ⟨⟨hstate, rfl, rfl, rfl⟩, rfl, rfl⟩

theorem canRetry_of_unknown {e : Env} (hclock : Monotone e.clock) {w : World}
    (hstate : w.fsm.state = .unknown) (hne : w.fsm.peer.endpoints ≠ []) :
    CanRetry e w := by
  let clock := clockUntil e.clock w.reads (e.clock w.reads)
  refine ⟨clock, monotone_clockUntil hclock fun n hn => hclock hn.le,
    fun n hn => if_pos hn, [⟨.update, [], fun _ _ => none⟩],
    ⟨.tick, [], fun _ _ => none⟩, ?_, trivial, ?_⟩
  · intro j hj
    rw [List.mem_singleton.1 hj]
    trivial
  · obtain ⟨hbegins, hpeer, hreads⟩ :=
      onPeerUpdate_of_unknown { e with clock := clock } hstate hne
    refine pingsEvery_tick hbegins.state (hpeer ▸ hne) ?_ rfl
    change clock (onPeerUpdate { e with clock := clock } w).reads ≤
      (onPeerUpdate { e with clock := clock } w).punchDeadline
    rw [hreads, hbegins.punchDeadline]
    change clock (w.reads + 2) ≤ clock (w.reads + 1) + punchAttemptDur
    have hlater : ∀ n, clock (w.reads + n) = e.clock w.reads :=
      fun n => clockUntil_of_le _ _ (Nat.le_add_right _ n)
    rw [hlater, hlater]
    exact le_add_of_nonneg_right (by decide)

/-- In every state that a machine reaches, not direct and with an endpoint known,
it can ping again without a pong exactly when it is in the unknown state or in a
punching phase whose deadline no clock reading has passed. -/
theorem canRetry_iff {e : Env} (hclock : Monotone e.clock) (peer : RemotePeer)
    (ifaceAddrs : List IP) (discoPort : ℕ) (k : Tunnel.Kernel) (is : List Input)
    {w : World}
    (hw : is.foldl (step e) (startRun peer ifaceAddrs discoPort k) = w)
    (hdirect : w.fsm.state ≠ .direct) (hne : w.fsm.peer.endpoints ≠ []) :
    CanRetry e w ↔ w.fsm.state = .unknown ∨
      w.fsm.state = .punching ∧ ∀ n < w.reads, e.clock n ≤ w.punchDeadline := by
  have hstate : w.fsm.state ≠ .haveEndpoints := by
    rw [← hw]
    exact invariant_foldl (I := fun w : World => w.fsm.state ≠ .haveEndpoints)
      (fun w i h => state_ne_step (Or.inr rfl) h) (by simp [startRun,
        sendCallMeMaybe, World.emit, newPeerFSM]) is
  constructor
  · intro hretry
    have hnot : ¬ Abandoned e w := fun h => h.not_canRetry hretry
    cases hs : w.fsm.state with
    | unknown => exact Or.inl rfl
    | haveEndpoints => exact absurd hs hstate
    | punching =>
        refine Or.inr ⟨rfl, fun n hn => ?_⟩
        by_contra hlate
        exact hnot (Or.inr ⟨hs, n, hn, not_le.1 hlate⟩)
    | direct => exact absurd hs hdirect
    | relay => exact absurd (Or.inl hs) hnot
  · rintro (hs | ⟨hs, hearly⟩)
    · exact canRetry_of_unknown hclock hs hne
    · exact canRetry_of_punching hclock hs hne hearly

/-- A machine that has just started can ping its two endpoints. -/
theorem canRetry_of_start :
    CanRetry sampleEnv (startRun samplePeer [] 4000 Tunnel.sampleKernel) :=
  (canRetry_iff monotone_sampleEnv_clock samplePeer [] 4000 Tunnel.sampleKernel []
    rfl (by decide) (by decide)).2 (Or.inl rfl)

def expiringInputs : List Input :=
  [sampleInput .update, sampleInput .tick, sampleInput .tick, sampleInput .tick,
    sampleInput .tick]

/-- When the punch phase ends without a pong the machine is in the relay state,
and no routine events make it ping again. -/
theorem not_canRetry_of_expiringInputs :
    let w := expiringInputs.foldl (step sampleEnv)
      (startRun samplePeer [] 4000 Tunnel.sampleKernel)
    w.fsm.state = .relay ∧ w.fsm.peer.endpoints ≠ [] ∧
      ¬ CanRetry sampleEnv w :=
  ⟨by decide +kernel, by decide +kernel,
    Abandoned.not_canRetry (Or.inl (by decide +kernel))⟩

end Daemon

end Gretun
