import Gretun.Daemon.PeerFrame
import Gretun.Foundation.Run

/-!
# The punching budget

A punching phase has a start time, a field of the machine, and a deadline, a
local variable of its loop. `onPeerUpdate` sets both when punching begins from
the unknown state; `keepalive` goes back to punching without setting either. To
say when a phase began, `Tracked` carries along the clock reading of the step
that last entered punching. Unless a phase ends that a lost keepalive has begun, every
phase gets its whole budget and the reported duration counts from its beginning.
-/

namespace Gretun

namespace Daemon

open Gretun.Net
open Gretun.Disco
open Gretun.Tunnel
open Foundation.Run

/-- The machine, the time at which it last entered punching, and whether that was because
of a lost keepalive. -/
structure Tracked where
  world : World
  entered : Time
  again : Bool := false

def EntersPunching (e : Env) (w : World) (i : Input) : Prop :=
  w.fsm.state ≠ .punching ∧ (step e w i).fsm.state = .punching

instance (e : Env) (w : World) (i : Input) : Decidable (EntersPunching e w i) :=
  inferInstanceAs (Decidable (_ ∧ _))

def Tracked.step (e : Env) (t : Tracked) (i : Input) : Tracked where
  world := Daemon.step e t.world i
  entered := if EntersPunching e t.world i then t.world.now e else t.entered
  again := if EntersPunching e t.world i then i.event = .keepalive else t.again

/-- The step ends a punching phase that a lost keepalive has begun. -/
def LeavesAgain (e : Env) (t : Tracked) (i : Input) : Prop :=
  t.again = true ∧ t.world.fsm.state = .punching ∧
    (step e t.world i).fsm.state ≠ .punching

instance (e : Env) (t : Tracked) (i : Input) : Decidable (LeavesAgain e t i) :=
  inferInstanceAs (Decidable (_ ∧ _ ∧ _))

def observed (e : Env) (w : World) (i : Input) : List Duration :=
  ((step e w i).effects.drop w.effects.length).filterMap fun
    | .holePunch d => some d
    | _ => none

/-- The machine does not give up before the budget since `entered` is spent, and
a duration it reports counts from `entered`, also when it had fallen back to the relay
before. -/
structure BudgetKept (e : Env) (t : Tracked) (i : Input) : Prop where
  relay : t.world.fsm.state = .punching →
    (step e t.world i).fsm.state = .relay →
    t.entered + punchAttemptDur ≤ t.world.now e
  direct : t.world.fsm.state = .punching ∨ t.world.fsm.state = .relay →
    (step e t.world i).fsm.state = .direct →
    observed e t.world i =
      if e.deps.metrics && !t.entered.isZero then
        [Time.sub (e.clock (t.world.reads + 1)) t.entered]
      else []

instance (e : Env) (t : Tracked) (i : Input) : Decidable (BudgetKept e t i) :=
  decidable_of_iff
    ((t.world.fsm.state = .punching → (step e t.world i).fsm.state = .relay →
        t.entered + punchAttemptDur ≤ t.world.now e) ∧
      (t.world.fsm.state = .punching ∨ t.world.fsm.state = .relay →
        (step e t.world i).fsm.state = .direct → observed e t.world i =
          if e.deps.metrics && !t.entered.isZero then
            [Time.sub (e.clock (t.world.reads + 1)) t.entered]
          else []))
    ⟨fun h => ⟨h.1, h.2⟩, fun h => ⟨h.relay, h.direct⟩⟩

/-- While punching the two times of the phase belong to its entry, unless a lost keepalive
has begun it. On the relay the start still does. -/
structure PunchInv (t : Tracked) : Prop where
  punching : t.world.fsm.state = .punching → t.again = false →
    t.world.fsm.punchStart = t.entered ∧
      t.entered + punchAttemptDur ≤ t.world.punchDeadline
  relay : t.world.fsm.state = .relay → t.world.fsm.punchStart = t.entered

section Entered

variable {e : Env} {t : Tracked} {i : Input}

theorem step_of_not_enters (h : ¬ EntersPunching e t.world i) :
    t.step e i = { t with world := step e t.world i } := by
  simp [Tracked.step, h]

theorem not_enters_of_samePunch (h : SamePunch t.world (step e t.world i)) :
    ¬ EntersPunching e t.world i := by
  rintro ⟨hne, hpunching⟩
  exact hne (h.state ▸ hpunching)

theorem punchInv_of_samePunch (hinv : PunchInv t)
    (h : SamePunch t.world (step e t.world i)) : PunchInv (t.step e i) := by
  rw [step_of_not_enters (not_enters_of_samePunch h)]
  refine ⟨fun hpunching hagain => ?_, fun hrelay => ?_⟩
  · obtain ⟨hstart, hdeadline⟩ := hinv.punching (h.state ▸ hpunching) hagain
    exact ⟨h.punchStart.trans hstart, hdeadline.trans_eq h.punchDeadline.symm⟩
  · exact h.punchStart.trans (hinv.relay (h.state ▸ hrelay))

theorem punchInv_of_beginsPunch (hclock : Monotone e.clock)
    (h : BeginsPunch e t.world (step e t.world i)) : PunchInv (t.step e i) := by
  have hentered : (t.step e i).entered = e.clock t.world.reads := by
    simp [Tracked.step, EntersPunching, h.unknown, h.state, World.now]
  refine ⟨fun _ _ => ?_, fun hrelay => absurd (h.state.symm.trans hrelay) (by decide)⟩
  rw [hentered]
  refine ⟨h.punchStart, ?_⟩
  change _ ≤ (step e t.world i).punchDeadline
  rw [h.punchDeadline]
  exact add_le_add_left (hclock (Nat.le_succ _)) _

theorem punchStart_of_expired {w : World} (h : PunchExpired e w i) :
    (step e w i).fsm.punchStart = w.fsm.punchStart := by
  obtain ⟨hevent, hpunching, hdeadline⟩ := h
  simp [step, hevent, tickPunch, hpunching, hdeadline, World.setState]

end Entered

theorem punchInv_step {e : Env} (hclock : Monotone e.clock) {t : Tracked}
    {i : Input} (hinv : PunchInv t) (hleaves : ¬ LeavesAgain e t i) :
    PunchInv (t.step e i) := by
  cases hpong : i.event.pongFrom with
  | some src =>
      have hdirect : (t.step e i).world.fsm.state = .direct := by
        change (step e t.world i).fsm.state = .direct
        rw [step_of_pongFrom e t.world i hpong, onPong_state]
      constructor <;> rw [hdirect] <;> nofun
  | none =>
      rcases step_state_cases e t.world i hpong with
        hsame | hbegins | ⟨hexpired, hs⟩ | ⟨hlost, hs⟩
      · exact punchInv_of_samePunch hinv hsame
      · exact punchInv_of_beginsPunch hclock hbegins
      · have hagain : t.again = false := by
          rw [← Bool.not_eq_true]
          exact fun hagain => hleaves ⟨hagain, hexpired.2.1, by rw [hs]; decide⟩
        rw [step_of_not_enters fun henters => henters.1 hexpired.2.1]
        refine ⟨fun hpunching => absurd (hs.symm.trans hpunching) (by decide), fun _ => ?_⟩
        exact (punchStart_of_expired hexpired).trans (hinv.punching hexpired.2.1 hagain).1
      · have henters : EntersPunching e t.world i :=
          ⟨by rw [hlost.2.1]; decide, hs⟩
        have hagain : (t.step e i).again = true := by
          simp [Tracked.step, henters, hlost.1]
        refine ⟨fun _ h => absurd (hagain.symm.trans h) (by decide),
          fun hrelay => absurd (hs.symm.trans hrelay) (by decide)⟩

theorem budgetKept_of_punchInv {e : Env} {t : Tracked} {i : Input}
    (hinv : PunchInv t) (hleaves : ¬ LeavesAgain e t i) : BudgetKept e t i := by
  have hagain : t.world.fsm.state = .punching →
      (step e t.world i).fsm.state ≠ .punching → t.again = false := by
    intro hpunching hne
    rw [← Bool.not_eq_true]
    exact fun hagain => hleaves ⟨hagain, hpunching, hne⟩
  constructor
  · intro hpunching hrelay
    cases hpong : i.event.pongFrom with
    | some src =>
        rw [step_of_pongFrom e t.world i hpong, onPong_state] at hrelay
        cases hrelay
    | none =>
        rcases step_state_cases e t.world i hpong with
          hsame | hbegins | ⟨hexpired, hs⟩ | ⟨-, hs⟩
        · exact absurd (hrelay.symm.trans (hsame.state.trans hpunching))
            (by decide)
        · exact absurd (hrelay.symm.trans hbegins.state) (by decide)
        · have hdeadline := (hinv.punching hpunching
            (hagain hpunching (by rw [hs]; decide))).2
          exact (hdeadline.trans_lt hexpired.2.2).le
        · exact absurd (hrelay.symm.trans hs) (by decide)
  · intro hphase hdirect
    have hne : t.world.fsm.state ≠ .direct := by
      rcases hphase with h | h <;> simp [h]
    have hstart : t.world.fsm.punchStart = t.entered := by
      rcases hphase with h | h
      · exact (hinv.punching h (hagain h (by rw [hdirect]; decide))).1
      · exact hinv.relay h
    cases hpong : i.event.pongFrom with
    | none => exact absurd (direct_of_step_direct hpong hdirect) hne
    | some src =>
        rw [observed, step_of_pongFrom e t.world i hpong,
          onPong_of_ne_direct e i src hne, onPongNew_effects, record_fsm,
          record_reads, hstart]
        cases hmetrics : e.deps.metrics <;> cases hzero : t.entered.isZero <;>
          simp [World.record, World.emit, hmetrics]

def punchInputs (late : Event) : List Input :=
  [sampleInput .update, sampleInput .tick,
    sampleInput (.udp ⟨.v4 0xc0000201, 4000⟩ { type := .pong, tx := "0" }),
    sampleInput late, sampleInput .tick]

end Daemon

end Gretun
