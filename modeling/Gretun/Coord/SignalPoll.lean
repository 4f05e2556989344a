import Gretun.Coord.Signals
import Gretun.Foundation.Run
import Mathlib.Logic.Function.Basic

/-!
# Long polls for signals

Any number of goroutines call `EnqueueSignal`, `PopSignals` and `WaitForSignal`,
on their own or as parts of `handleSignalPull`. The parts under `signalMu` are
single steps. `EnqueueSignal` takes the wake channel out of the map under the
lock and closes it in a later step, so in between the channel is open although
the queue is not empty; the invariant says that this is the only case in which a
waiter sleeps while an envelope waits.
-/

namespace Gretun

namespace Coord

open Foundation.Assoc
open Foundation.Channel
open Foundation.Run

namespace Signals

/-- The part of `WaitForSignal` under the lock: the channel to wait for, when the
queue is empty. -/
def waitLocked (dst : Key) (s : Signals) : Option ℕ × Signals :=
  if 0 < (s.queue dst).len then (none, s)
  else match s.signalWakes.lookup dst with
    | some ch => (some ch, s)
    | none =>
        (some s.chans.fresh,
          { s with
            signalWakes := s.signalWakes.insert dst s.chans.fresh
            chans := s.chans.make })

theorem contents_eq_nil_iff (s : Signals) (dst : Key) :
    s.contents dst = [] ↔ ¬ 0 < (s.queue dst).len := by
  rw [← List.length_eq_zero_iff, contents, Foundation.GoSlice.Slice.length_toList,
    Nat.pos_iff_ne_zero, not_not]

end Signals

/-- Where a goroutine is. `pull` says whether it waits on behalf of
`handleSignalPull`, which pops again afterwards. -/
inductive Thread where
  | idle
  | closing (wake : Option ℕ)
  | pulled (dst : Key)
  | blocked (dst : Key) (ch : ℕ) (pull : Bool)
  | woken (dst : Key)
  deriving DecidableEq

def Thread.held : Thread → Option ℕ
  | .closing wake => wake
  | _ => none

structure SignalSystem where
  store : Signals
  threads : ℕ → Thread

namespace SignalSystem

def start : SignalSystem where
  store := Signals.empty
  threads _ := .idle

def afterWait (dst : Key) (pull : Bool) : Thread :=
  if pull then .woken dst else .idle

def afterWaitLocked (dst : Key) (pull : Bool) : Option ℕ → Thread
  | none => afterWait dst pull
  | some ch => .blocked dst ch pull

inductive Step (limits : Limits) : SignalSystem → SignalSystem → Prop
  | enqueue (s : SignalSystem) (t extra : ℕ) (dst : Key) (env : Envelope)
      (ht : s.threads t = .idle) :
      Step limits s
        { store := (s.store.enqueueLocked limits extra dst env).2
          threads := Function.update s.threads t
            (.closing (s.store.enqueueLocked limits extra dst env).1) }
  | close (s : SignalSystem) (t : ℕ) (wake : Option ℕ)
      (ht : s.threads t = .closing wake) :
      Step limits s
        { store := s.store.closeWake wake
          threads := Function.update s.threads t .idle }
  | pop (s : SignalSystem) (t : ℕ) (dst : Key) (now : Time)
      (ht : s.threads t = .idle) :
      Step limits s { s with store := s.store.popped limits now dst }
  | firstPop (s : SignalSystem) (t : ℕ) (dst : Key) (now : Time)
      (ht : s.threads t = .idle)
      (hempty : (s.store.handedOut limits now dst).len = 0) :
      Step limits s
        { store := s.store.popped limits now dst
          threads := Function.update s.threads t (.pulled dst) }
  | firstPopFails (s : SignalSystem) (t : ℕ) (dst : Key)
      (ht : s.threads t = .idle) :
      Step limits s
        { s with threads := Function.update s.threads t (.pulled dst) }
  | wait (s : SignalSystem) (t : ℕ) (dst : Key) (pull : Bool)
      (ht : s.threads t = if pull then .pulled dst else .idle) :
      Step limits s
        { store := (s.store.waitLocked dst).2
          threads := Function.update s.threads t
            (afterWaitLocked dst pull (s.store.waitLocked dst).1) }
  | wake (s : SignalSystem) (t : ℕ) (dst : Key) (ch : ℕ) (pull : Bool)
      (ht : s.threads t = .blocked dst ch pull)
      (hclosed : ¬ s.store.chans.IsOpen ch) :
      Step limits s
        { s with threads := Function.update s.threads t (afterWait dst pull) }
  | giveUp (s : SignalSystem) (t : ℕ) (dst : Key) (ch : ℕ) (pull : Bool)
      (ht : s.threads t = .blocked dst ch pull) :
      Step limits s { s with threads := Function.update s.threads t .idle }
  | secondPop (s : SignalSystem) (t : ℕ) (dst : Key) (now : Time)
      (ht : s.threads t = .woken dst) :
      Step limits s
        { store := s.store.popped limits now dst
          threads := Function.update s.threads t .idle }
  | secondPopFails (s : SignalSystem) (t : ℕ) (dst : Key)
      (ht : s.threads t = .woken dst) :
      Step limits s { s with threads := Function.update s.threads t .idle }

def Reachable (limits : Limits) (s : SignalSystem) : Prop :=
  Relation.ReflTransGen (Step limits) start s

/-! ## The invariant -/

/-- A wake channel is in the map, or one goroutine is about to close it, or it is
closed; and it is in the map only while the queue is empty. -/
structure Inv (s : SignalSystem) : Prop where
  store : s.store.Wf
  chans : s.store.chans.Wf
  /-- The channels in the map are open, and their queues are empty. -/
  mapped : ∀ dst ch, s.store.signalWakes.lookup dst = some ch →
    ch < s.store.chans.next ∧ s.store.chans.IsOpen ch ∧ s.store.contents dst = []
  mapped_inj : ∀ dst dst' ch, s.store.signalWakes.lookup dst = some ch →
    s.store.signalWakes.lookup dst' = some ch → dst = dst'
  /-- A channel that a goroutine is about to close is open and out of the map. -/
  closing : ∀ t ch, s.threads t = .closing (some ch) →
    ch < s.store.chans.next ∧ s.store.chans.IsOpen ch ∧
      ∀ dst, s.store.signalWakes.lookup dst ≠ some ch
  closing_inj : ∀ t t' ch, s.threads t = .closing (some ch) →
    s.threads t' = .closing (some ch) → t = t'
  /-- An open channel that somebody waits for is in one of the two places. -/
  blocked : ∀ t dst ch pull, s.threads t = .blocked dst ch pull →
    ch < s.store.chans.next ∧ (s.store.chans.IsOpen ch →
      s.store.signalWakes.lookup dst = some ch ∨
        ∃ t', s.threads t' = .closing (some ch))

theorem inv_start : Inv start where
  store := Signals.wf_empty
  chans := Chans.wf_empty
  mapped := by
    intro dst ch h
    simp [start, Signals.empty] at h
  mapped_inj := by
    intro dst dst' ch h
    simp [start, Signals.empty] at h
  closing := by
    intro t ch h
    cases h
  closing_inj := by
    intro t t' ch h
    cases h
  blocked := by
    intro t dst ch pull h
    cases h

/-- A step of a goroutine that does not hold `ch` leaves the holder of `ch`. -/
theorem closing_update {threads : ℕ → Thread} {t t' ch : ℕ} {x : Thread}
    (hold : (threads t).held ≠ some ch) (ht' : threads t' = .closing (some ch)) :
    Function.update threads t x t' = .closing (some ch) := by
  have hne : t' ≠ t := by
    rintro rfl
    rw [ht'] at hold
    exact hold rfl
  rw [Function.update_of_ne hne, ht']

/-- A goroutine that has no channel to close may move on: to wait for a channel in
the map, or to a place that involves no channel. -/
theorem Inv.moveThread {s : SignalSystem} (h : Inv s) {t : ℕ} {x : Thread}
    (hold : (s.threads t).held = none) (hx : x.held = none)
    (hblocked : ∀ dst ch pull, x = .blocked dst ch pull →
      s.store.signalWakes.lookup dst = some ch) :
    Inv { s with threads := Function.update s.threads t x } := by
  have hclosing : ∀ ch, x ≠ .closing (some ch) := by
    rintro ch rfl
    cases hx
  refine ⟨h.store, h.chans, h.mapped, h.mapped_inj, ?_, ?_, ?_⟩
  · intro u ch hu
    rcases update_cases hu with ⟨-, hx⟩ | ⟨-, hu⟩
    · exact absurd hx (hclosing ch)
    · exact h.closing u ch hu
  · intro u u' ch hu hu'
    rcases update_cases hu with ⟨-, hx⟩ | ⟨-, hu⟩
    · exact absurd hx (hclosing ch)
    · rcases update_cases hu' with ⟨-, hx⟩ | ⟨-, hu'⟩
      · exact absurd hx (hclosing ch)
      · exact h.closing_inj u u' ch hu hu'
  · intro u dst ch pull hu
    rcases update_cases hu with ⟨-, hx⟩ | ⟨-, hu⟩
    · have hmapped := hblocked dst ch pull hx
      exact ⟨(h.mapped dst ch hmapped).1, fun _ => Or.inl hmapped⟩
    · obtain ⟨hlt, hplace⟩ := h.blocked u dst ch pull hu
      refine ⟨hlt, fun hopen => ?_⟩
      rcases hplace hopen with hmapped | ⟨t', ht'⟩
      · exact Or.inl hmapped
      · refine Or.inr ⟨t', closing_update ?_ ht'⟩
        rw [hold]
        exact (Option.some_ne_none ch).symm

theorem Inv.popped {s : SignalSystem} (h : Inv s) (limits : Limits) (now : Time)
    (dst : Key) : Inv { s with store := s.store.popped limits now dst } := by
  refine ⟨h.store.popped limits now dst, h.chans, ?_, h.mapped_inj, h.closing,
    h.closing_inj, h.blocked⟩
  intro dst' ch hlookup
  obtain ⟨hlt, hopen, hempty⟩ := h.mapped dst' ch hlookup
  refine ⟨hlt, hopen, ?_⟩
  by_cases hd : dst' = dst
  · rw [hd]
    exact Signals.contents_popped_self limits now dst s.store
  · change (s.store.popped limits now dst).contents dst' = []
    rw [Signals.contents_popped_of_ne h.store limits now hd, hempty]

/-- `EnqueueSignal` under the lock: the channel moves from the map to the
goroutine. -/
theorem Inv.enqueue {s : SignalSystem} (h : Inv s) (limits : Limits) {t : ℕ}
    (extra : ℕ) (dst : Key) (env : Envelope) (ht : s.threads t = .idle) :
    Inv
      { store := (s.store.enqueueLocked limits extra dst env).2
        threads := Function.update s.threads t
          (.closing (s.store.enqueueLocked limits extra dst env).1) } := by
  refine ⟨h.store.enqueueLocked limits extra dst env, h.chans, ?_, ?_, ?_, ?_, ?_⟩
  · intro dst' ch hlookup
    obtain ⟨hd, hlookup⟩ := lookup_of_lookup_erase hlookup
    obtain ⟨hlt, hopen, hempty⟩ := h.mapped dst' ch hlookup
    refine ⟨hlt, hopen, ?_⟩
    change (s.store.enqueueLocked limits extra dst env).2.contents dst' = []
    rw [Signals.contents_enqueueLocked_of_ne h.store limits extra env hd, hempty]
  · intro d d' ch hd hd'
    exact h.mapped_inj d d' ch (lookup_of_lookup_erase hd).2
      (lookup_of_lookup_erase hd').2
  · intro u ch hu
    rcases update_cases hu with ⟨-, hx⟩ | ⟨-, hu⟩
    · have hmapped : s.store.signalWakes.lookup dst = some ch :=
        Thread.closing.inj hx
      obtain ⟨hlt, hopen, -⟩ := h.mapped dst ch hmapped
      refine ⟨hlt, hopen, fun dst' hlookup => ?_⟩
      obtain ⟨hd, hlookup⟩ := lookup_of_lookup_erase hlookup
      exact hd (h.mapped_inj dst' dst ch hlookup hmapped)
    · obtain ⟨hlt, hopen, hnot⟩ := h.closing u ch hu
      exact ⟨hlt, hopen, fun dst' hlookup => hnot dst' (lookup_of_lookup_erase hlookup).2⟩
  · intro u u' ch hu hu'
    rcases update_cases hu with ⟨hut, hx⟩ | ⟨-, hu⟩
    · rcases update_cases hu' with ⟨hut', -⟩ | ⟨-, hu'⟩
      · rw [hut, hut']
      · exact absurd (Thread.closing.inj hx) ((h.closing u' ch hu').2.2 dst)
    · rcases update_cases hu' with ⟨-, hx⟩ | ⟨-, hu'⟩
      · exact absurd (Thread.closing.inj hx) ((h.closing u ch hu).2.2 dst)
      · exact h.closing_inj u u' ch hu hu'
  · intro u dst' ch pull hu
    rcases update_cases hu with ⟨-, hx⟩ | ⟨-, hu⟩
    · cases hx
    · obtain ⟨hlt, hplace⟩ := h.blocked u dst' ch pull hu
      refine ⟨hlt, fun hopen => ?_⟩
      rcases hplace hopen with hmapped | ⟨t', ht'⟩
      · by_cases hd : dst' = dst
        · subst hd
          refine Or.inr ⟨t, ?_⟩
          change Function.update s.threads t (.closing _) t = _
          rw [Function.update_self]
          exact congrArg Thread.closing hmapped
        · left
          change (s.store.signalWakes.erase dst).lookup dst' = some ch
          rw [AList.lookup_erase_ne hd, hmapped]
      · refine Or.inr ⟨t', closing_update ?_ ht'⟩
        rw [ht]
        exact (Option.some_ne_none ch).symm

/-- The close outside the lock: the goroutine is the only one to hold the
channel, and the channel is open. -/
theorem Inv.close {s : SignalSystem} (h : Inv s) {t ch : ℕ}
    (ht : s.threads t = .closing (some ch)) :
    Inv
      { store := s.store.closeWake (some ch)
        threads := Function.update s.threads t .idle } := by
  obtain ⟨hlt, hopen, hnot⟩ := h.closing t ch ht
  refine ⟨⟨h.store.arr_lt, h.store.arr_inj⟩, h.chans.close hlt hopen, ?_,
    h.mapped_inj, ?_, ?_, ?_⟩
  · intro dst ch' hlookup
    obtain ⟨hlt', hopen', hempty⟩ := h.mapped dst ch' hlookup
    refine ⟨hlt', (Chans.isOpen_close _ _ _).2 ⟨?_, hopen'⟩, hempty⟩
    rintro rfl
    exact hnot dst hlookup
  · intro u ch' hu
    rcases update_cases hu with ⟨-, hx⟩ | ⟨hut, hclosing⟩
    · cases hx
    · obtain ⟨hlt', hopen', hnot'⟩ := h.closing u ch' hclosing
      refine ⟨hlt', (Chans.isOpen_close _ _ _).2 ⟨?_, hopen'⟩, hnot'⟩
      rintro rfl
      exact hut (h.closing_inj u t ch' hclosing ht)
  · intro u u' ch' hu hu'
    rcases update_cases hu with ⟨-, hx⟩ | ⟨-, hu⟩
    · cases hx
    · rcases update_cases hu' with ⟨-, hx⟩ | ⟨-, hu'⟩
      · cases hx
      · exact h.closing_inj u u' ch' hu hu'
  · intro u dst ch' pull hu
    rcases update_cases hu with ⟨-, hx⟩ | ⟨-, hu⟩
    · cases hx
    · obtain ⟨hlt', hplace⟩ := h.blocked u dst ch' pull hu
      refine ⟨hlt', fun hopen' => ?_⟩
      obtain ⟨hne, hopen'⟩ := (Chans.isOpen_close _ _ _).1 hopen'
      rcases hplace hopen' with hmapped | ⟨t', ht'⟩
      · exact Or.inl hmapped
      · refine Or.inr ⟨t', closing_update ?_ ht'⟩
        rw [ht]
        exact fun heq => hne (Option.some.inj heq).symm

theorem Inv.makeWake {s : SignalSystem} (h : Inv s) {dst : Key}
    (hempty : s.store.contents dst = [])
    (hnone : s.store.signalWakes.lookup dst = none) :
    Inv
      { s with
        store := { s.store with
          signalWakes := s.store.signalWakes.insert dst s.store.chans.fresh
          chans := s.store.chans.make } } := by
  refine ⟨⟨h.store.arr_lt, h.store.arr_inj⟩, h.chans.make, ?_, ?_, ?_,
    h.closing_inj, ?_⟩
  · intro dst' ch hlookup
    rcases lookup_insert_cases hlookup with ⟨rfl, rfl⟩ | ⟨-, hlookup⟩
    · exact ⟨Nat.lt_succ_self _, h.chans.isOpen_fresh, hempty⟩
    · obtain ⟨hlt, hopen, hempty'⟩ := h.mapped dst' ch hlookup
      exact ⟨Nat.lt_succ_of_lt hlt, hopen, hempty'⟩
  · intro d d' ch hd hd'
    rcases lookup_insert_cases hd with ⟨rfl, rfl⟩ | ⟨-, hd⟩
    · rcases lookup_insert_cases hd' with ⟨rfl, -⟩ | ⟨-, hd'⟩
      · rfl
      · exact absurd (h.mapped _ _ hd').1 (Nat.lt_irrefl _)
    · rcases lookup_insert_cases hd' with ⟨-, rfl⟩ | ⟨-, hd'⟩
      · exact absurd (h.mapped _ _ hd).1 (Nat.lt_irrefl _)
      · exact h.mapped_inj d d' ch hd hd'
  · intro u ch hu
    obtain ⟨hlt, hopen, hnot⟩ := h.closing u ch hu
    refine ⟨Nat.lt_succ_of_lt hlt, hopen, fun dst' hlookup => ?_⟩
    rcases lookup_insert_cases hlookup with ⟨-, rfl⟩ | ⟨-, hlookup⟩
    · exact Nat.lt_irrefl _ hlt
    · exact hnot dst' hlookup
  · intro u dst' ch pull hu
    obtain ⟨hlt, hplace⟩ := h.blocked u dst' ch pull hu
    refine ⟨Nat.lt_succ_of_lt hlt, fun hopen => ?_⟩
    rcases hplace hopen with hm | hclosing
    · left
      have hd : dst' ≠ dst := by
        rintro rfl
        rw [hnone] at hm
        cases hm
      change (s.store.signalWakes.insert dst _).lookup dst' = some ch
      rw [AList.lookup_insert_ne hd, hm]
    · exact Or.inr hclosing

theorem waitLocked_cases (s : Signals) (dst : Key) :
    (s.waitLocked dst = (none, s) ∧ s.contents dst ≠ []) ∨
      s.contents dst = [] ∧
        ((∃ ch, s.signalWakes.lookup dst = some ch ∧
            s.waitLocked dst = (some ch, s)) ∨
          s.signalWakes.lookup dst = none ∧
            s.waitLocked dst = (some s.chans.fresh,
              { s with
                signalWakes := s.signalWakes.insert dst s.chans.fresh
                chans := s.chans.make })) := by
  unfold Signals.waitLocked
  by_cases hlen : 0 < (s.queue dst).len
  · refine Or.inl ⟨if_pos hlen, fun hnil => ?_⟩
    exact (s.contents_eq_nil_iff dst).1 hnil hlen
  · refine Or.inr ⟨(s.contents_eq_nil_iff dst).2 hlen, ?_⟩
    rw [if_neg hlen]
    cases s.signalWakes.lookup dst with
    | some ch => exact Or.inl ⟨ch, rfl, rfl⟩
    | none => exact Or.inr ⟨rfl, rfl⟩

theorem held_afterWait (dst : Key) (pull : Bool) : (afterWait dst pull).held = none := by
  cases pull <;> rfl

theorem afterWait_ne_blocked {dst dst' : Key} {pull pull' : Bool} {ch : ℕ} :
    afterWait dst pull ≠ .blocked dst' ch pull' := by
  cases pull <;> exact fun h => by cases h

theorem Inv.wait {s : SignalSystem} (h : Inv s) {t : ℕ} (dst : Key) (pull : Bool)
    (hold : (s.threads t).held = none) :
    Inv
      { store := (s.store.waitLocked dst).2
        threads := Function.update s.threads t
          (afterWaitLocked dst pull (s.store.waitLocked dst).1) } := by
  rcases waitLocked_cases s.store dst with
    ⟨hwait, -⟩ | ⟨hempty, ⟨ch, hmapped, hwait⟩ | ⟨hnone, hwait⟩⟩
  · rw [hwait]
    exact h.moveThread hold (held_afterWait dst pull)
      fun _ _ _ hx => absurd hx afterWait_ne_blocked
  · rw [hwait]
    refine h.moveThread hold rfl ?_
    rintro _ _ _ ⟨⟩
    exact hmapped
  · rw [hwait]
    refine (h.makeWake hempty hnone).moveThread hold rfl ?_
    rintro _ _ _ ⟨⟩
    exact AList.lookup_insert _

theorem inv_step {limits : Limits} {s s' : SignalSystem} (h : Inv s)
    (hstep : Step limits s s') : Inv s' := by
  cases hstep with
  | enqueue t extra dst env ht => exact h.enqueue limits extra dst env ht
  | close t wake ht =>
      cases wake with
      | none => exact h.moveThread (by rw [ht]; rfl) rfl (by rintro _ _ _ ⟨⟩)
      | some ch => exact h.close ht
  | pop t dst now ht => exact h.popped limits now dst
  | firstPop t dst now ht hempty =>
      refine (h.popped limits now dst).moveThread ?_ rfl (by rintro _ _ _ ⟨⟩)
      rw [ht]
      rfl
  | firstPopFails t dst ht =>
      exact h.moveThread (by rw [ht]; rfl) rfl (by rintro _ _ _ ⟨⟩)
  | wait t dst pull ht =>
      refine h.wait dst pull ?_
      rw [ht]
      cases pull <;> rfl
  | wake t dst ch pull ht hclosed =>
      exact h.moveThread (by rw [ht]; rfl) (held_afterWait dst pull)
        fun _ _ _ hx => absurd hx afterWait_ne_blocked
  | giveUp t dst ch pull ht =>
      exact h.moveThread (by rw [ht]; rfl) rfl (by rintro _ _ _ ⟨⟩)
  | secondPop t dst now ht =>
      refine (h.popped limits now dst).moveThread ?_ rfl (by rintro _ _ _ ⟨⟩)
      rw [ht]
      rfl
  | secondPopFails t dst ht =>
      exact h.moveThread (by rw [ht]; rfl) rfl (by rintro _ _ _ ⟨⟩)

theorem inv_of_reachable {limits : Limits} {s : SignalSystem}
    (h : Reachable limits s) : Inv s :=
  invariant_of_reachable (I := Inv) (fun _ _ hs hstep => inv_step hs hstep)
    inv_start h

/-! ## No wake-up is lost -/

/-- A pull that found nothing and has yet to call `WaitForSignal` does not go to
sleep while an envelope waits for it. -/
theorem step_of_pulled {limits : Limits} {s s' : SignalSystem} {t : ℕ} {dst : Key}
    (ht : s.threads t = .pulled dst) (hqueued : s.store.contents dst ≠ [])
    (hstep : Step limits s s') :
    s'.threads t = .pulled dst ∨ s'.threads t = .woken dst := by
  -- a step of another goroutine, or one that starts elsewhere, leaves `t` alone
  have hother : ∀ {u x y}, s.threads u = y → y ≠ .pulled dst →
      Function.update s.threads u x t = .pulled dst := by
    intro u x y hu hy
    have hne : t ≠ u := by
      rintro rfl
      exact hy (hu.symm.trans ht)
    rw [Function.update_of_ne hne, ht]
  cases hstep with
  | enqueue u extra d env hu => exact Or.inl (hother hu (by rintro ⟨⟩))
  | close u wake hu => exact Or.inl (hother hu (by rintro ⟨⟩))
  | pop u d now hu => exact Or.inl ht
  | firstPop u d now hu hempty => exact Or.inl (hother hu (by rintro ⟨⟩))
  | firstPopFails u d hu => exact Or.inl (hother hu (by rintro ⟨⟩))
  | wait u d pull hu =>
      by_cases hut : t = u
      · subst hut
        rw [ht] at hu
        cases pull with
        | false => cases hu
        | true =>
            obtain rfl : dst = d := Thread.pulled.inj hu
            right
            rcases waitLocked_cases s.store dst with ⟨hwait, -⟩ | ⟨hempty, -⟩
            · change Function.update s.threads t _ t = _
              rw [Function.update_self, hwait]
              rfl
            · exact absurd hempty hqueued
      · left
        change Function.update s.threads u _ t = _
        rw [Function.update_of_ne hut, ht]
  | wake u d ch pull hu hclosed => exact Or.inl (hother hu (by rintro ⟨⟩))
  | giveUp u d ch pull hu => exact Or.inl (hother hu (by rintro ⟨⟩))
  | secondPop u d now hu => exact Or.inl (hother hu (by rintro ⟨⟩))
  | secondPopFails u d hu => exact Or.inl (hother hu (by rintro ⟨⟩))

structure NoLostWakeup (limits : Limits) (s : SignalSystem) : Prop where
  /-- Who sleeps on an open channel has an empty queue, or an `EnqueueSignal` is
  about to close the channel. -/
  asleep : ∀ t dst ch pull, s.threads t = .blocked dst ch pull →
    s.store.chans.IsOpen ch →
      s.store.contents dst = [] ∨ ∃ t', s.threads t' = .closing (some ch)
  mapped_empty : ∀ dst, s.store.signalWakes.lookup dst ≠ none →
    s.store.contents dst = []
  once : s.store.chans.NoDoubleClose
  /-- With an envelope in the queue, `WaitForSignal` returns at once. -/
  pulled : ∀ t dst s', s.threads t = .pulled dst → s.store.contents dst ≠ [] →
    Step limits s s' → s'.threads t = .pulled dst ∨ s'.threads t = .woken dst
  /-- With an envelope in the queue, a goroutine that sleeps can wake up, now or
  after the next step of the `EnqueueSignal` that holds its channel. -/
  roused : ∀ t dst ch pull, s.threads t = .blocked dst ch pull →
    s.store.contents dst ≠ [] →
      ¬ s.store.chans.IsOpen ch ∨
        ∃ s', Step limits s s' ∧ s'.threads t = .blocked dst ch pull ∧
          ¬ s'.store.chans.IsOpen ch

theorem noLostWakeup_of_reachable {limits : Limits} {s : SignalSystem}
    (hs : Reachable limits s) : NoLostWakeup limits s := by
  have h := inv_of_reachable hs
  have hasleep : ∀ t dst ch pull, s.threads t = .blocked dst ch pull →
      s.store.chans.IsOpen ch →
        s.store.contents dst = [] ∨ ∃ t', s.threads t' = .closing (some ch) := by
    intro t dst ch pull ht hopen
    rcases (h.blocked t dst ch pull ht).2 hopen with hmapped | hclosing
    · exact Or.inl (h.mapped dst ch hmapped).2.2
    · exact Or.inr hclosing
  refine ⟨hasleep, ?_, h.chans.once, ?_, ?_⟩
  · intro dst hne
    obtain ⟨ch, hch⟩ := Option.ne_none_iff_exists'.1 hne
    exact (h.mapped dst ch hch).2.2
  · intro t dst s' ht hqueued hstep
    exact step_of_pulled ht hqueued hstep
  · intro t dst ch pull ht hqueued
    by_cases hopen : s.store.chans.IsOpen ch
    · right
      rcases hasleep t dst ch pull ht hopen with hempty | ⟨t', ht'⟩
      · exact absurd hempty hqueued
      · refine ⟨_, Step.close s t' (some ch) ht', ?_, ?_⟩
        · have hne : t ≠ t' := by
            rintro rfl
            rw [ht] at ht'
            cases ht'
          change Function.update s.threads t' .idle t = _
          rw [Function.update_of_ne hne, ht]
        · exact fun ho => ((Chans.isOpen_close _ _ _).1 ho).1 rfl
    · exact Or.inl hopen

def samplePuller : Key := Vector.replicate 32 1

def sampleEnvelope : Envelope := ⟨samplePuller, [], 0⟩

/-- A pull that found nothing went to sleep, and an envelope has come in since;
the goroutine that brought it has not closed the channel yet. -/
def sampleAsleep : SignalSystem where
  store :=
    let store := Signals.empty.popped defaultLimits 0 samplePuller
    ((store.waitLocked samplePuller).2.enqueueLocked defaultLimits 0 samplePuller
      sampleEnvelope).2
  threads := Function.update (Function.update (Function.update
    (fun _ => .idle) 0 (.pulled samplePuller)) 0 (.blocked samplePuller 0 true)) 1
      (.closing (some 0))

theorem reachable_sampleAsleep : Reachable defaultLimits sampleAsleep :=
  ((Relation.ReflTransGen.refl.tail
    (.firstPop start 0 samplePuller 0 rfl rfl)).tail
      (.wait _ 0 samplePuller true rfl)).tail
        (.enqueue _ 1 0 samplePuller sampleEnvelope rfl)

theorem noLostWakeup_of_sampleAsleep :
    (sampleAsleep.threads 0 = .blocked samplePuller 0 true ∧
      sampleAsleep.store.chans.IsOpen 0 ∧
      sampleAsleep.store.contents samplePuller = [sampleEnvelope]) ∧
      NoLostWakeup defaultLimits sampleAsleep :=
  ⟨⟨rfl, by decide, by decide⟩, noLostWakeup_of_reachable reachable_sampleAsleep⟩

end SignalSystem

end Coord

end Gretun
