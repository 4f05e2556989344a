import Gretun.Daemon.DataPlane
import Gretun.Daemon.Messages
import Gretun.Foundation.Log

/-!
# Pongs and the pings they answer

A pong that reaches a machine answers a ping the machine sent, because the other
side only sends pongs in reply. But the machine keeps no record of the pings it
has outstanding and acts on every pong, so a transaction ID is accepted as often
as the network delivers a pong that carries it. It is accepted at most once when
no envelope is delivered twice and no transaction ID is drawn twice.
-/

namespace Gretun

namespace Daemon

open Gretun.Net
open Gretun.Disco
open Foundation.Run
open Foundation.Log

/-- A step from `w` to `w'` enters the direct state, sets another endpoint or
refreshes the time of the last pong. -/
def ActsOn (e : Env) (w w' : World) : Prop :=
  w.fsm.state ≠ .direct ∧ w'.fsm.state = .direct ∨
    w'.fsm.winning ≠ w.fsm.winning ∨
    w.reads < w'.reads ∧ w'.fsm.lastPong = e.clock w.reads

instance (e : Env) (w w' : World) : Decidable (ActsOn e w w') :=
  inferInstanceAs (Decidable (_ ∨ _ ∨ _))

def PairInput.position (s : Side) (i : PairInput) : Option ℕ :=
  match i.cause with
  | .deliver n _ => if i.side = s then some n else none
  | _ => none

namespace Pair

def arrival (p : Pair) (t : MessageType) (s : Side) (σ : Side → World)
    (i : PairInput) : Option String :=
  (i.position s).bind fun n => (p.envelope σ s n).bind (txOf t)

def actedOn (p : Pair) (s : Side) (σ : Side → World) (i : PairInput) :
    Option String :=
  if ActsOn (p.env s) (σ s) (p.step σ i s) then p.arrival .pong s σ i else none

def accepted (p : Pair) (s : Side) (σ : Side → World) (is : List PairInput) :
    List String :=
  outputs p.step (p.actedOn s) σ is

def arrivals (p : Pair) (t : MessageType) (s : Side) (σ : Side → World)
    (is : List PairInput) : List String :=
  outputs p.step (p.arrival t s) σ is

end Pair

/-! ## One step -/

theorem body_of_bodyFor {key : Key} {x : Effect} {body : Body}
    (h : x.bodyFor key = some body) : x.body = some body := by
  cases x with
  | udp dst recipient b =>
      simp only [Effect.bodyFor] at h
      split at h
      · exact h
      · cases h
  | signal recipient b =>
      simp only [Effect.bodyFor] at h
      split at h
      · exact h
      · cases h
  | pingSent => cases h
  | pongRecv => cases h
  | holePunch d => cases h

theorem mem_sent_of_arrival {p : Pair} {t : MessageType} {s : Side}
    {σ : Side → World} {i : PairInput} {tx : String}
    (h : p.arrival t s σ i = some tx) : tx ∈ (σ s.other).sent t := by
  obtain ⟨n, -, hn⟩ := Option.bind_eq_some_iff.1 h
  obtain ⟨body, hbody, htx⟩ := Option.bind_eq_some_iff.1 hn
  obtain ⟨x, hx, hfor⟩ := Option.bind_eq_some_iff.1 hbody
  refine List.mem_filterMap.2 ⟨x, List.mem_of_getElem? hx, ?_⟩
  rw [body_of_bodyFor hfor]
  exact htx

/-- The message that a step hands to the machine of side `s` is the one that
arrives there. -/
theorem event_body_eq_arrival {p : Pair} {t : MessageType} {σ : Side → World}
    {i : PairInput} {ev : Event} (h : p.event σ i.side i.cause = some ev) :
    ev.body.bind (txOf t) = p.arrival t i.side σ i := by
  rcases Pair.event_cases h with ⟨n, via, body, hcause, hbody, rfl⟩ | ⟨hcause, hlocal⟩
  · rw [Pair.arrival, PairInput.position, hcause]
    simp only [if_true, Option.bind_some, hbody]
    cases via <;> rfl
  · have hnone : i.position i.side = none := by
      rw [PairInput.position]
      split
      · exact absurd (by assumption) (hcause _ _)
      · rfl
    rw [Pair.arrival, hnone]
    rcases hlocal with ⟨peer, rfl⟩ | rfl | rfl | rfl <;> rfl

theorem arrival_of_ne {p : Pair} {t : MessageType} {s : Side} {σ : Side → World}
    {i : PairInput} (h : s ≠ i.side) : p.arrival t s σ i = none := by
  rw [Pair.arrival, PairInput.position]
  split
  · rw [if_neg h.symm]
    rfl
  · rfl

theorem arrival_of_event_eq_none {p : Pair} {t : MessageType} {σ : Side → World}
    {i : PairInput} (h : p.event σ i.side i.cause = none) :
    p.arrival t i.side σ i = none := by
  rw [Pair.arrival, PairInput.position]
  cases hcause : i.cause with
  | deliver n via =>
      rw [hcause] at h
      have hnone : p.envelope σ i.side n = none := Option.map_eq_none_iff.1 h
      simp [hnone]
  | setPeer peer => rfl
  | update => rfl
  | tick => rfl
  | keepalive => rfl

/-- How a step of the system looks from side `s`: the machine handles a message
that arrives there, or something else, or nothing. -/
theorem Pair.step_apply (p : Pair) (σ : Side → World) (i : PairInput) (s : Side) :
    (p.step σ i s = σ s ∧ ∀ t, p.arrival t s σ i = none) ∨
      ∃ ev, p.step σ i s =
          Daemon.step (p.env s) (σ s) ⟨ev, i.ifaceAddrs, i.faults⟩ ∧
        ∀ t, ev.body.bind (txOf t) = p.arrival t s σ i := by
  by_cases hs : s = i.side
  · subst hs
    cases hev : p.event σ i.side i.cause with
    | none =>
        exact Or.inl ⟨by simp [Pair.step, hev],
          fun t => arrival_of_event_eq_none hev⟩
    | some ev =>
        exact Or.inr ⟨ev, by simp [Pair.step, hev],
          fun t => event_body_eq_arrival hev⟩
  · refine Or.inl ⟨?_, fun t => arrival_of_ne hs⟩
    rcases p.step_cases σ i with hsame | ⟨ev, -, heq⟩
    · rw [hsame]
    · rw [heq, Function.update_of_ne hs]

theorem pongFrom_of_txOf {ev : Event} {tx : String}
    (h : ev.body.bind (txOf .pong) = some tx) : ∃ src, ev.pongFrom = some src := by
  obtain ⟨body, hbody, htx⟩ := Option.bind_eq_some_iff.1 h
  have htype : body.type = .pong := by
    simp only [txOf] at htx
    split at htx
    · assumption
    · cases htx
  cases ev with
  | udp src b =>
      obtain rfl := Option.some.inj hbody
      exact ⟨src, by simp [Event.pongFrom, htype]⟩
  | signal b =>
      obtain rfl := Option.some.inj hbody
      exact ⟨AddrPort.zero, by simp [Event.pongFrom, htype]⟩
  | setPeer peer => cases hbody
  | update => cases hbody
  | tick => cases hbody
  | keepalive => cases hbody

/-- Every pong that arrives is acted on. -/
theorem actedOn_eq_arrival (p : Pair) (s : Side) (σ : Side → World)
    (i : PairInput) : p.actedOn s σ i = p.arrival .pong s σ i := by
  cases harrival : p.arrival .pong s σ i with
  | none =>
      rw [Pair.actedOn, harrival]
      split <;> rfl
  | some tx =>
      rw [Pair.actedOn, if_pos, harrival]
      rcases p.step_apply σ i s with ⟨-, hnone⟩ | ⟨ev, hstep, hev⟩
      · rw [hnone] at harrival
        cases harrival
      · obtain ⟨src, hsrc⟩ := pongFrom_of_txOf ((hev .pong).trans harrival)
        rw [hstep, step_of_pongFrom _ _ _ hsrc]
        have hlast := onPong_lastPong (p.env s) ⟨ev, i.ifaceAddrs, i.faults⟩ src
          (σ s)
        exact Or.inr (Or.inr ⟨hlast.2, hlast.1⟩)

theorem Pair.accepted_eq_arrivals (p : Pair) (s : Side) (σ : Side → World)
    (is : List PairInput) : p.accepted s σ is = p.arrivals .pong s σ is := by
  have h : p.actedOn s = p.arrival .pong s := by
    funext σ i
    exact actedOn_eq_arrival p s σ i
  rw [Pair.accepted, Pair.arrivals, h]

/-- A side sends a pong just when a ping arrives there. -/
theorem Pair.sent_pong_step (p : Pair) (s : Side) (σ : Side → World)
    (i : PairInput) :
    (p.step σ i s).sent .pong =
      (σ s).sent .pong ++ (p.arrival .ping s σ i).toList := by
  rcases p.step_apply σ i s with ⟨hsame, hnone⟩ | ⟨ev, hstep, hev⟩
  · rw [hsame, hnone]
    exact (List.append_nil _).symm
  · rw [hstep, Daemon.sent_pong_step, ← hev]

theorem Pair.effects_isPrefix_step (p : Pair) (s : Side) (σ : Side → World)
    (i : PairInput) : (σ s).effects <+: (p.step σ i s).effects := by
  rcases p.step_apply σ i s with ⟨hsame, -⟩ | ⟨ev, hstep, -⟩
  · rw [hsame]
  · rw [hstep]
    exact Daemon.effects_isPrefix_step _ _ _

/-! ## Whole runs -/

theorem Pair.effects_isPrefix_run (p : Pair) (s : Side) (σ : Side → World)
    (is : List PairInput) : (σ s).effects <+: (is.foldl p.step σ s).effects :=
  invariant_foldl (I := fun σ' : Side → World => (σ s).effects <+: (σ' s).effects)
    (fun σ' i h => h.trans (p.effects_isPrefix_step s σ' i)) (List.prefix_refl _)
    is

/-- What arrives at side `s` over a run are the tags of the positions delivered
there, as far as they could be opened. -/
theorem Pair.arrivals_sublist (p : Pair) (t : MessageType) (s : Side)
    (σ : Side → World) (is : List PairInput) :
    (p.arrivals t s σ is).Sublist
      ((is.filterMap (PairInput.position s)).filterMap fun n =>
        ((is.foldl p.step σ s.other).effects[n]?).bind fun x =>
          (x.bodyFor (p.env s).deps.self).bind (txOf t)) := by
  induction is generalizing σ with
  | nil => exact List.Sublist.refl _
  | cons i is ih =>
      have htail := ih (p.step σ i)
      rw [Pair.arrivals, outputs, List.foldl_cons]
      cases hpos : i.position s with
      | none =>
          have hnone : p.arrival t s σ i = none := by
            rw [Pair.arrival, hpos]
            rfl
          rw [hnone, List.filterMap_cons_none hpos]
          exact htail
      | some n =>
          rw [List.filterMap_cons_some hpos]
          cases harrival : p.arrival t s σ i with
          | none => exact htail.trans ((List.sublist_cons_self _ _).filterMap _)
          | some tx =>
              -- the position was filled then, and is still filled the same way
              rw [Pair.arrival, hpos, Option.bind_some] at harrival
              obtain ⟨body, hbody, htx⟩ := Option.bind_eq_some_iff.1 harrival
              obtain ⟨x, hx, hfor⟩ := Option.bind_eq_some_iff.1 hbody
              have hgrow : (σ s.other).effects <+:
                  (is.foldl p.step (p.step σ i) s.other).effects :=
                (p.effects_isPrefix_step s.other σ i).trans
                  (p.effects_isPrefix_run s.other _ is)
              have hlater := getElem?_of_isPrefix hgrow hx
              rw [List.filterMap_cons_some (b := tx)]
              · exact htail.cons_cons tx
              · rw [hlater, Option.bind_some, hfor, Option.bind_some, htx]

def DeliveredOnce (s : Side) (is : List PairInput) : Prop :=
  (is.filterMap (PairInput.position s)).Nodup

instance (s : Side) (is : List PairInput) : Decidable (DeliveredOnce s is) :=
  inferInstanceAs (Decidable (List.Nodup _))

/-- Messages sent with distinct transaction IDs and delivered once arrive with
distinct transaction IDs. -/
theorem Pair.arrivals_nodup (p : Pair) {t : MessageType} {s : Side}
    {σ : Side → World} {is : List PairInput} (honce : DeliveredOnce s is)
    (hsent : ((is.foldl p.step σ s.other).sent t).Nodup) :
    (p.arrivals t s σ is).Nodup := by
  refine List.Nodup.sublist (p.arrivals_sublist t s σ is)
    (nodup_filterMap_positions ?_ hsent honce)
  intro x tx h
  obtain ⟨body, hfor, htx⟩ := Option.bind_eq_some_iff.1 h
  rw [body_of_bodyFor hfor]
  exact htx

/-- Nothing but the first call for a callback has been sent. -/
theorem Pair.Started.sent {p : Pair} {σ : Side → World} (h : p.Started σ)
    (s : Side) : (σ s).sent .ping = [] ∧ (σ s).sent .pong = [] ∧ (σ s).txs = 0 := by
  obtain ⟨peer, ifaceAddrs, faults, k, -, hrun⟩ := h s
  simp only [runDaemon] at hrun
  split at hrun
  · rw [← Except.ok.inj hrun]
    exact ⟨rfl, rfl, rfl⟩
  · cases hrun

theorem Pair.numbered_run {p : Pair} {σ : Side → World} (hstart : p.Started σ)
    (is : List PairInput) :
    ∀ s, Numbered (p.env s) (is.foldl p.step σ s) := by
  refine invariant_foldl
    (I := fun σ : Side → World => ∀ s, Numbered (p.env s) (σ s)) ?_ ?_ is
  · intro σ i h
    exact Pair.step_induction (I := fun s => Numbered (p.env s)) h
      fun ev _ => numbered_step (h i.side) _
  · intro s
    obtain ⟨hping, -, htxs⟩ := hstart.sent s
    rw [Numbered, hping, htxs]
    rfl

/-- Every pong in the log of a side answers a ping in the other log. -/
def Answers (σ : Side → World) : Prop :=
  ∀ s, (σ s).sent .pong ⊆ (σ s.other).sent .ping

theorem answers_step {p : Pair} {σ : Side → World} (h : Answers σ)
    (i : PairInput) : Answers (p.step σ i) := by
  intro s tx htx
  have hkept : (σ s.other).sent .ping ⊆ (p.step σ i s.other).sent .ping :=
    ((p.effects_isPrefix_step s.other σ i).sublist.filterMap _).subset
  rw [p.sent_pong_step] at htx
  rcases List.mem_append.1 htx with hold | hnew
  · exact hkept (h s hold)
  · exact hkept (mem_sent_of_arrival (Option.mem_toList.1 hnew))

theorem Pair.Started.answers {p : Pair} {σ : Side → World} (h : p.Started σ) :
    Answers σ := by
  intro s tx htx
  rw [(h.sent s).2.1] at htx
  cases htx

/-- In every run, a pong that a machine acts on carries the transaction ID of a
ping it sent before. A transaction ID is accepted at most once just when no two
pongs that arrive share one; that is so when no envelope is delivered twice and
transaction IDs do not repeat. -/
theorem accepted_pongs {p : Pair} {σ : Side → World} (hstart : p.Started σ)
    (is : List PairInput) (s : Side) :
    EachStep p.step (fun σ i => ∀ tx ∈ p.actedOn s σ i, tx ∈ (σ s).sent .ping)
        σ is ∧
      ((p.accepted s σ is).Nodup ↔ (p.arrivals .pong s σ is).Nodup) ∧
      ((∀ s, DeliveredOnce s is) → Function.Injective (p.env s).newTxID →
        (p.accepted s σ is).Nodup) := by
  refine ⟨?_, ?_, ?_⟩
  · refine eachStep_of_invariant (I := Answers) (P := fun _ _ => True)
      (fun σ i hσ _ => answers_step hσ i) ?_ hstart.answers
      (eachStep_of_forall_mem (P := fun _ => True) (fun _ _ => trivial) σ)
    intro σ i hσ _ tx htx
    rw [actedOn_eq_arrival] at htx
    have hpong := mem_sent_of_arrival htx
    simpa using hσ s.other hpong
  · rw [p.accepted_eq_arrivals]
  · intro honce hinj
    rw [p.accepted_eq_arrivals]
    -- the pings are distinct, so the pings that arrive are, so the pongs are
    have hpings : ((is.foldl p.step σ s).sent .ping).Nodup := by
      rw [Pair.numbered_run hstart is s]
      exact (List.nodup_map_iff hinj).2 List.nodup_range
    have hanswered : (p.arrivals .ping s.other σ is).Nodup := by
      refine p.arrivals_nodup (honce s.other) ?_
      rwa [Side.other_other]
    refine p.arrivals_nodup (honce s) ?_
    have hpongs : (is.foldl p.step σ s.other).sent .pong = _ :=
      append_outputs (q := fun σ : Side → World => (σ s.other).sent .pong)
        (p.sent_pong_step s.other) σ is
    rw [hpongs, (hstart.sent s.other).2.1]
    exact hanswered

/-! ## A replayed pong -/

/-- The handshake of two daemons, a keepalive loss, and once more the pong of the
handshake, now under another source address. -/
def replayedHandshake : List PairInput :=
  handshake 4000 ++
    [⟨.a, .keepalive, [[192, 168, 1, 10]], fun _ _ => none⟩,
      ⟨.a, .deliver 1 (.udp ⟨.v4 0xcb007109, 9⟩), [[192, 168, 1, 10]],
        fun _ _ => none⟩]

/-- In the plain handshake the one pong answers the one ping. -/
theorem accepted_of_handshake :
    (((samplePair 4000).accepted .a (sampleStart 4000) (handshake 4000))).Nodup :=
  (accepted_pongs (started_sampleStart 4000) (handshake 4000) .a).2.2
    (by intro s; cases s <;> decide +kernel) toString_nat_injective

/-- The replayed pong is accepted a second time and selects the address it came
from. -/
theorem accepted_of_replayedHandshake :
    (samplePair 4000).Started (sampleStart 4000) ∧
      (samplePair 4000).accepted .a (sampleStart 4000) replayedHandshake =
        ["0", "0"] ∧
      (replayedHandshake.foldl (samplePair 4000).step (sampleStart 4000)
        .a).fsm.state = .direct ∧
      (replayedHandshake.foldl (samplePair 4000).step (sampleStart 4000)
        .a).fsm.winning = ⟨.v4 0xcb007109, 9⟩ :=
  ⟨started_sampleStart 4000, by decide +kernel, by decide +kernel,
    by decide +kernel⟩

end Daemon

end Gretun
