import Gretun.Daemon.PeerFrame
import Gretun.Foundation.Log

/-!
# What a step adds to the log

A step writes to the log in three ways: it answers a ping with one pong, it sends
pings that use up transaction IDs in order, or it only records metrics. So the
pings in a log are numbered, and its pongs are the answers to the pings handled.
-/

namespace Gretun

namespace Daemon

open Gretun.Net
open Gretun.Disco
open Gretun.Tunnel
open Foundation.Log

def txOf (t : MessageType) (body : Body) : Option String :=
  if body.type = t then some body.tx else none

def Effect.body : Effect → Option Body
  | .udp _ _ body => some body
  | .signal _ body => some body
  | _ => none

def Event.body : Event → Option Body
  | .udp _ body => some body
  | .signal body => some body
  | _ => none

def World.sent (t : MessageType) (w : World) : List String :=
  w.effects.filterMap fun x => x.body.bind (txOf t)

/-- The pings in the log used the first transaction IDs, in order. -/
def Numbered (e : Env) (w : World) : Prop :=
  w.sent .ping = (List.range w.txs).map e.newTxID

inductive Writes (e : Env) (w : World) (ev : Event) (w' : World) : Prop
  | notes (xs : List Effect) (hxs : ∀ x ∈ xs, x.body = none)
      (hev : ev.body.bind (txOf .ping) = none)
      (heffects : w'.effects = w.effects ++ xs) (htxs : w'.txs = w.txs)
  | pong (dst : AddrPort) (key : Key) (body : Body)
      (hev : ev.body.bind (txOf .ping) = some body.tx) (htype : body.type = .pong)
      (heffects : w'.effects = w.effects ++ [.udp dst key body])
      (htxs : w'.txs = w.txs)
  | pings (dsts : List AddrPort) (w₀ : World)
      (hev : ev.body.bind (txOf .ping) = none)
      (heffects : w₀.effects = w.effects) (htxs : w₀.txs = w.txs)
      (heq : w' = pingAll e dsts w₀)

theorem Writes.same {e : Env} {w w' : World} {ev : Event}
    (hev : ev.body.bind (txOf .ping) = none) (heffects : w'.effects = w.effects)
    (htxs : w'.txs = w.txs) : Writes e w ev w' :=
  .notes [] (by simp) hev (by simp [heffects]) htxs

theorem onPeerUpdate_effects (e : Env) (w : World) :
    (onPeerUpdate e w).effects = w.effects ∧ (onPeerUpdate e w).txs = w.txs := by
  unfold onPeerUpdate
  split <;> exact ⟨rfl, rfl⟩

theorem record_effects (e : Env) (x : Effect) (w : World) :
    (w.record e x).effects = w.effects ++ if e.deps.metrics then [x] else [] := by
  unfold World.record
  split <;> simp [World.emit]

theorem writes_onPong (e : Env) (i : Input) (src : AddrPort) (w : World)
    (hev : i.event.body.bind (txOf .ping) = none) :
    Writes e w i.event (onPong e i src w) := by
  by_cases hdirect : w.fsm.state = .direct
  · refine .notes (if e.deps.metrics then [.pongRecv] else []) ?_ hev ?_ ?_
    · cases e.deps.metrics <;> simp [Effect.body]
    · simp [onPong, hdirect, record_effects]
    · simp [onPong, hdirect]
  · rw [onPong_of_ne_direct e i src hdirect]
    refine .notes ((if e.deps.metrics then [.pongRecv] else []) ++
      if e.deps.metrics && !w.fsm.punchStart.isZero then
        [.holePunch (Time.sub (e.clock (w.reads + 1)) w.fsm.punchStart)]
      else []) ?_ hev ?_ ?_
    · cases e.deps.metrics <;> cases w.fsm.punchStart.isZero <;>
        simp [Effect.body]
    · rw [onPongNew_effects, record_effects, record_fsm, record_reads,
        List.append_assoc]
    · simp only [onPongNew, bringUpTunnel_txs]
      split <;> simp [World.setState]

theorem writes_onDiscoUDP (e : Env) (i : Input) (src : AddrPort) (body : Body)
    (w : World) (hbody : i.event.body = some body) :
    Writes e w i.event (onDiscoUDP e i src body w) := by
  have hnone : body.type ≠ .ping → i.event.body.bind (txOf .ping) = none := by
    intro h
    rw [hbody]
    simp [txOf, h]
  unfold onDiscoUDP
  cases htype : body.type with
  | ping =>
      refine .pong src w.fsm.peer.discoKey
        { type := .pong, tx := body.tx, src := src.string } ?_ rfl rfl rfl
      rw [hbody]
      simp [txOf, htype]
  | pong => exact writes_onPong e i src w (hnone (by simp [htype]))
  | callMeMaybe =>
      have hupdate := onPeerUpdate_effects e (absorbEndpoints e body.endpoints w)
      exact .same (hnone (by simp [htype])) hupdate.1 hupdate.2
  | other t => exact .same (hnone (by simp [htype])) rfl rfl

theorem writes_step (e : Env) (w : World) (i : Input) :
    Writes e w i.event (step e w i) := by
  unfold step
  cases hev : i.event with
  | setPeer peer => exact .same rfl rfl rfl
  | update =>
      have hupdate := onPeerUpdate_effects e w
      exact .same rfl hupdate.1 hupdate.2
  | udp src body =>
      have hbody : i.event.body = some body := by rw [hev]; rfl
      have hwrites := writes_onDiscoUDP e i src body w hbody
      rw [hev] at hwrites
      exact hwrites
  | signal body =>
      have hbody : i.event.body = some body := by rw [hev]; rfl
      have hwrites := writes_onDiscoUDP e i AddrPort.zero body w hbody
      rw [hev] at hwrites
      exact hwrites
  | tick =>
      simp only [tickPunch]
      split
      · exact .same rfl rfl rfl
      · split
        · exact .same rfl rfl rfl
        · exact .pings _ { w with reads := w.reads + 1 } rfl rfl rfl rfl
  | keepalive =>
      simp only [keepalive]
      split
      · exact .same rfl rfl rfl
      · split
        · exact .same rfl rfl rfl
        · exact .pings [w.fsm.winning] { w with reads := w.reads + 1 } rfl rfl
            rfl rfl

/-! ## Consequences -/

theorem sent_of_effects_append {t : MessageType} {w w' : World}
    {xs : List Effect} (h : w'.effects = w.effects ++ xs) :
    w'.sent t = w.sent t ++ xs.filterMap fun x => x.body.bind (txOf t) := by
  rw [World.sent, h, List.filterMap_append]
  rfl

theorem filterMap_notes {t : MessageType} {xs : List Effect}
    (h : ∀ x ∈ xs, x.body = none) :
    xs.filterMap (fun x => x.body.bind (txOf t)) = [] := by
  rw [List.filterMap_eq_nil_iff]
  intro x hx
  rw [h x hx]
  rfl

theorem sendPing_effects (e : Env) (dst : AddrPort) (w : World) :
    ∃ xs, (∀ x ∈ xs, x.body = none) ∧ (sendPing e dst w).effects =
      w.effects ++ .udp dst w.fsm.peer.discoKey
        { type := .ping, tx := e.newTxID w.txs, nodeKey := e.deps.selfNode } ::
          xs := by
  refine ⟨if e.deps.metrics then [.pingSent] else [], ?_, ?_⟩
  · cases e.deps.metrics <;> simp [Effect.body]
  · simp [sendPing, record_effects, sendDisco, World.emit]

@[simp] theorem sendPing_txs (e : Env) (dst : AddrPort) (w : World) :
    (sendPing e dst w).txs = w.txs + 1 := by
  simp [sendPing, sendDisco, World.emit]

theorem numbered_sendPing {e : Env} {w : World} (h : Numbered e w)
    (dst : AddrPort) : Numbered e (sendPing e dst w) := by
  obtain ⟨xs, hxs, heq⟩ := sendPing_effects e dst w
  rw [Numbered, sent_of_effects_append heq, sendPing_txs, List.range_succ,
    List.map_append, ← h, List.filterMap_cons, filterMap_notes hxs]
  rfl

theorem sent_pong_sendPing (e : Env) (dst : AddrPort) (w : World) :
    (sendPing e dst w).sent .pong = w.sent .pong := by
  obtain ⟨xs, hxs, heq⟩ := sendPing_effects e dst w
  rw [sent_of_effects_append heq, List.filterMap_cons, filterMap_notes hxs]
  simp [Effect.body, txOf]

theorem Numbered.of_eq {e : Env} {w w' : World} (h : Numbered e w)
    (hsent : w'.sent .ping = w.sent .ping) (htxs : w'.txs = w.txs) :
    Numbered e w' := by
  rw [Numbered, hsent, htxs, h]

theorem numbered_step {e : Env} {w : World} (h : Numbered e w) (i : Input) :
    Numbered e (step e w i) := by
  cases writes_step e w i with
  | notes xs hxs hev heffects htxs =>
      refine h.of_eq ?_ htxs
      rw [sent_of_effects_append heffects, filterMap_notes hxs, List.append_nil]
  | pong dst key body hev htype heffects htxs =>
      refine h.of_eq ?_ htxs
      rw [sent_of_effects_append heffects]
      simp [Effect.body, txOf, htype]
  | pings dsts w₀ hev heffects htxs heq =>
      rw [heq]
      refine pingAll_induction e (I := Numbered e)
        (fun dst w hw => numbered_sendPing hw dst) dsts (h.of_eq ?_ htxs)
      rw [World.sent, heffects]
      rfl

/-- A step sends a pong just when it handles a ping, with the same transaction
ID. -/
theorem sent_pong_step (e : Env) (w : World) (i : Input) :
    (step e w i).sent .pong =
      w.sent .pong ++ (i.event.body.bind (txOf .ping)).toList := by
  cases writes_step e w i with
  | notes xs hxs hev heffects htxs =>
      rw [sent_of_effects_append heffects, filterMap_notes hxs, hev]
      rfl
  | pong dst key body hev htype heffects htxs =>
      rw [sent_of_effects_append heffects, hev]
      simp [Effect.body, txOf, htype]
  | pings dsts w₀ hev heffects htxs heq =>
      have hsame : (pingAll e dsts w₀).sent .pong = w₀.sent .pong :=
        pingAll_induction e (I := fun w => w.sent .pong = w₀.sent .pong)
          (fun dst w hw => (sent_pong_sendPing e dst w).trans hw) dsts rfl
      rw [heq, hsame, hev, World.sent, heffects]
      exact (List.append_nil _).symm

@[simp] theorem pingAll_txs (e : Env) (dsts : List AddrPort) (w : World) :
    (pingAll e dsts w).txs = w.txs + dsts.length := by
  induction dsts generalizing w with
  | nil => rfl
  | cons dst dsts ih =>
      change (pingAll e dsts (sendPing e dst w)).txs = _
      rw [ih, sendPing_txs, List.length_cons]
      omega

theorem onPong_txs (e : Env) (i : Input) (src : AddrPort) (w : World) :
    (onPong e i src w).txs = w.txs := by
  by_cases hdirect : w.fsm.state = .direct
  · simp [onPong, hdirect]
  · rw [onPong_of_ne_direct e i src hdirect]
    simp only [onPongNew, bringUpTunnel_txs]
    split <;> simp [World.setState]

def TimerPings (w : World) (ev : Event) : Prop :=
  ev = .tick ∧ w.fsm.state = .punching ∨ ev = .keepalive ∧ w.fsm.state = .direct

theorem txs_step_of_not_timerPings (e : Env) {w : World} {i : Input}
    (h : ¬ TimerPings w i.event) : (step e w i).txs = w.txs := by
  have hudp : ∀ src body, (onDiscoUDP e i src body w).txs = w.txs := by
    intro src body
    unfold onDiscoUDP
    cases body.type with
    | ping => rfl
    | pong => exact onPong_txs e i src w
    | callMeMaybe => exact (onPeerUpdate_effects e _).2
    | other t => rfl
  unfold step
  cases hev : i.event with
  | setPeer peer => rfl
  | update => exact (onPeerUpdate_effects e w).2
  | udp src body => exact hudp src body
  | signal body => exact hudp AddrPort.zero body
  | tick =>
      have hstate : w.fsm.state ≠ .punching := fun hs => h (Or.inl ⟨hev, hs⟩)
      simp [tickPunch, hstate]
  | keepalive =>
      have hstate : w.fsm.state ≠ .direct := fun hs => h (Or.inr ⟨hev, hs⟩)
      simp [keepalive, hstate]

theorem effects_isPrefix_step (e : Env) (w : World) (i : Input) :
    w.effects <+: (step e w i).effects := by
  cases writes_step e w i with
  | notes xs hxs hev heffects htxs => exact ⟨xs, heffects.symm⟩
  | pong dst key body hev htype heffects htxs => exact ⟨_, heffects.symm⟩
  | pings dsts w₀ hev heffects htxs heq =>
      rw [heq, ← heffects]
      refine pingAll_induction e (I := fun w => w₀.effects <+: w.effects) ?_ dsts
        (List.prefix_refl _)
      intro dst w hw
      obtain ⟨xs, -, hping⟩ := sendPing_effects e dst w
      exact hw.trans ⟨_, hping.symm⟩

/-- A ping that a step adds to the log was sent because of a timer. -/
theorem timerPings_of_ping {e : Env} {w : World} {i : Input} {n : ℕ} {x : Effect}
    {body : Body} (hnew : w.effects.length ≤ n)
    (hx : (step e w i).effects[n]? = some x) (hbody : x.body = some body)
    (htype : body.type = .ping) : TimerPings w i.event := by
  by_contra hno
  have htxs := txs_step_of_not_timerPings e hno
  cases writes_step e w i with
  | notes xs hxs hev heffects _ =>
      rw [heffects] at hx
      rw [hxs x (mem_of_getElem?_append hnew hx)] at hbody
      cases hbody
  | pong dst key answer hev hpong heffects _ =>
      rw [heffects] at hx
      obtain rfl := List.mem_singleton.1 (mem_of_getElem?_append hnew hx)
      obtain rfl := Option.some.inj hbody
      rw [htype] at hpong
      cases hpong
  | pings dsts w₀ hev heffects hsame heq =>
      rw [heq, pingAll_txs, hsame] at htxs
      have hnil : dsts = [] := List.length_eq_zero_iff.1 (by omega)
      rw [heq, hnil] at hx
      change w₀.effects[n]? = some x at hx
      rw [heffects, List.getElem?_eq_none hnew] at hx
      cases hx

/-- A pong that a step adds to the log answers the ping that the step handled. -/
theorem txOf_ping_of_pong {e : Env} {w : World} {i : Input} {n : ℕ} {x : Effect}
    {body : Body} (hnew : w.effects.length ≤ n)
    (hx : (step e w i).effects[n]? = some x) (hbody : x.body = some body)
    (htype : body.type = .pong) :
    i.event.body.bind (txOf .ping) = some body.tx := by
  obtain ⟨xs, hxs⟩ := effects_isPrefix_step e w i
  have hsent := sent_pong_step e w i
  rw [sent_of_effects_append hxs.symm, List.append_cancel_left_eq] at hsent
  rw [← hxs] at hx
  have hmem : body.tx ∈ (i.event.body.bind (txOf .ping)).toList := by
    rw [← hsent]
    refine List.mem_filterMap.2 ⟨x, mem_of_getElem?_append hnew hx, ?_⟩
    simp [hbody, txOf, htype]
  exact Option.mem_toList.1 hmem

end Daemon

end Gretun
