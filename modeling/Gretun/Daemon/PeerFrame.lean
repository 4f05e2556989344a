import Gretun.Daemon.Peer
import Gretun.Tunnel.Created
import Mathlib.Data.Int.ConditionallyCompleteOrder

/-!
# What each event changes

The fields of the machine are written in few places: only a pong selects an
endpoint or touches the kernel, only a pong makes the path direct, and only an
update from the unknown state writes the punch start. The lemmas say so once for
each operation; `step_sameTunnel` and `step_state_cases` collect what every event
other than a pong can do.
-/

namespace Gretun

namespace Daemon

open Gretun.Net
open Gretun.Disco
open Gretun.Tunnel

/-- The source address of a pong; a relayed one has the zero address. -/
def Event.pongFrom : Event → Option AddrPort
  | .udp src body => if body.type = .pong then some src else none
  | .signal body => if body.type = .pong then some AddrPort.zero else none
  | _ => none

@[simp] theorem setState_state (s : PeerState) (w : World) :
    (w.setState s).fsm.state = s := rfl

@[simp] theorem setState_kernel (s : PeerState) (w : World) :
    (w.setState s).kernel = w.kernel := rfl

@[simp] theorem record_fsm (e : Env) (x : Effect) (w : World) :
    (w.record e x).fsm = w.fsm := by
  unfold World.record
  split <;> rfl

@[simp] theorem record_kernel (e : Env) (x : Effect) (w : World) :
    (w.record e x).kernel = w.kernel := by
  unfold World.record
  split <;> rfl

@[simp] theorem record_punchDeadline (e : Env) (x : Effect) (w : World) :
    (w.record e x).punchDeadline = w.punchDeadline := by
  unfold World.record
  split <;> rfl

@[simp] theorem record_reads (e : Env) (x : Effect) (w : World) :
    (w.record e x).reads = w.reads := by
  unfold World.record
  split <;> rfl

@[simp] theorem record_txs (e : Env) (x : Effect) (w : World) :
    (w.record e x).txs = w.txs := by
  unfold World.record
  split <;> rfl

/-! ## Sending changes nothing but the log -/

@[simp] theorem sendPing_fsm (e : Env) (dst : AddrPort) (w : World) :
    (sendPing e dst w).fsm = w.fsm := by
  simp [sendPing, sendDisco, World.emit]

@[simp] theorem sendPing_kernel (e : Env) (dst : AddrPort) (w : World) :
    (sendPing e dst w).kernel = w.kernel := by
  simp [sendPing, sendDisco, World.emit]

@[simp] theorem sendPing_punchDeadline (e : Env) (dst : AddrPort) (w : World) :
    (sendPing e dst w).punchDeadline = w.punchDeadline := by
  simp [sendPing, sendDisco, World.emit]

theorem pingAll_induction (e : Env) {I : World → Prop}
    (h : ∀ dst w, I w → I (sendPing e dst w)) (dsts : List AddrPort) {w : World}
    (hw : I w) : I (pingAll e dsts w) :=
  List.foldlRecOn dsts _ hw fun w hw dst _ => h dst w hw

@[simp] theorem pingAll_fsm (e : Env) (dsts : List AddrPort) (w : World) :
    (pingAll e dsts w).fsm = w.fsm :=
  pingAll_induction e (I := fun w' => w'.fsm = w.fsm)
    (fun dst w' h => by rw [sendPing_fsm, h]) dsts rfl

@[simp] theorem pingAll_kernel (e : Env) (dsts : List AddrPort) (w : World) :
    (pingAll e dsts w).kernel = w.kernel :=
  pingAll_induction e (I := fun w' => w'.kernel = w.kernel)
    (fun dst w' h => by rw [sendPing_kernel, h]) dsts rfl

@[simp] theorem pingAll_punchDeadline (e : Env) (dsts : List AddrPort)
    (w : World) : (pingAll e dsts w).punchDeadline = w.punchDeadline :=
  pingAll_induction e (I := fun w' => w'.punchDeadline = w.punchDeadline)
    (fun dst w' h => by rw [sendPing_punchDeadline, h]) dsts rfl

/-! ## What the handlers keep -/

structure SameTunnel (w w' : World) : Prop where
  winning : w'.fsm.winning = w.fsm.winning
  tunnelUp : w'.fsm.tunnelUp = w.fsm.tunnelUp
  kernel : w'.kernel = w.kernel

theorem onPeerUpdate_sameTunnel (e : Env) (w : World) :
    SameTunnel w (onPeerUpdate e w) := by
  unfold onPeerUpdate
  split <;> exact ⟨rfl, rfl, rfl⟩

theorem step_sameTunnel (e : Env) (w : World) (i : Input)
    (h : i.event.pongFrom = none) : SameTunnel w (step e w i) := by
  have hself : SameTunnel w w := ⟨rfl, rfl, rfl⟩
  have hudp : ∀ src body, body.type ≠ .pong →
      SameTunnel w (onDiscoUDP e i src body w) := by
    intro src body hbody
    unfold onDiscoUDP
    cases hty : body.type with
    | ping => exact ⟨rfl, rfl, rfl⟩
    | pong => exact absurd hty hbody
    | callMeMaybe =>
        have hu := onPeerUpdate_sameTunnel e (absorbEndpoints e body.endpoints w)
        exact ⟨hu.winning, hu.tunnelUp, hu.kernel⟩
    | other t => exact hself
  unfold step
  cases hev : i.event with
  | setPeer peer => exact ⟨rfl, rfl, rfl⟩
  | update => exact onPeerUpdate_sameTunnel e w
  | udp src body =>
      refine hudp src body fun hpong => ?_
      simp [hev, Event.pongFrom, hpong] at h
  | signal body =>
      refine hudp AddrPort.zero body fun hpong => ?_
      simp [hev, Event.pongFrom, hpong] at h
  | tick =>
      simp only [tickPunch]
      split
      · exact hself
      · split
        · exact ⟨rfl, rfl, rfl⟩
        · exact ⟨by simp, by simp, by simp⟩
  | keepalive =>
      simp only [keepalive]
      split
      · exact hself
      · split
        · exact ⟨rfl, rfl, rfl⟩
        · exact ⟨by simp, by simp, by simp⟩

/-! ## State changes -/

structure SamePunch (w w' : World) : Prop where
  state : w'.fsm.state = w.fsm.state
  punchStart : w'.fsm.punchStart = w.fsm.punchStart
  punchDeadline : w'.punchDeadline = w.punchDeadline

structure BeginsPunch (e : Env) (w w' : World) : Prop where
  unknown : w.fsm.state = .unknown
  state : w'.fsm.state = .punching
  punchStart : w'.fsm.punchStart = e.clock w.reads
  punchDeadline : w'.punchDeadline = e.clock (w.reads + 1) + punchAttemptDur

def KeepaliveLost (e : Env) (w : World) (i : Input) : Prop :=
  i.event = .keepalive ∧ w.fsm.state = .direct ∧
    pongMissDeadline < Time.sub (w.now e) w.fsm.lastPong

instance (e : Env) (w : World) (i : Input) : Decidable (KeepaliveLost e w i) :=
  inferInstanceAs (Decidable (_ ∧ _ ∧ _))

def PunchExpired (e : Env) (w : World) (i : Input) : Prop :=
  i.event = .tick ∧ w.fsm.state = .punching ∧ w.punchDeadline < w.now e

theorem onPeerUpdate_cases (e : Env) (w : World) :
    SamePunch w (onPeerUpdate e w) ∨ BeginsPunch e w (onPeerUpdate e w) := by
  unfold onPeerUpdate
  split
  · rename_i h
    exact Or.inr ⟨h.2, rfl, rfl, rfl⟩
  · exact Or.inl ⟨rfl, rfl, rfl⟩

/-- All that an event other than a pong can do to the state. -/
theorem step_state_cases (e : Env) (w : World) (i : Input)
    (h : i.event.pongFrom = none) :
    SamePunch w (step e w i) ∨ BeginsPunch e w (step e w i) ∨
      PunchExpired e w i ∧ (step e w i).fsm.state = .relay ∨
      KeepaliveLost e w i ∧ (step e w i).fsm.state = .punching := by
  have hself : SamePunch w w := ⟨rfl, rfl, rfl⟩
  have hupdate : ∀ w' : World, SamePunch w w' → w'.reads = w.reads →
      SamePunch w (onPeerUpdate e w') ∨ BeginsPunch e w (onPeerUpdate e w') := by
    intro w' hsame hreads
    rcases onPeerUpdate_cases e w' with hu | hu
    · exact Or.inl ⟨hu.state.trans hsame.state,
        hu.punchStart.trans hsame.punchStart,
        hu.punchDeadline.trans hsame.punchDeadline⟩
    · exact Or.inr ⟨hsame.state ▸ hu.unknown, hu.state, hreads ▸ hu.punchStart,
        hreads ▸ hu.punchDeadline⟩
  have hudp : ∀ src body, body.type ≠ .pong →
      SamePunch w (onDiscoUDP e i src body w) ∨
        BeginsPunch e w (onDiscoUDP e i src body w) := by
    intro src body hbody
    unfold onDiscoUDP
    cases hty : body.type with
    | ping => exact Or.inl ⟨rfl, rfl, rfl⟩
    | pong => exact absurd hty hbody
    | callMeMaybe => exact hupdate _ ⟨rfl, rfl, rfl⟩ rfl
    | other t => exact Or.inl hself
  unfold step
  cases hev : i.event with
  | setPeer peer => exact Or.inl ⟨rfl, rfl, rfl⟩
  | update =>
      rcases hupdate w hself rfl with hu | hu
      · exact Or.inl hu
      · exact Or.inr (Or.inl hu)
  | udp src body =>
      rcases hudp src body fun hpong => by
        simp [hev, Event.pongFrom, hpong] at h with hu | hu
      · exact Or.inl hu
      · exact Or.inr (Or.inl hu)
  | signal body =>
      rcases hudp AddrPort.zero body fun hpong => by
        simp [hev, Event.pongFrom, hpong] at h with hu | hu
      · exact Or.inl hu
      · exact Or.inr (Or.inl hu)
  | tick =>
      by_cases hstate : w.fsm.state = .punching
      · by_cases hexpired : w.punchDeadline < w.now e
        · refine Or.inr (Or.inr (Or.inl ⟨⟨hev, hstate, hexpired⟩, ?_⟩))
          simp [tickPunch, hstate, hexpired]
        · refine Or.inl ⟨?_, ?_, ?_⟩ <;> simp [tickPunch, hstate, hexpired]
      · simp only [tickPunch, ne_eq, hstate, not_false_eq_true, if_true]
        exact Or.inl hself
  | keepalive =>
      by_cases hstate : w.fsm.state = .direct
      · by_cases hlost : pongMissDeadline < Time.sub (w.now e) w.fsm.lastPong
        · refine Or.inr (Or.inr (Or.inr ⟨⟨hev, hstate, hlost⟩, ?_⟩))
          simp [keepalive, hstate, hlost]
        · refine Or.inl ⟨?_, ?_, ?_⟩ <;> simp [keepalive, hstate, hlost]
      · simp only [keepalive, ne_eq, hstate, not_false_eq_true, if_true]
        exact Or.inl hself

theorem direct_of_step_direct {e : Env} {w : World} {i : Input}
    (h : i.event.pongFrom = none) (hdirect : (step e w i).fsm.state = .direct) :
    w.fsm.state = .direct := by
  rcases step_state_cases e w i h with hs | hs | ⟨-, hs⟩ | ⟨-, hs⟩
  · rw [← hs.state, hdirect]
  · exact absurd (hdirect.symm.trans hs.state) (by decide)
  · exact absurd (hdirect.symm.trans hs) (by decide)
  · exact absurd (hdirect.symm.trans hs) (by decide)

/-- A pong came as a datagram from its source, or over the coordinator. -/
theorem Event.pongFrom_eq_some {ev : Event} {src : AddrPort} :
    ev.pongFrom = some src ↔ (∃ body, ev = .udp src body ∧ body.type = .pong) ∨
      ∃ body, ev = .signal body ∧ body.type = .pong ∧ src = AddrPort.zero := by
  cases ev with
  | udp from' body => simp [pongFrom, and_comm]
  | signal body => simp [pongFrom, eq_comm]
  | _ => simp [pongFrom]

theorem step_of_pongFrom (e : Env) (w : World) (i : Input) {src : AddrPort}
    (h : i.event.pongFrom = some src) : step e w i = onPong e i src w := by
  unfold step
  rcases Event.pongFrom_eq_some.1 h with ⟨body, hev, hpong⟩ | ⟨body, hev, hpong, rfl⟩
  · simp [hev, onDiscoUDP, hpong]
  · simp [hev, onDiscoSignal, onDiscoUDP, hpong]

theorem onPong_of_direct (e : Env) (i : Input) (src : AddrPort) {w : World}
    (h : w.fsm.state = .direct) :
    SameTunnel w (onPong e i src w) ∧
      (onPong e i src w).fsm.state = .direct := by
  simp only [onPong, record_fsm, h, ne_eq, not_true_eq_false, if_false]
  exact ⟨⟨by simp, by simp, by simp⟩, by simp⟩

/-- `bringUpTunnel` writes the flag and the kernel only. -/
theorem bringUpTunnel_eq (e : Env) (i : Input) (dst : AddrPort) (w : World) :
    bringUpTunnel e i dst w =
      { w with
        kernel := (bringUpTunnel e i dst w).kernel
        fsm := { w.fsm with
          tunnelUp := (bringUpTunnel e i dst w).fsm.tunnelUp } } := by
  unfold bringUpTunnel
  split
  · rfl
  · split
    · rfl
    · simp only
      split <;> rfl

theorem bringUpTunnel_fsm (e : Env) (i : Input) (dst : AddrPort) (w : World) :
    (bringUpTunnel e i dst w).fsm =
      { w.fsm with tunnelUp := (bringUpTunnel e i dst w).fsm.tunnelUp } :=
  congrArg World.fsm (bringUpTunnel_eq e i dst w)

@[simp] theorem bringUpTunnel_effects (e : Env) (i : Input) (dst : AddrPort)
    (w : World) : (bringUpTunnel e i dst w).effects = w.effects := by
  rw [bringUpTunnel_eq]

@[simp] theorem bringUpTunnel_txs (e : Env) (i : Input) (dst : AddrPort)
    (w : World) : (bringUpTunnel e i dst w).txs = w.txs := by
  rw [bringUpTunnel_eq]

@[simp] theorem bringUpTunnel_reads (e : Env) (i : Input) (dst : AddrPort)
    (w : World) : (bringUpTunnel e i dst w).reads = w.reads := by
  rw [bringUpTunnel_eq]

theorem bringUpTunnel_of_up (e : Env) (i : Input) (dst : AddrPort) {w : World}
    (h : w.fsm.tunnelUp = true) : bringUpTunnel e i dst w = w := by
  rw [bringUpTunnel, if_pos h]

theorem onPong_of_ne_direct (e : Env) (i : Input) (src : AddrPort) {w : World}
    (h : w.fsm.state ≠ .direct) :
    onPong e i src w = onPongNew e i src (w.record e .pongRecv) := by
  rw [onPong, if_pos]
  rwa [record_fsm]

structure Selects (e : Env) (src : AddrPort) (w w' : World) : Prop where
  state : w'.fsm.state = .direct
  winning : w'.fsm.winning = src
  lastPong : w'.fsm.lastPong = e.clock w.reads
  reads : w'.reads = w.reads + 2
  tunnelUp : w'.fsm.tunnelUp = w.fsm.tunnelUp
  kernel : w'.kernel = w.kernel

/-- A pong on a path that is not direct selects its source and then brings up the
tunnel. -/
theorem onPong_selects (e : Env) (i : Input) (src : AddrPort) {w : World}
    (h : w.fsm.state ≠ .direct) :
    ∃ w', onPong e i src w = bringUpTunnel e i src w' ∧ Selects e src w w' := by
  rw [onPong_of_ne_direct e i src h, onPongNew]
  refine ⟨_, rfl, ?_⟩
  split <;> constructor <;> simp [World.setState]

theorem onPong_state (e : Env) (i : Input) (src : AddrPort) (w : World) :
    (onPong e i src w).fsm.state = .direct := by
  by_cases h : w.fsm.state = .direct
  · exact (onPong_of_direct e i src h).2
  · obtain ⟨w', heq, hw'⟩ := onPong_selects e i src h
    rw [heq, bringUpTunnel_fsm]
    exact hw'.state

/-- No step ends in one of the two states before punching, except where it
started. -/
theorem state_ne_step {s : PeerState} (hs : s = .unknown ∨ s = .haveEndpoints)
    {e : Env} {w : World} {i : Input} (h : w.fsm.state ≠ s) :
    (step e w i).fsm.state ≠ s := by
  have hlater : (step e w i).fsm.state = w.fsm.state ∨
      (step e w i).fsm.state ∈ [PeerState.punching, .direct, .relay] := by
    cases hpong : i.event.pongFrom with
    | some src =>
        rw [step_of_pongFrom e w i hpong, onPong_state]
        exact Or.inr (by decide)
    | none =>
        rcases step_state_cases e w i hpong with hw | hw | ⟨-, hw⟩ | ⟨-, hw⟩
        · exact Or.inl hw.state
        · rw [hw.state]
          exact Or.inr (by decide)
        · rw [hw]
          exact Or.inr (by decide)
        · rw [hw]
          exact Or.inr (by decide)
  rcases hlater with hsame | hmem
  · rwa [hsame]
  · rintro rfl
    rcases hs with hs | hs <;> rw [hs] at hmem <;> revert hmem <;> decide

theorem onPong_lastPong (e : Env) (i : Input) (src : AddrPort) (w : World) :
    (onPong e i src w).fsm.lastPong = e.clock w.reads ∧
      w.reads < (onPong e i src w).reads := by
  by_cases h : w.fsm.state = .direct
  · simp [onPong, h]
  · obtain ⟨w', heq, hw'⟩ := onPong_selects e i src h
    rw [heq, bringUpTunnel_fsm, bringUpTunnel_reads, hw'.reads]
    exact ⟨hw'.lastPong, by omega⟩

/-- A new direct path reports the time since the punch start, if there was one. -/
theorem onPongNew_effects (e : Env) (i : Input) (src : AddrPort) (w : World) :
    (onPongNew e i src w).effects = w.effects ++
      if e.deps.metrics && !w.fsm.punchStart.isZero then
        [.holePunch (Time.sub (e.clock (w.reads + 1)) w.fsm.punchStart)]
      else [] := by
  unfold onPongNew
  rw [bringUpTunnel_effects]
  cases hzero : w.fsm.punchStart.isZero <;> cases hmetrics : e.deps.metrics <;>
    simp [World.setState, World.record, World.emit, hzero, hmetrics]

/-! ## A daemon to run -/

/-- A daemon at `192.168.1.10`; its clock jumps from the first second to the
hundredth at the sixth reading. -/
def sampleEnv : Env where
  deps :=
    { self := Vector.replicate 32 1
      selfNode := "node-a"
      ifaceName := "gretun-b"
      fouPort := 7777
      selfTunnel := .zero
      metrics := true }
  clock n := if n < 5 then Time.second else 100 * Time.second
  newTxID n := toString n
  parseAddrPort _ := none
  parsers := { cidr := .error, nlAddr := .error }

theorem monotone_sampleEnv_clock : Monotone sampleEnv.clock := by
  intro n m hnm
  simp only [sampleEnv]
  by_cases hn : n < 5
  · rw [if_pos hn]
    split
    · exact le_rfl
    · decide
  · rw [if_neg hn, if_neg (by omega)]

def samplePeer : RemotePeer where
  nodeKey := List.replicate 32 2
  discoKey := Vector.replicate 32 2
  name := "b"
  tunnelIP := .v4 0x64400002
  endpoints := [⟨⟨.v4 0xc0000201, 4000⟩, "stun"⟩, ⟨⟨.v4 0xc0000202, 4000⟩, "stun"⟩]
  updatedAt := 0

def sampleInput (ev : Event) : Input where
  event := ev
  ifaceAddrs := [[192, 168, 1, 10]]
  faults _ _ := none

end Daemon

end Gretun
