import Gretun.Daemon.BringUp
import Gretun.Foundation.Run

/-!
# Pings and pongs over the coordinator

A message over the coordinator is handled as if it had come from the zero address.
A relayed ping is answered and changes nothing else. A relayed pong changes nothing
on a direct path; on any other path it selects the zero address, and the machine is
direct without ever having heard from the peer.
-/

namespace Gretun

namespace Daemon

open Gretun.Net
open Gretun.Disco
open Gretun.Tunnel
open Foundation.Run

def Event.udpFrom : Event → Option AddrPort
  | .udp src _ => some src
  | _ => none

def udpSources (is : List Input) : List AddrPort :=
  is.filterMap fun i => i.event.udpFrom

structure Untouched (w w' : World) : Prop where
  state : w'.fsm.state = w.fsm.state
  winning : w'.fsm.winning = w.fsm.winning
  tunnelUp : w'.fsm.tunnelUp = w.fsm.tunnelUp
  links : w'.kernel.links = w.kernel.links

/-- If the input is a relayed ping or pong, handling it leaves the machine and the
links as they are. -/
def RelayedHarmless (e : Env) (w : World) (i : Input) : Prop :=
  ∀ body, i.event = .signal body → body.type = .ping ∨ body.type = .pong →
    Untouched w (step e w i)

/-- A relayed pong is handled on a direct path only. -/
def RelayedPongDirect (w : World) (i : Input) : Prop :=
  ∀ body, i.event = .signal body → body.type = .pong → w.fsm.state = .direct

def HeardFrom (srcs : List AddrPort) (w : World) : Prop :=
  w.fsm.state = .direct → w.fsm.winning.addr.isValid ∧ w.fsm.winning ∈ srcs

/-! ## One message -/

theorem step_of_relayedPing (e : Env) (w : World) {i : Input} {body : Body}
    (hev : i.event = .signal body) (hping : body.type = .ping) :
    step e w i = sendPong AddrPort.zero body.tx w := by
  simp only [step, hev, onDiscoSignal, onDiscoUDP, hping]

/-- A relayed pong off a direct path makes the zero address the selected one. -/
theorem step_of_relayedPong (e : Env) {w : World} {i : Input} {body : Body}
    (hev : i.event = .signal body) (hpong : body.type = .pong)
    (h : w.fsm.state ≠ .direct) :
    (step e w i).fsm.state = .direct ∧
      (step e w i).fsm.winning = AddrPort.zero := by
  have hfrom := Event.pongFrom_eq_some.2 (Or.inr ⟨body, hev, hpong, rfl⟩)
  rw [step_of_pongFrom e w i hfrom]
  obtain ⟨w', heq, hw'⟩ := onPong_selects e i AddrPort.zero h
  rw [heq, bringUpTunnel_fsm]
  exact ⟨hw'.state, hw'.winning⟩

/-- Handling a relayed message is harmless exactly when it is not a pong off a
direct path. -/
theorem relayedHarmless_iff (e : Env) (w : World) (i : Input) :
    RelayedHarmless e w i ↔ RelayedPongDirect w i := by
  constructor
  · intro h body hev hpong
    by_contra hstate
    have hkept := (h body hev (Or.inr hpong)).state
    rw [(step_of_relayedPong e hev hpong hstate).1] at hkept
    exact hstate hkept.symm
  · rintro h body hev (hping | hpong)
    · rw [step_of_relayedPing e w hev hping]
      exact ⟨rfl, rfl, rfl, rfl⟩
    · have hfrom := Event.pongFrom_eq_some.2 (Or.inr ⟨body, hev, hpong, rfl⟩)
      rw [step_of_pongFrom e w i hfrom]
      have hdirect := h body hev hpong
      obtain ⟨hsame, hstate⟩ := onPong_of_direct e i AddrPort.zero hdirect
      exact ⟨hstate.trans hdirect.symm, hsame.winning, hsame.tunnelUp,
        congrArg Kernel.links hsame.kernel⟩

/-! ## Whole runs -/

theorem heardFrom_of_pong {e : Env} {i : Input} {src : AddrPort} {w : World}
    {srcs : List AddrPort} (h : HeardFrom srcs w) (hsrc : src.addr.isValid)
    (hmem : src ∈ srcs) : HeardFrom srcs (onPong e i src w) := by
  intro _
  by_cases hstate : w.fsm.state = .direct
  · rw [(onPong_of_direct e i src hstate).1.winning]
    exact h hstate
  · obtain ⟨w', heq, hw'⟩ := onPong_selects e i src hstate
    rw [heq, bringUpTunnel_fsm]
    change w'.fsm.winning.addr.isValid = true ∧ w'.fsm.winning ∈ srcs
    rw [hw'.winning]
    exact ⟨hsrc, hmem⟩

theorem HeardFrom.step {e : Env} {w : World} {i : Input} {srcs : List AddrPort}
    (h : HeardFrom srcs w) (hrelayed : RelayedPongDirect w i)
    (hsocket : ∀ src, i.event.udpFrom = some src → src.addr.isValid) :
    HeardFrom (srcs ++ i.event.udpFrom.toList) (Daemon.step e w i) := by
  have hmono : HeardFrom (srcs ++ i.event.udpFrom.toList) w := fun hdirect =>
    ⟨(h hdirect).1, List.mem_append_left _ (h hdirect).2⟩
  cases hpong : i.event.pongFrom with
  | none =>
      intro hdirect
      rw [(step_sameTunnel e w i hpong).winning]
      exact hmono (direct_of_step_direct hpong hdirect)
  | some src =>
      rcases Event.pongFrom_eq_some.1 hpong with
        ⟨body, hev, -⟩ | ⟨body, hev, htype, rfl⟩
      · have hfrom : i.event.udpFrom = some src := by rw [hev]; rfl
        rw [step_of_pongFrom e w i hpong]
        exact heardFrom_of_pong hmono (hsocket src hfrom) (by simp [hfrom])
      · have hsame := (relayedHarmless_iff e w i).2 hrelayed body hev (Or.inr htype)
        intro _
        rw [hsame.winning]
        exact hmono (hrelayed body hev htype)

theorem udpSources_cons (i : Input) (is : List Input) :
    udpSources (i :: is) = i.event.udpFrom.toList ++ udpSources is := by
  cases h : i.event.udpFrom <;> simp [udpSources, h]

/-- A relayed pong off a direct path breaks the invariant at once. -/
theorem relayedPongDirect_of_heardFrom {e : Env} {w : World} {i : Input}
    {srcs : List AddrPort} (h : HeardFrom srcs (step e w i)) :
    RelayedPongDirect w i := by
  intro body hev hpong
  by_contra hstate
  obtain ⟨hdirect, hzero⟩ := step_of_relayedPong e hev hpong hstate
  have hvalid := (h hdirect).1
  rw [hzero] at hvalid
  cases hvalid

/-- The invariant holds in every state of a run exactly when every relayed pong of
the run is handled on a direct path. -/
theorem heardFrom_run_iff {e : Env} {w : World} {srcs : List AddrPort}
    (h : HeardFrom srcs w) {is : List Input}
    (hsocket : ∀ i ∈ is, ∀ src, i.event.udpFrom = some src → src.addr.isValid) :
    (∀ js, js <+: is → HeardFrom (srcs ++ udpSources js) (js.foldl (step e) w)) ↔
      EachStep (step e) RelayedPongDirect w is := by
  induction is generalizing w srcs with
  | nil =>
      simp only [eachStep_nil, iff_true, List.prefix_nil, forall_eq]
      simpa [udpSources] using h
  | cons i is ih =>
      have hrest : ∀ j ∈ is, ∀ src, j.event.udpFrom = some src →
          src.addr.isValid := fun j hj => hsocket j (List.mem_cons_of_mem i hj)
      rw [eachStep_cons]
      constructor
      · intro hall
        have hone := hall [i] (by simp)
        rw [udpSources_cons, List.foldl_cons] at hone
        have hi := relayedPongDirect_of_heardFrom hone
        refine ⟨hi, (ih (h.step hi (hsocket i List.mem_cons_self)) hrest).1 ?_⟩
        intro js hjs
        have hnext := hall (i :: js) (List.cons_prefix_cons.2 ⟨rfl, hjs⟩)
        rwa [udpSources_cons, ← List.append_assoc] at hnext
      · rintro ⟨hi, hsteps⟩ js hjs
        have hnext := h.step (e := e) hi (hsocket i List.mem_cons_self)
        rcases List.prefix_cons_iff.1 hjs with rfl | ⟨ks, rfl, hks⟩
        · simpa [udpSources] using h
        · rw [udpSources_cons, ← List.append_assoc]
          exact (ih hnext hrest).2 hsteps ks hks

theorem heardFrom_startRun (peer : RemotePeer) (ifaceAddrs : List IP)
    (discoPort : ℕ) (kernel : Kernel) :
    HeardFrom [] (startRun peer ifaceAddrs discoPort kernel) := by
  intro hdirect
  cases hdirect

/-- In a run of a machine every relayed ping or pong is harmless, and the same holds
of the statement that on a direct path the selected address is a valid one from
which a datagram of the peer has arrived, exactly when every relayed pong is handled
on a path that is direct already. The socket reports valid addresses. -/
theorem relayed_harmless_iff (e : Env) (peer : RemotePeer) (ifaceAddrs : List IP)
    (discoPort : ℕ) (kernel : Kernel) (is : List Input)
    (hsocket : ∀ i ∈ is, ∀ src, i.event.udpFrom = some src → src.addr.isValid) :
    (EachStep (step e) (RelayedHarmless e)
        (startRun peer ifaceAddrs discoPort kernel) is ↔
      EachStep (step e) RelayedPongDirect
        (startRun peer ifaceAddrs discoPort kernel) is) ∧
    ((∀ js, js <+: is → HeardFrom (udpSources js)
        (js.foldl (step e) (startRun peer ifaceAddrs discoPort kernel))) ↔
      EachStep (step e) RelayedPongDirect
        (startRun peer ifaceAddrs discoPort kernel) is) := by
  constructor
  · rw [funext fun w => funext fun i => propext (relayedHarmless_iff e w i)]
  · exact heardFrom_run_iff (heardFrom_startRun peer ifaceAddrs discoPort kernel)
      hsocket

def relayedPong : Body where
  type := .pong
  tx := "0"

def freshStart : World :=
  startRun samplePeer [[192, 168, 1, 10]] 4000 ⟨∅, ∅, ∅⟩

/-- A pong arrives on the socket, and then one over the coordinator. -/
def directFirst : List Input :=
  [sampleInput (.udp ⟨.v4 0xc0000201, 4000⟩ relayedPong),
    sampleInput (.signal relayedPong)]

theorem relayed_harmless_directFirst :
    (directFirst.foldl (step sampleEnv) freshStart).fsm.winning =
        ⟨.v4 0xc0000201, 4000⟩ ∧
      EachStep (step sampleEnv) (RelayedHarmless sampleEnv) freshStart directFirst ∧
      ∀ js, js <+: directFirst →
        HeardFrom (udpSources js) (js.foldl (step sampleEnv) freshStart) := by
  have h := relayed_harmless_iff sampleEnv samplePeer [[192, 168, 1, 10]] 4000
    ⟨∅, ∅, ∅⟩ directFirst (by decide)
  have hcond : EachStep (step sampleEnv) RelayedPongDirect freshStart directFirst := by
    refine ⟨?_, fun body _ _ => by decide +kernel, trivial⟩
    intro body hev
    cases hev
  exact ⟨by decide +kernel, h.1.2 hcond, h.2.2 hcond⟩

/-- One relayed pong and nothing else: the machine is direct, and the address it
selects is no address. -/
theorem relayedPong_not_harmless :
    let w := step sampleEnv freshStart (sampleInput (.signal relayedPong))
    freshStart.fsm.state = .unknown ∧ w.fsm.state = .direct ∧
      w.fsm.winning = AddrPort.zero ∧ w.fsm.winning.addr.isValid = false ∧
      udpSources [sampleInput (.signal relayedPong)] = [] := by
  decide +kernel

end Daemon

end Gretun
