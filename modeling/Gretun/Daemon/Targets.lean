import Gretun.Daemon.Absorb
import Gretun.Daemon.BringUp
import Gretun.Daemon.Traffic
import Gretun.Net.ParseAddrPort

/-!
# Where a machine punches

While it punches, a machine pings a set of addresses. The set is what the coordinator
listed for the peer when the snapshot was last stored, together with the addresses of
every call_me_maybe since then. `targets` computes it from the events alone.

A node writes the addresses of its interfaces into the call_me_maybe that each of its
machines sends when it starts. They are read back as they were written, so the machine
at the other end pings all of them until the next snapshot takes their place.
-/

namespace Gretun

namespace Daemon

open Gretun.Net
open Gretun.Disco
open Gretun.Tunnel
open Foundation.Union

/-! ## The addresses of a node -/

/-- The IPv4 addresses of the interfaces, loopback left out, with the port of the disco
socket. -/
def localAddrPorts (ifaceAddrs : List IP) (port : Port) : List AddrPort :=
  ((ifaceAddrs.filterMap IP.to4).filter fun v4 => !v4.isLoopback).map fun v4 =>
    ⟨v4.addrFromSlice, port⟩

theorem parseAddrPort_ipString {v4 : IP} (h : v4.length = 4) (port : Port) :
    parseAddrPort (v4.string ++ ":" ++ toString port.toNat) =
      some ⟨v4.addrFromSlice, port⟩ := by
  have hne : v4 ≠ [] := by
    rintro rfl
    cases h
  have hto4 : v4.to4 = some v4 := if_pos h
  have haddr : v4.addrFromSlice = .v4 (BitVec.ofNat 32 (IP.toNat v4)) := if_pos h
  have hstring : v4.string = string4 (BitVec.ofNat 32 (IP.toNat v4)) := by
    rw [IP.string, if_neg hne, hto4]
    simp only [haddr, Addr.string]
  rw [hstring, haddr, parseAddrPort_string4]

/-- A node's addresses survive the way into a message and out of it. -/
theorem filterMap_gatherLocalAddrPorts (ifaceAddrs : List IP) (port : Port) :
    (gatherLocalAddrPorts ifaceAddrs port.toNat).filterMap parseAddrPort =
      localAddrPorts ifaceAddrs port := by
  rw [gatherLocalAddrPorts, localAddrPorts, List.filterMap_filterMap,
    ← List.filterMap_eq_map, List.filterMap_filter]
  refine List.filterMap_congr fun v4 hv4 => ?_
  obtain ⟨ip, -, hip⟩ := List.mem_filterMap.1 hv4
  cases v4.isLoopback with
  | true => rfl
  | false => exact parseAddrPort_ipString (length_of_to4 hip) port

/-! ## The set of a machine -/

def retargetBy (e : Env) (body : Body) (s : Finset AddrPort) : Finset AddrPort :=
  if body.type = .callMeMaybe then s ∪ (body.endpoints.filterMap e.parseAddrPort).toFinset
  else s

def Event.retarget (e : Env) (s : Finset AddrPort) : Event → Finset AddrPort
  | .setPeer peer => (peer.endpoints.map (·.addr)).toFinset
  | .udp _ body => retargetBy e body s
  | .signal body => retargetBy e body s
  | .update => s
  | .tick => s
  | .keepalive => s

/-- The set after a run, for a machine that starts with the snapshot `peer`. -/
def targets (e : Env) (peer : RemotePeer) (is : List Input) : Finset AddrPort :=
  is.foldl (fun s i => i.event.retarget e s) (peer.endpoints.map (·.addr)).toFinset

def World.known (w : World) : Finset AddrPort := (w.fsm.peer.endpoints.map (·.addr)).toFinset

theorem known_of_peer {w w' : World} (h : w'.fsm.peer = w.fsm.peer) : w'.known = w.known := by
  rw [World.known, h, World.known]

theorem known_absorbEndpoints (e : Env) (texts : List String) (w : World) :
    (absorbEndpoints e texts w).known =
      w.known ∪ (texts.filterMap e.parseAddrPort).toFinset := by
  rw [World.known, absorbEndpoints_endpoints, toFinset_foldl_appendNew fun _ => rfl,
    World.known]

theorem known_onDiscoUDP (e : Env) (i : Input) (src : AddrPort) (body : Body) (w : World) :
    (onDiscoUDP e i src body w).known = retargetBy e body w.known := by
  unfold onDiscoUDP retargetBy
  cases htype : body.type with
  | ping => exact known_of_peer rfl
  | pong => exact known_of_peer (onPong_peer e i src w)
  | callMeMaybe =>
      rw [if_pos rfl, ← known_absorbEndpoints]
      exact known_of_peer (onPeerUpdate_peer e _)
  | other t => exact known_of_peer rfl

theorem known_step (e : Env) (w : World) (i : Input) :
    (step e w i).known = i.event.retarget e w.known := by
  unfold step
  cases i.event with
  | setPeer peer => rfl
  | update => exact known_of_peer (onPeerUpdate_peer e w)
  | udp src body => exact known_onDiscoUDP e i src body w
  | signal body => exact known_onDiscoUDP e i AddrPort.zero body w
  | tick =>
      refine known_of_peer ?_
      simp only [tickPunch]
      split
      · rfl
      · split
        · rfl
        · rw [pingAll_fsm]
  | keepalive =>
      refine known_of_peer ?_
      simp only [keepalive]
      split
      · rfl
      · split
        · rfl
        · rw [sendPing_fsm]

theorem known_run (e : Env) (peer : RemotePeer) (ifaceAddrs : List IP) (discoPort : ℕ)
    (kernel : Kernel) (is : List Input) :
    (is.foldl (step e) (startRun peer ifaceAddrs discoPort kernel)).known =
      targets e peer is :=
  (List.foldl_hom World.known fun w i => (known_step e w i).symm).symm

/-! ## Every tick -/

/-- A tick pings the addresses in the snapshot while the machine punches and its deadline
has not passed, and nobody otherwise. -/
theorem pings_of_tick (e : Env) (w : World) {i : Input} (hi : i.event = .tick) :
    ∃ xs, (step e w i).effects = w.effects ++ xs ∧
      xs.filterMap Effect.pingTo =
        if w.fsm.state = .punching ∧ e.clock w.reads ≤ w.punchDeadline then
          w.fsm.peer.endpoints.map (·.addr)
        else [] := by
  unfold step
  rw [hi]
  simp only [tickPunch]
  split
  · rename_i hstate
    exact ⟨[], (List.append_nil _).symm, by simp [hstate]⟩
  · rename_i hstate
    rw [not_not] at hstate
    split
    · rename_i hlate
      have hearly : ¬ e.clock w.reads ≤ w.punchDeadline := not_le.2 hlate
      exact ⟨[], (List.append_nil _).symm, by simp [hearly]⟩
    · rename_i hearly
      refine ⟨_, effects_pingAll .., ?_⟩
      rw [pingTo_pingLog, if_pos ⟨hstate, not_lt.1 hearly⟩]

theorem retarget_mono {e : Env} {s : Finset AddrPort} {ev : Event}
    (hev : ∀ peer, ev ≠ .setPeer peer) : s ⊆ ev.retarget e s := by
  have hbody : ∀ body, s ⊆ retargetBy e body s := by
    intro body
    unfold retargetBy
    split
    · exact Finset.subset_union_left
    · exact subset_rfl
  cases ev with
  | setPeer peer => exact absurd rfl (hev peer)
  | udp src body => exact hbody body
  | signal body => exact hbody body
  | update => exact subset_rfl
  | tick => exact subset_rfl
  | keepalive => exact subset_rfl

/-- Until the next snapshot addresses are only added. -/
theorem targets_mono {e : Env} {peer : RemotePeer} (is : List Input) {js : List Input}
    (hjs : ∀ j ∈ js, ∀ p, j.event ≠ .setPeer p) :
    targets e peer is ⊆ targets e peer (is ++ js) := by
  rw [targets, targets, List.foldl_append]
  refine List.foldlRecOn (motive := fun s => targets e peer is ⊆ s) js _ subset_rfl ?_
  intro s hs j hj
  exact hs.trans (retarget_mono (hjs j hj))

theorem signal_of_startRun {peer : RemotePeer} {ifaceAddrs : List IP} {port : ℕ}
    {kernel : Kernel} {recipient : Key} {body : Body}
    (h : .signal recipient body ∈ (startRun peer ifaceAddrs port kernel).effects) :
    body = { type := .callMeMaybe, endpoints := gatherLocalAddrPorts ifaceAddrs port } := by
  simp only [startRun, sendCallMeMaybe, World.emit, List.nil_append, List.mem_singleton,
    Effect.signal.injEq] at h
  exact h.2

theorem localAddrPorts_subset_targets {e : Env} (hparse : e.parseAddrPort = parseAddrPort)
    (peer : RemotePeer) (is : List Input) {call : Input} {ifaceAddrs : List IP}
    {port : Port}
    (hcall : call.event = .signal
      { type := .callMeMaybe, endpoints := gatherLocalAddrPorts ifaceAddrs port.toNat }) :
    (localAddrPorts ifaceAddrs port).toFinset ⊆ targets e peer (is ++ [call]) := by
  have htargets : targets e peer (is ++ [call]) =
      call.event.retarget e (targets e peer is) := by
    rw [targets, List.foldl_append]
    rfl
  rw [htargets, hcall, Event.retarget, retargetBy, if_pos rfl, hparse,
    filterMap_gatherLocalAddrPorts]
  exact Finset.subset_union_right

/-- The addresses of a node are punched. Let a machine receive the call_me_maybe that a
machine of another node sent when it started, after any run, and let any events follow
but no new snapshot. Then the IPv4 addresses of that node's interfaces other than loopback
ones, with the port of its disco socket, are among those that the machine punches; and a
tick pings the addresses that it punches and no others, if the machine punches and its
deadline has not passed, and nobody if not. -/
theorem callMeMaybe_pinged {e : Env} (hparse : e.parseAddrPort = parseAddrPort)
    (peer : RemotePeer) (ifaceAddrs : List IP) (discoPort : ℕ) (kernel : Kernel)
    {peer' : RemotePeer} {ifaceAddrs' : List IP} {port' : Port} {kernel' : Kernel}
    {recipient : Key} {body : Body}
    (hsent : .signal recipient body ∈
      (startRun peer' ifaceAddrs' port'.toNat kernel').effects)
    (is js : List Input) {call : Input} (hcall : call.event = .signal body)
    (hjs : ∀ j ∈ js, ∀ p, j.event ≠ .setPeer p) {i : Input} (hi : i.event = .tick) :
    let w := (is ++ call :: js).foldl (step e) (startRun peer ifaceAddrs discoPort kernel)
    (localAddrPorts ifaceAddrs' port').toFinset ⊆ targets e peer (is ++ call :: js) ∧
      ∃ xs, (step e w i).effects = w.effects ++ xs ∧
        (xs.filterMap Effect.pingTo).toFinset =
          if w.fsm.state = .punching ∧ e.clock w.reads ≤ w.punchDeadline then
            targets e peer (is ++ call :: js)
          else ∅ := by
  intro w
  rw [signal_of_startRun hsent] at hcall
  refine ⟨?_, ?_⟩
  · have hsplit : is ++ call :: js = (is ++ [call]) ++ js := by simp
    rw [hsplit]
    exact (localAddrPorts_subset_targets hparse peer is hcall).trans
      (targets_mono (is ++ [call]) hjs)
  · obtain ⟨xs, heffects, hpings⟩ := pings_of_tick e w hi
    refine ⟨xs, heffects, ?_⟩
    rw [hpings, ← known_run e peer ifaceAddrs discoPort kernel]
    split <;> rfl

/-- A node at `192.168.1.11` calls a machine that knows no address of it yet; the next
tick pings it. -/
theorem callMeMaybe_pinged_sample :
    ∃ w xs, (step { sampleEnv with parseAddrPort := parseAddrPort } w
        (sampleInput .tick)).effects = w.effects ++ xs ∧
      ⟨.v4 0xc0a8010b, 4000⟩ ∈ xs.filterMap Effect.pingTo := by
  let e : Env := { sampleEnv with parseAddrPort := parseAddrPort }
  let peer : RemotePeer := { samplePeer with endpoints := [] }
  let body : Body := { type := .callMeMaybe, endpoints := ["192.168.1.11:4000"] }
  have hsent : Effect.signal samplePeer.discoKey body ∈
      (startRun samplePeer [[192, 168, 1, 11]] (4000 : Port).toNat Kernel.empty).effects := by
    decide +kernel
  have hcall : (sampleInput (.signal body)).event = .signal body := rfl
  have htick : (sampleInput .tick).event = .tick := rfl
  have hparse : e.parseAddrPort = parseAddrPort := rfl
  obtain ⟨hsubset, xs, heffects, hpings⟩ :=
    callMeMaybe_pinged hparse peer [] 0 Kernel.empty hsent [] [] hcall (by simp) htick
  refine ⟨_, xs, heffects, ?_⟩
  rw [← List.mem_toFinset, hpings, if_pos (by decide +kernel)]
  exact hsubset (by decide +kernel)

end Daemon

end Gretun
