import Gretun.Daemon.Mailbox
import Gretun.Daemon.Messages

/-!
# What a machine sends, and to whom

The log of a machine is compared with the events it has handled. The log has the calls of
`sendDisco`; what leaves the socket are the `datagrams`, since a call may fail and nobody
is told. A pong goes out for every ping that came over the socket, to where it came from
and with its transaction ID, and there are no other pongs: the answer to a ping over the
coordinator is sent to the zero address, which no datagram gets to. Pings go to addresses
that the machine was told: by the coordinator, by the peer, or by a pong that came from
there. The counters count calls. `told` collects the addresses, and `Knows` is the
invariant that the machine keeps no others.
-/

namespace Gretun

namespace Daemon

open Gretun.Net
open Gretun.Disco
open Gretun.Tunnel

def Effect.call : Effect → Option (AddrPort × Body)
  | .udp dst _ body => some (dst, body)
  | _ => none

def pingTo (x : AddrPort × Body) : Option AddrPort :=
  if x.2.type = .ping then some x.1 else none

def pongTo (x : AddrPort × Body) : Option (AddrPort × String) :=
  if x.2.type = .pong then some (x.1, x.2.tx) else none

def sendCalls (log : List Effect) : List (AddrPort × Body) := log.filterMap Effect.call

def Effect.pingTo (x : Effect) : Option AddrPort := x.call.bind Daemon.pingTo

def Effect.pongTo (x : Effect) : Option (AddrPort × String) := x.call.bind Daemon.pongTo

/-- What becomes of a call of `sendDisco`: `BuildEnvelope` fails, `WriteTo` fails, or the
datagram goes out. -/
inductive SendFate where
  | notBuilt
  | notWritten
  | written
  deriving DecidableEq

/-- What leaves the socket, when the `n`-th call of `sendDisco` has the fate `fate n`. The
kernel takes no datagram to port 0, and so none to the zero address. -/
def datagrams (fate : ℕ → SendFate) : List (AddrPort × Body) → List (AddrPort × Body)
  | [] => []
  | x :: calls =>
      if fate 0 = .written ∧ x.1.port ≠ 0 then x :: datagrams (fun n => fate (n + 1)) calls
      else datagrams (fun n => fate (n + 1)) calls

namespace Effect

@[simp] theorem pingTo_udp (dst : AddrPort) (key : Key) (body : Body) :
    pingTo (.udp dst key body) = if body.type = .ping then some dst else none := rfl

@[simp] theorem pongTo_udp (dst : AddrPort) (key : Key) (body : Body) :
    pongTo (.udp dst key body) = if body.type = .pong then some (dst, body.tx) else none :=
  rfl

@[simp] theorem to_pingSent : pingTo .pingSent = none ∧ pongTo .pingSent = none :=
  ⟨rfl, rfl⟩

@[simp] theorem to_pongRecv : pingTo .pongRecv = none ∧ pongTo .pongRecv = none :=
  ⟨rfl, rfl⟩

@[simp] theorem to_holePunch (d : Duration) :
    pingTo (.holePunch d) = none ∧ pongTo (.holePunch d) = none := ⟨rfl, rfl⟩

end Effect

/-- The source of a ping that came over the socket, and its transaction ID. -/
def Event.pingFrom : Event → Option (AddrPort × String)
  | .udp src body => if body.type = .ping then some (src, body.tx) else none
  | _ => none

/-- Where a ping is answered to: one over the coordinator, to the zero address. -/
def Event.answer : Event → Option (AddrPort × String)
  | .udp src body => if body.type = .ping then some (src, body.tx) else none
  | .signal body => if body.type = .ping then some (AddrPort.zero, body.tx) else none
  | _ => none

/-- The addresses that an event tells. A pong tells where it came from, but not when it
came over the coordinator. -/
def Event.tells (e : Env) : Event → List AddrPort
  | .setPeer peer => peer.endpoints.map (·.addr)
  | .udp src body =>
      match body.type with
      | .pong => [src]
      | .callMeMaybe => body.endpoints.filterMap e.parseAddrPort
      | _ => []
  | .signal body =>
      if body.type = .callMeMaybe then body.endpoints.filterMap e.parseAddrPort else []
  | _ => []

def told (e : Env) (peer : RemotePeer) (is : List Input) : List AddrPort :=
  peer.endpoints.map (·.addr) ++ is.flatMap (·.event.tells e)

theorem told_concat (e : Env) (peer : RemotePeer) (is : List Input) (i : Input) :
    told e peer (is ++ [i]) = told e peer is ++ i.event.tells e := by
  simp [told]

/-! ## The addresses a machine knows -/

structure Knows (addrs : List AddrPort) (w : World) : Prop where
  endpoints : ∀ ep ∈ w.fsm.peer.endpoints, ep.addr ∈ addrs
  winning : w.fsm.state = .direct → w.fsm.winning ∈ addrs ∨ w.fsm.winning = AddrPort.zero

theorem mem_absorbEndpoints {e : Env} {texts : List String} {w : World}
    {ep : RemoteEndpoint} (h : ep ∈ (absorbEndpoints e texts w).fsm.peer.endpoints) :
    ep ∈ w.fsm.peer.endpoints ∨ ep.addr ∈ texts.filterMap e.parseAddrPort := by
  revert h
  refine List.foldlRecOn (motive := fun eps : List RemoteEndpoint => ep ∈ eps →
    ep ∈ w.fsm.peer.endpoints ∨ ep.addr ∈ texts.filterMap e.parseAddrPort)
    texts _ Or.inl ?_
  intro eps heps s hs hep
  cases hparse : e.parseAddrPort s with
  | none =>
      rw [hparse] at hep
      exact heps hep
  | some ap =>
      simp only [hparse] at hep
      split at hep
      · exact heps hep
      · rcases List.mem_append.1 hep with hep | hep
        · exact heps hep
        · rw [List.mem_singleton.1 hep]
          exact Or.inr (List.mem_filterMap.2 ⟨s, hs, hparse⟩)

theorem endpoints_onDiscoUDP {e : Env} {i : Input} {src : AddrPort} {body : Body}
    {w : World} {ep : RemoteEndpoint}
    (h : ep ∈ (onDiscoUDP e i src body w).fsm.peer.endpoints) :
    ep ∈ w.fsm.peer.endpoints ∨
      body.type = .callMeMaybe ∧ ep.addr ∈ body.endpoints.filterMap e.parseAddrPort := by
  unfold onDiscoUDP at h
  cases htype : body.type with
  | ping =>
      rw [htype] at h
      exact Or.inl h
  | pong =>
      simp only [htype] at h
      rw [onPong_peer] at h
      exact Or.inl h
  | callMeMaybe =>
      simp only [htype] at h
      rw [onPeerUpdate_peer] at h
      exact (mem_absorbEndpoints h).imp id fun hep => ⟨rfl, hep⟩
  | other t =>
      rw [htype] at h
      exact Or.inl h

/-- The endpoints of a machine after a step are those it had and those it was told. -/
theorem endpoints_step {e : Env} {w : World} {i : Input} {ep : RemoteEndpoint}
    (h : ep ∈ (step e w i).fsm.peer.endpoints) :
    ep ∈ w.fsm.peer.endpoints ∨ ep.addr ∈ i.event.tells e := by
  unfold step at h
  cases hev : i.event with
  | setPeer peer =>
      rw [hev] at h
      exact Or.inr (List.mem_map_of_mem h)
  | update =>
      simp only [hev, onPeerUpdate_peer] at h
      exact Or.inl h
  | udp src body =>
      simp only [hev] at h
      refine (endpoints_onDiscoUDP h).imp id fun ⟨htype, hep⟩ => ?_
      rwa [Event.tells, htype]
  | signal body =>
      simp only [hev] at h
      refine (endpoints_onDiscoUDP h).imp id fun ⟨htype, hep⟩ => ?_
      rwa [Event.tells, if_pos htype]
  | tick =>
      simp only [hev, tickPunch] at h
      split at h
      · exact Or.inl h
      · split at h
        · exact Or.inl h
        · rw [pingAll_fsm] at h
          exact Or.inl h
  | keepalive =>
      simp only [hev, keepalive] at h
      split at h
      · exact Or.inl h
      · split at h
        · exact Or.inl h
        · rw [sendPing_fsm] at h
          exact Or.inl h

theorem mem_tells_of_pongFrom {e : Env} {ev : Event} {src : AddrPort}
    (h : ev.pongFrom = some src) : src ∈ ev.tells e ∨ src = AddrPort.zero := by
  rcases Event.pongFrom_eq_some.1 h with ⟨body, rfl, hpong⟩ | ⟨body, rfl, hpong, rfl⟩
  · exact Or.inl (by simp [Event.tells, hpong])
  · exact Or.inr rfl

theorem Knows.step {e : Env} {addrs : List AddrPort} {w : World} (h : Knows addrs w)
    (i : Input) : Knows (addrs ++ i.event.tells e) (step e w i) := by
  refine ⟨fun ep hep => ?_, fun hdirect => ?_⟩
  · rcases endpoints_step hep with hold | htold
    · exact List.mem_append_left _ (h.endpoints ep hold)
    · exact List.mem_append_right _ htold
  · cases hpong : i.event.pongFrom with
    | none =>
        rw [(step_sameTunnel e w i hpong).winning]
        exact (h.winning (direct_of_step_direct hpong hdirect)).imp
          (List.mem_append_left _) id
    | some src =>
        rw [step_of_pongFrom e w i hpong]
        by_cases hstate : w.fsm.state = .direct
        · rw [(onPong_of_direct e i src hstate).1.winning]
          exact (h.winning hstate).imp (List.mem_append_left _) id
        · obtain ⟨w', heq, hw'⟩ := onPong_selects e i src hstate
          rw [heq, bringUpTunnel_fsm, hw'.winning]
          exact (mem_tells_of_pongFrom hpong).imp (List.mem_append_right _) id

/-! ## The log -/

/-- The log of a list of pings, the first with the transaction ID number `n`. -/
def pingLog (e : Env) (key : Key) : ℕ → List AddrPort → List Effect
  | _, [] => []
  | n, dst :: dsts =>
      .udp dst key { type := .ping, tx := e.newTxID n, nodeKey := e.deps.selfNode } ::
        (if e.deps.metrics then [.pingSent] else []) ++ pingLog e key (n + 1) dsts

theorem effects_pingAll (e : Env) (dsts : List AddrPort) (w : World) :
    (pingAll e dsts w).effects =
      w.effects ++ pingLog e w.fsm.peer.discoKey w.txs dsts := by
  induction dsts generalizing w with
  | nil => exact (List.append_nil _).symm
  | cons dst dsts ih =>
      change (pingAll e dsts (sendPing e dst w)).effects = _
      rw [ih, sendPing_fsm, sendPing_txs, pingLog]
      simp [sendPing, record_effects, sendDisco, World.emit]

theorem pingTo_pingLog (e : Env) (key : Key) (n : ℕ) (dsts : List AddrPort) :
    (pingLog e key n dsts).filterMap Effect.pingTo = dsts := by
  induction dsts generalizing n with
  | nil => rfl
  | cons dst dsts ih =>
      rw [pingLog]
      cases e.deps.metrics <;> simp [ih]

theorem pongTo_pingLog (e : Env) (key : Key) (n : ℕ) (dsts : List AddrPort) :
    (pingLog e key n dsts).filterMap Effect.pongTo = [] := by
  induction dsts generalizing n with
  | nil => rfl
  | cons dst dsts ih =>
      rw [pingLog]
      cases e.deps.metrics <;> simp [ih]

theorem count_pingLog (e : Env) (key : Key) (n : ℕ) (dsts : List AddrPort) :
    (pingLog e key n dsts).count .pingSent = (if e.deps.metrics then dsts.length else 0) ∧
      (pingLog e key n dsts).count .pongRecv = 0 := by
  induction dsts generalizing n with
  | nil => simp [pingLog]
  | cons dst dsts ih =>
      rw [pingLog]
      obtain ⟨hsent, hrecv⟩ := ih (n + 1)
      cases hmetrics : e.deps.metrics <;> simp_all

structure Logged (e : Env) (w : World) (ev : Event) (xs : List Effect) : Prop where
  pongs : xs.filterMap Effect.pongTo = ev.answer.toList
  pings : ∀ dst ∈ xs.filterMap Effect.pingTo,
    dst ∈ w.fsm.peer.endpoints.map (·.addr) ∨ w.fsm.state = .direct ∧ dst = w.fsm.winning
  pingSent : xs.count .pingSent =
    if e.deps.metrics then (xs.filterMap Effect.pingTo).length else 0
  pongRecv : xs.count .pongRecv =
    if e.deps.metrics then ev.pongFrom.toList.length else 0

theorem logged_nil {e : Env} {w : World} {ev : Event} (hping : ev.answer = none)
    (hpong : ev.pongFrom = none) : Logged e w ev [] := by
  refine ⟨?_, by simp, by simp, ?_⟩
  · rw [hping]
    rfl
  · rw [hpong]
    simp

theorem logged_pingLog {e : Env} {w : World} {ev : Event} (hping : ev.answer = none)
    (hpong : ev.pongFrom = none) (key : Key) (n : ℕ) (dsts : List AddrPort)
    (hdsts : ∀ dst ∈ dsts, dst ∈ w.fsm.peer.endpoints.map (·.addr) ∨
      w.fsm.state = .direct ∧ dst = w.fsm.winning) :
    Logged e w ev (pingLog e key n dsts) where
  pongs := by
    rw [pongTo_pingLog, hping]
    rfl
  pings := by rwa [pingTo_pingLog]
  pingSent := by rw [pingTo_pingLog, (count_pingLog e key n dsts).1]
  pongRecv := by
    rw [(count_pingLog e key n dsts).2, hpong]
    simp

theorem logged_onPong (e : Env) (i : Input) (src : AddrPort) (w : World)
    (hping : i.event.answer = none) (hpong : i.event.pongFrom = some src) :
    ∃ xs, (onPong e i src w).effects = w.effects ++ xs ∧ Logged e w i.event xs := by
  by_cases hdirect : w.fsm.state = .direct
  · refine ⟨if e.deps.metrics then [.pongRecv] else [], ?_, ?_⟩
    · simp [onPong, hdirect, record_effects]
    · cases hmetrics : e.deps.metrics <;>
        exact ⟨by simp [hping], by simp,
          by simp [hmetrics], by simp [hmetrics, hpong]⟩
  · refine ⟨(if e.deps.metrics then [.pongRecv] else []) ++
      if e.deps.metrics && !w.fsm.punchStart.isZero then
        [.holePunch (Time.sub (e.clock (w.reads + 1)) w.fsm.punchStart)]
      else [], ?_, ?_⟩
    · rw [onPong_of_ne_direct e i src hdirect, onPongNew_effects, record_effects,
        record_fsm, record_reads, List.append_assoc]
    · cases hmetrics : e.deps.metrics <;> cases w.fsm.punchStart.isZero <;>
        exact ⟨by simp [hping], by simp,
          by simp [hmetrics], by simp [hmetrics, hpong]⟩

theorem logged_onDiscoUDP (e : Env) (i : Input) (src : AddrPort) (body : Body) (w : World)
    (hping : i.event.answer = if body.type = .ping then some (src, body.tx) else none)
    (hpong : i.event.pongFrom = if body.type = .pong then some src else none) :
    ∃ xs, (onDiscoUDP e i src body w).effects = w.effects ++ xs ∧
      Logged e w i.event xs := by
  unfold onDiscoUDP
  cases htype : body.type with
  | ping =>
      rw [htype] at hping hpong
      refine ⟨_, rfl, ?_, ?_, ?_, ?_⟩
      · simp [hping]
      · simp
      · simp
      · simp [hpong]
  | pong =>
      rw [htype] at hping hpong
      exact logged_onPong e i src w hping hpong
  | callMeMaybe =>
      rw [htype] at hping hpong
      refine ⟨[], ?_, logged_nil hping hpong⟩
      rw [(onPeerUpdate_effects e (absorbEndpoints e body.endpoints w)).1, List.append_nil]
      rfl
  | other t =>
      rw [htype] at hping hpong
      exact ⟨[], (List.append_nil _).symm, logged_nil hping hpong⟩

theorem logged_step (e : Env) (w : World) (i : Input) :
    ∃ xs, (step e w i).effects = w.effects ++ xs ∧ Logged e w i.event xs := by
  have hquiet : i.event.answer = none → i.event.pongFrom = none →
      ∃ xs, w.effects = w.effects ++ xs ∧ Logged e w i.event xs := fun hping hpong =>
    ⟨[], (List.append_nil _).symm, logged_nil hping hpong⟩
  unfold step
  cases hev : i.event with
  | setPeer peer =>
      rw [hev] at hquiet
      exact hquiet rfl rfl
  | update =>
      rw [hev] at hquiet
      simp only [(onPeerUpdate_effects e w).1]
      exact hquiet rfl rfl
  | udp src body =>
      have hlogged := logged_onDiscoUDP e i src body w (by rw [hev]; rfl) (by rw [hev]; rfl)
      rwa [hev] at hlogged
  | signal body =>
      have hlogged := logged_onDiscoUDP e i AddrPort.zero body w (by rw [hev]; rfl)
        (by rw [hev]; rfl)
      rwa [hev] at hlogged
  | tick =>
      rw [hev] at hquiet
      simp only [tickPunch]
      split
      · exact hquiet rfl rfl
      · split
        · exact hquiet rfl rfl
        · rw [effects_pingAll]
          exact ⟨_, rfl, logged_pingLog rfl rfl _ _ _ fun dst hdst => Or.inl hdst⟩
  | keepalive =>
      rw [hev] at hquiet
      simp only [keepalive]
      split
      · exact hquiet rfl rfl
      · rename_i hdirect
        split
        · exact hquiet rfl rfl
        · refine ⟨_, effects_pingAll e [w.fsm.winning] _, logged_pingLog rfl rfl _ _ _ ?_⟩
          intro dst hdst
          exact Or.inr ⟨not_not.1 hdirect, List.mem_singleton.1 hdst⟩

/-! ## Every run -/

structure Calls (e : Env) (peer : RemotePeer) (is : List Input) (log : List Effect) :
    Prop where
  pongs : log.filterMap Effect.pongTo = is.filterMap (·.event.answer)
  pings : ∀ dst ∈ log.filterMap Effect.pingTo, dst ∈ told e peer is ∨ dst = AddrPort.zero
  pingSent : log.count .pingSent =
    if e.deps.metrics then (log.filterMap Effect.pingTo).length else 0
  pongRecv : log.count .pongRecv =
    if e.deps.metrics then (is.filterMap (·.event.pongFrom)).length else 0

theorem Calls.step {e : Env} {peer : RemotePeer} {is : List Input} {w : World}
    (h : Calls e peer is w.effects) (hknows : Knows (told e peer is) w) (i : Input) :
    Calls e peer (is ++ [i]) (step e w i).effects := by
  obtain ⟨xs, heffects, hlogged⟩ := logged_step e w i
  rw [heffects]
  refine ⟨?_, fun dst hdst => ?_, ?_, ?_⟩
  · rw [List.filterMap_append, List.filterMap_append, h.pongs, hlogged.pongs]
    cases hi : i.event.answer <;> simp [hi]
  · rw [told_concat]
    refine Or.imp (List.mem_append_left _) id ?_
    rw [List.filterMap_append] at hdst
    rcases List.mem_append.1 hdst with hold | hnew
    · exact h.pings dst hold
    · rcases hlogged.pings dst hnew with hep | ⟨hdirect, rfl⟩
      · obtain ⟨ep, hmem, rfl⟩ := List.mem_map.1 hep
        exact Or.inl (hknows.endpoints ep hmem)
      · exact hknows.winning hdirect
  · rw [List.count_append, h.pingSent, hlogged.pingSent, List.filterMap_append,
      List.length_append]
    split <;> rfl
  · rw [List.count_append, h.pongRecv, hlogged.pongRecv, List.filterMap_append,
      List.length_append]
    cases hi : i.event.pongFrom <;> split <;> simp [hi]

theorem calls_run (e : Env) (peer : RemotePeer) (ifaceAddrs : List IP) (discoPort : ℕ)
    (kernel : Kernel) (is : List Input) :
    Calls e peer is
      (is.foldl (step e) (startRun peer ifaceAddrs discoPort kernel)).effects := by
  have hrun : Calls e peer is
        (is.foldl (step e) (startRun peer ifaceAddrs discoPort kernel)).effects ∧
      Knows (told e peer is)
        (is.foldl (step e) (startRun peer ifaceAddrs discoPort kernel)) := by
    induction is using List.reverseRecOn with
    | nil =>
        refine ⟨⟨rfl, fun dst hdst => ?_, ?_, ?_⟩, fun ep hep => ?_, fun hdirect => ?_⟩
        · cases hdst
        · cases e.deps.metrics <;> rfl
        · cases e.deps.metrics <;> rfl
        · exact List.mem_append_left _ (List.mem_map_of_mem hep)
        · cases hdirect
    | append_singleton is i ih =>
        rw [List.foldl_append]
        refine ⟨ih.1.step ih.2 i, ?_⟩
        rw [told_concat]
        exact ih.2.step i
  exact hrun.1

/-! ## What leaves the socket -/

theorem datagrams_sublist (fate : ℕ → SendFate) (calls : List (AddrPort × Body)) :
    (datagrams fate calls).Sublist (calls.filter fun x => x.1.port ≠ 0) := by
  induction calls generalizing fate with
  | nil => exact List.Sublist.slnil
  | cons x calls ih =>
      rw [datagrams, List.filter_cons]
      split
      · rename_i hout
        rw [if_pos (by simpa using hout.2)]
        exact (ih _).cons_cons x
      · split
        · exact (ih _).cons x
        · exact ih _

/-- When no call fails, all that has a port to go to gets out. -/
theorem datagrams_of_written {fate : ℕ → SendFate} (h : ∀ n, fate n = .written)
    (calls : List (AddrPort × Body)) :
    datagrams fate calls = calls.filter fun x => x.1.port ≠ 0 := by
  induction calls generalizing fate with
  | nil => rfl
  | cons x calls ih =>
      rw [datagrams, List.filter_cons, ih fun n => h (n + 1)]
      simp [h 0]

theorem filterMap_pongTo_filter (calls : List (AddrPort × Body)) :
    (calls.filter fun x => x.1.port ≠ 0).filterMap pongTo =
      (calls.filterMap pongTo).filter fun x => x.1.port ≠ 0 := by
  rw [List.filterMap_filter, List.filter_filterMap]
  refine List.filterMap_congr fun x _ => ?_
  unfold pongTo
  by_cases hpong : x.2.type = .pong <;> by_cases hport : x.1.port = 0#16 <;>
    simp [hpong, hport, Option.filter]

theorem filter_answer (is : List Input) :
    (is.filterMap (·.event.answer)).filter (fun x => x.1.port ≠ 0) =
      (is.filterMap (·.event.pingFrom)).filter fun x => x.1.port ≠ 0 := by
  rw [List.filter_filterMap, List.filter_filterMap]
  refine List.filterMap_congr fun i _ => ?_
  cases i.event with
  | signal body =>
      simp only [Event.answer, Event.pingFrom]
      split <;> rfl
  | _ => rfl

structure Traffic (e : Env) (peer : RemotePeer) (is : List Input) (log : List Effect) :
    Prop where
  answers : (sendCalls log).filterMap pongTo = is.filterMap (·.event.answer)
  pongs : ∀ fate, ((datagrams fate (sendCalls log)).filterMap pongTo).Sublist
    (is.filterMap (·.event.pingFrom))
  answered : ∀ fate : ℕ → SendFate, (∀ n, fate n = .written) →
    (datagrams fate (sendCalls log)).filterMap pongTo =
      (is.filterMap (·.event.pingFrom)).filter fun x => x.1.port ≠ 0
  pings : ∀ fate, ∀ dst ∈ (datagrams fate (sendCalls log)).filterMap pingTo,
    dst ∈ told e peer is
  pingSent : log.count .pingSent =
    if e.deps.metrics then ((sendCalls log).filterMap pingTo).length else 0
  pongRecv : log.count .pongRecv =
    if e.deps.metrics then (is.filterMap (·.event.pongFrom)).length else 0

/-- The traffic of every run. Each ping that is handled makes one call of `sendPong`, with
its transaction ID and to where it came from, or to the zero address when it came over the
coordinator. The pongs that get out are answers to pings that came over the socket, each
at most once, and to all of them, if no call fails, but for those from port 0. Pings get
only to addresses that the machine was told before. The counters are the numbers of calls
of `sendPing`, whatever became of them, and of the pongs that were handled. -/
theorem traffic_run (e : Env) (peer : RemotePeer) (ifaceAddrs : List IP) (discoPort : ℕ)
    (kernel : Kernel) (is : List Input) :
    Traffic e peer is
      (is.foldl (step e) (startRun peer ifaceAddrs discoPort kernel)).effects := by
  generalize hlog :
    (is.foldl (step e) (startRun peer ifaceAddrs discoPort kernel)).effects = log
  obtain ⟨hpongs, hpings, hsent, hrecv⟩ :=
    hlog ▸ calls_run e peer ifaceAddrs discoPort kernel is
  have hanswers : (sendCalls log).filterMap pongTo = is.filterMap (·.event.answer) := by
    rw [sendCalls, List.filterMap_filterMap]
    exact hpongs
  have hcalls : (sendCalls log).filterMap pingTo = log.filterMap Effect.pingTo :=
    List.filterMap_filterMap
  refine ⟨hanswers, fun fate => ?_, fun fate hfate => ?_, fun fate dst hdst => ?_, ?_,
    hrecv⟩
  · refine ((datagrams_sublist fate _).filterMap pongTo).trans ?_
    rw [filterMap_pongTo_filter, hanswers, filter_answer]
    exact List.filter_sublist
  · rw [datagrams_of_written hfate, filterMap_pongTo_filter, hanswers, filter_answer]
  · obtain ⟨x, hx, hping⟩ := List.mem_filterMap.1 hdst
    obtain ⟨hcall, hport⟩ := List.mem_filter.1 ((datagrams_sublist fate _).subset hx)
    have hmem : dst ∈ log.filterMap Effect.pingTo := by
      rw [← hcalls]
      exact List.mem_filterMap.2 ⟨x, hcall, hping⟩
    refine (hpings dst hmem).resolve_right fun hzero => ?_
    unfold pingTo at hping
    split at hping
    · rw [Option.some.inj hping, hzero] at hport
      cases hport
    · cases hping
  · rw [hcalls]
    exact hsent

end Daemon

end Gretun
