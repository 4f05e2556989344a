import Gretun.Daemon.Pair

/-!
# Where encapsulated packets go

The far end of a link is the source address of the pong that brought it up. On a
network without address translation that is the disco socket of the other side,
so the destination port on the link is the port of that socket. It is the
configured receive port of the other side, which stays open there, just when the
two port numbers are the same.
-/

namespace Gretun

namespace Daemon

open Gretun.Net
open Gretun.Disco
open Gretun.Tunnel
open Foundation.Run
open Foundation.Command

def linkDport (k : Kernel) (name : String) : Option Port :=
  (linkEndpoint k name).map Prod.snd

/-- A datagram carries the address of its sender's disco socket. -/
def Pair.NoNat (p : Pair) (i : PairInput) : Prop :=
  ∀ n src, i.cause = .deliver n (.udp src) → src = p.disco i.side.other

/-- When pongs come from `d` or over the coordinator, the link leads to `d`. -/
theorem step_linkEndpoint {e : Env} {w : World} {i : Input} {d : AddrPort}
    (hpong : ∀ src ∈ i.event.pongFrom, src = d ∨ src = AddrPort.zero)
    (hlink : w.fsm.tunnelUp = true →
      linkEndpoint w.kernel e.deps.ifaceName = some (farEnd d)) :
    (step e w i).fsm.tunnelUp = true →
      linkEndpoint (step e w i).kernel e.deps.ifaceName = some (farEnd d) := by
  intro hup
  cases hsrc : i.event.pongFrom with
  | none =>
      have hsame := step_sameTunnel e w i hsrc
      rw [hsame.tunnelUp] at hup
      rw [hsame.kernel]
      exact hlink hup
  | some src =>
      rw [step_of_pongFrom e w i hsrc] at hup ⊢
      by_cases hdirect : w.fsm.state = .direct
      · have hsame := (onPong_of_direct e i src hdirect).1
        rw [hsame.tunnelUp] at hup
        rw [hsame.kernel]
        exact hlink hup
      · obtain ⟨w', heq, hw'⟩ := onPong_selects e i src hdirect
        rw [heq] at hup ⊢
        cases hwas : w.fsm.tunnelUp with
        | true =>
            rw [bringUpTunnel_of_up e i src (hw'.tunnelUp.trans hwas), hw'.kernel]
            exact hlink hwas
        | false =>
            have hdown := hw'.tunnelUp.trans hwas
            have hne := ne_zero_of_validateConfig
              (bringUpTunnel_valid e i src hdown hup)
            rw [bringUpTunnel_linkEndpoint e i src hdown hup]
            rcases hpong src hsrc with rfl | hzero
            · rfl
            · exact absurd hzero hne

theorem step_mem_fous {e : Env} {w : World} {i : Input} {key : ℕ × Port}
    (hkey : key ∈ w.kernel.fous) : key ∈ (step e w i).kernel.fous := by
  cases hsrc : i.event.pongFrom with
  | none =>
      rw [(step_sameTunnel e w i hsrc).kernel]
      exact hkey
  | some src =>
      rw [step_of_pongFrom e w i hsrc]
      by_cases hdirect : w.fsm.state = .direct
      · rw [(onPong_of_direct e i src hdirect).1.kernel]
        exact hkey
      · obtain ⟨w', heq, hw'⟩ := onPong_selects e i src hdirect
        rw [heq]
        exact bringUpTunnel_mem_fous e i src (hw'.kernel ▸ hkey)

/-- When `Run` goes on, the receive port is open. -/
theorem mem_fous_of_runDaemon {e : Env} {peer : RemotePeer}
    {ifaceAddrs : List IP} {discoPort : ℕ} {faults : ℕ → NlCall → Fault}
    {k : Kernel} {w : World} (hfaults : ∀ n c, faults n c ≠ some (.errno .EEXIST))
    (h : runDaemon e peer ifaceAddrs discoPort faults k = .ok w) :
    (afInet, e.deps.fouPort) ∈ w.kernel.fous ∧ w.fsm.tunnelUp = false := by
  have hwp : Prog.wp Kernel.handle (fun _ f => f ≠ some (.errno .EEXIST))
      (ensureFOU e.deps.fouPort .fou)
      (fun r k' => (∃ created, r = .ok created) →
        (afInet, e.deps.fouPort) ∈ k'.fous) k := by
    rw [ensureFOU, request, Prog.perform_bind, Prog.wp_call]
    intro f hf
    cases f with
    | some err =>
        have hne : err ≠ .errno .EEXIST := fun h => hf (by rw [h])
        simp [Kernel.failResp, hne]
    | none =>
        have hkey : (fouFor e.deps.fouPort .fou).key =
            (afInet, e.deps.fouPort) := rfl
        by_cases hopen : (afInet, e.deps.fouPort) ∈ k.fous
        · simp [Kernel.perform, Kernel.fouAdd, hkey, hopen]
        · simp [Kernel.perform, Kernel.fouAdd, hkey, hopen]
  have hrun := Prog.run_of_wp (ω := faults) hfaults hwp
  simp only [runDaemon] at h
  split at h
  · rename_i created hok
    obtain rfl := Except.ok.inj h
    exact ⟨hrun ⟨created, hok⟩, rfl⟩
  · cases h

structure DataPlaneInv (p : Pair) (s : Side) (w : World) : Prop where
  link : w.fsm.tunnelUp = true →
    linkEndpoint w.kernel (p.env s).deps.ifaceName =
      some (farEnd (p.disco s.other))
  fou : (afInet, (p.env s).deps.fouPort) ∈ w.kernel.fous

theorem Pair.Started.dataPlaneInv {p : Pair} {σ : Side → World}
    (h : p.Started σ) (s : Side) : DataPlaneInv p s (σ s) := by
  obtain ⟨peer, ifaceAddrs, faults, k, hfaults, hrun⟩ := h s
  obtain ⟨hfou, hdown⟩ := mem_fous_of_runDaemon hfaults hrun
  refine ⟨fun hup => ?_, hfou⟩
  exact absurd (hup.symm.trans hdown) (by decide)

theorem dataPlaneInv_step {p : Pair} {σ : Side → World} {i : PairInput}
    (hinv : ∀ s, DataPlaneInv p s (σ s)) (hnat : p.NoNat i) :
    ∀ s, DataPlaneInv p s (p.step σ i s) := by
  refine Pair.step_induction (I := DataPlaneInv p) hinv fun ev hev => ?_
  refine ⟨step_linkEndpoint ?_ (hinv i.side).link, step_mem_fous (hinv i.side).fou⟩
  intro src hsrc
  obtain ⟨n, via, body, hcause, -, -, hvia⟩ := Pair.event_pongFrom hev hsrc
  rcases hvia with rfl | ⟨-, hzero⟩
  · exact Or.inl (hnat n src hcause)
  · exact Or.inr hzero

/-- In every state that two daemons reach without address translation, a tunnel
that is up sends to the other side's configured receive port, which is open,
exactly when that is also the port of the other side's disco socket. -/
theorem linkDport_eq_fouPort_iff {p : Pair} {σ : Side → World}
    (hstart : p.Started σ) {is : List PairInput} (hnat : ∀ i ∈ is, p.NoNat i)
    (s : Side) (hup : (is.foldl p.step σ s).fsm.tunnelUp = true) :
    (afInet, (p.env s.other).deps.fouPort) ∈
        (is.foldl p.step σ s.other).kernel.fous ∧
      (linkDport (is.foldl p.step σ s).kernel (p.env s).deps.ifaceName =
          some (p.env s.other).deps.fouPort ↔
        (p.disco s.other).port = (p.env s.other).deps.fouPort) := by
  have hinv : ∀ s, DataPlaneInv p s (is.foldl p.step σ s) :=
    invariant_of_eachStep (I := fun σ => ∀ s, DataPlaneInv p s (σ s))
      (P := fun _ i => p.NoNat i) (fun _ _ => dataPlaneInv_step)
      hstart.dataPlaneInv (eachStep_of_forall_mem hnat σ)
  refine ⟨(hinv s.other).fou, ?_⟩
  rw [linkDport, (hinv s).link hup]
  exact Option.some_inj

/-! ## A run of two daemons -/

/-- Two daemons with the receive port 7777; the disco socket of side `b` is bound
to `port`. -/
def samplePair (port : Port) : Pair where
  env
    | .a => sampleEnv
    | .b => { sampleEnv with deps := { sampleEnv.deps with
        self := Vector.replicate 32 2, selfNode := "node-b",
        ifaceName := "gretun-a" } }
  disco
    | .a => ⟨.v4 0xc0a8010a, 40001⟩
    | .b => ⟨.v4 0xc0000201, port⟩

def samplePeerOf (port : Port) : Side → RemotePeer
  | .a => { samplePeer with endpoints := [⟨⟨.v4 0xc0000201, port⟩, "stun"⟩] }
  | .b => { samplePeer with discoKey := Vector.replicate 32 1, endpoints := [] }

def sampleStart (port : Port) (s : Side) : World :=
  startRun (samplePeerOf port s) [] ((samplePair port).disco s).port.toNat
    sampleKernel

def handshake (port : Port) : List PairInput :=
  [⟨.a, .update, [[192, 168, 1, 10]], fun _ _ => none⟩,
    ⟨.a, .tick, [[192, 168, 1, 10]], fun _ _ => none⟩,
    ⟨.b, .deliver 1 (.udp ⟨.v4 0xc0a8010a, 40001⟩), [[192, 0, 2, 1]],
      fun _ _ => none⟩,
    ⟨.a, .deliver 1 (.udp ⟨.v4 0xc0000201, port⟩), [[192, 168, 1, 10]],
      fun _ _ => none⟩]

theorem started_sampleStart (port : Port) :
    (samplePair port).Started (sampleStart port) := by
  intro s
  refine ⟨samplePeerOf port s, [], fun _ _ => none, ⟨∅, ∅, ∅⟩, by simp, ?_⟩
  cases s <;> rfl

theorem noNat_handshake (port : Port) :
    ∀ i ∈ handshake port, (samplePair port).NoNat i := by
  simp [handshake, Pair.NoNat, samplePair, Side.other]

/-- With the disco socket on the receive port the handshake agrees on it. -/
theorem linkDport_of_handshake_same :
    linkDport ((handshake 7777).foldl (samplePair 7777).step (sampleStart 7777)
        .a).kernel "gretun-b" = some 7777 :=
  (linkDport_eq_fouPort_iff (started_sampleStart 7777) (noNat_handshake 7777) .a
    (by decide +kernel)).2.2 rfl

/-- With the disco socket of side `b` on port 4000, side `a` sends there, where
side `b` has no receive port. -/
theorem linkDport_of_handshake_other :
    (samplePair 4000).Started (sampleStart 4000) ∧
      (∀ i ∈ handshake 4000, (samplePair 4000).NoNat i) ∧
      ((handshake 4000).foldl (samplePair 4000).step (sampleStart 4000)
        .a).fsm.tunnelUp = true ∧
      linkDport ((handshake 4000).foldl (samplePair 4000).step (sampleStart 4000)
        .a).kernel "gretun-b" = some 4000 ∧
      ((samplePair 4000).env .b).deps.fouPort = 7777 ∧
      (afInet, 4000) ∉ ((handshake 4000).foldl (samplePair 4000).step
        (sampleStart 4000) .b).kernel.fous :=
  ⟨started_sampleStart 4000, noNat_handshake 4000, by decide +kernel,
    by decide +kernel, rfl, by decide +kernel⟩

end Daemon

end Gretun
