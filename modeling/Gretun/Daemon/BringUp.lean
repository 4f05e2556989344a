import Gretun.Daemon.PeerFrame

/-!
# The link that a pong brings up

`bringUpTunnel` builds its configuration from the address a pong came from, so
the link it makes has that address and that port as its far end. The flag
`tunnelUp` is set only when `Create` returned no error; without failing netlink
calls and with a usable endpoint it always is.
-/

namespace Gretun

namespace Daemon

open Gretun.Net
open Gretun.Tunnel
open Foundation.Command

def linkEndpoint (k : Kernel) (name : String) : Option (IP × Port) :=
  match k.links.lookup name with
  | some (.gretun g) => some (g.remoteIP, g.encapDport)
  | _ => none

def farEnd (ap : AddrPort) : IP × Port := (ap.addr.asSlice, ap.port)

/-- An IPv4 address of one host, other than a loopback address. -/
def unicastV4 : Addr → Bool
  | .v4 a =>
      let ip : IP := (Addr.v4 a).asSlice
      !ip.isUnspecified && !ip.isLoopback && !ip.isMulticast
  | _ => false

theorem exists_v4_of_unicastV4 {a : Addr} (h : unicastV4 a) : ∃ b, a = .v4 b := by
  cases a with
  | zero => cases h
  | v4 b => exact ⟨b, rfl⟩
  | v6 b z => cases h

/-- Two IPv4 endpoints with the same far end are the same. -/
theorem eq_of_farEnd_eq {x y : AddrPort} (hx : unicastV4 x.addr)
    (hy : unicastV4 y.addr) (h : farEnd x = farEnd y) : x = y := by
  obtain ⟨a, ha⟩ := exists_v4_of_unicastV4 hx
  obtain ⟨b, hb⟩ := exists_v4_of_unicastV4 hy
  obtain ⟨haddr, hport⟩ := Prod.mk.inj h
  rw [ha, hb] at haddr
  have hab : x.addr = y.addr := by rw [ha, hb, asSlice_v4_injective haddr]
  cases x
  cases y
  exact congrArg₂ AddrPort.mk hab hport

/-! ## The configuration is valid -/

theorem to4_of_length {ip : IP} (h : ip.length = 4) : ip.to4 = some ip := by
  rw [IP.to4, if_pos h]

theorem length_of_to4 {ip v4 : IP} (h : ip.to4 = some v4) : v4.length = 4 := by
  unfold IP.to4 at h
  split at h
  · rename_i h4
    rw [← Option.some.inj h, h4]
  · split at h
    · rename_i h16
      rw [← Option.some.inj h, List.length_drop, h16.1]
    · cases h

theorem validateIP_ok {ip : IP} (hlen : ip.length = 4)
    (hunspecified : ip.isUnspecified = false) (hloopback : ip.isLoopback = false)
    (hmulticast : ip.isMulticast = false) (field : String) :
    validateIP ip field = .ok () := by
  have hne : ip ≠ [] := by
    intro h
    rw [h] at hlen
    cases hlen
  simp [validateIP, hne, hunspecified, hloopback, hmulticast, to4_of_length hlen]

theorem validateIP_of_unicastV4 {a : Addr} (h : unicastV4 a) (field : String) :
    validateIP a.asSlice field = .ok () := by
  obtain ⟨b, rfl⟩ := exists_v4_of_unicastV4 h
  simp only [unicastV4, Bool.and_eq_true, Bool.not_eq_true'] at h
  exact validateIP_ok (length_asSlice_v4 b) h.1.1 h.1.2 h.2 field

theorem unicastV4_firstGlobalV4 {ifaceAddrs : List IP}
    (h : (firstGlobalV4 ifaceAddrs).isValid) :
    unicastV4 (firstGlobalV4 ifaceAddrs) := by
  unfold firstGlobalV4 at h ⊢
  split
  · rename_i v4 hfind
    obtain ⟨ip, -, hto4⟩ := List.mem_filterMap.1 (List.mem_of_find?_eq_some hfind)
    have hlen : v4.length = 4 := length_of_to4 hto4
    have hgood := List.find?_some hfind
    simp only [IP.isGlobalUnicast, Bool.and_eq_true, Bool.not_eq_true'] at hgood
    have hslice := asSlice_addrFromSlice hlen
    rw [IP.addrFromSlice, if_pos hlen] at hslice ⊢
    simp only [unicastV4, hslice]
    simp [hgood.2.1.1.1.2, hgood.1, hgood.2.1.2]
  · rename_i hfind
    rw [hfind] at h
    cases h

def ValidIface (name : String) : Prop :=
  validateTunnelName name = .ok () ∧ validateReserved name = .ok ()

instance (name : String) : Decidable (ValidIface name) :=
  inferInstanceAs (Decidable (_ ∧ _))

structure UsableFrom (src : Addr) (dst : AddrPort) : Prop where
  unicast : unicastV4 dst.addr
  port : dst.port ≠ 0
  ne : dst.addr ≠ src

instance (src : Addr) (dst : AddrPort) : Decidable (UsableFrom src dst) :=
  decidable_of_iff (unicastV4 dst.addr = true ∧ dst.port ≠ 0 ∧ dst.addr ≠ src)
    ⟨fun h => ⟨h.1, h.2.1, h.2.2⟩, fun h => ⟨h.unicast, h.port, h.ne⟩⟩

theorem validateConfig_tunnelConfig {e : Env} {ifaceAddrs : List IP}
    {dst : AddrPort} (hname : ValidIface e.deps.ifaceName)
    (hlocal : (firstGlobalV4 ifaceAddrs).isValid)
    (hdst : UsableFrom (firstGlobalV4 ifaceAddrs) dst) :
    validateConfig (tunnelConfig e (firstGlobalV4 ifaceAddrs) dst) = .ok () := by
  have hsrc := unicastV4_firstGlobalV4 hlocal
  generalize firstGlobalV4 ifaceAddrs = src at hdst hsrc
  have hdiff : IP.equal src.asSlice dst.addr.asSlice = false := by
    obtain ⟨a, rfl⟩ := exists_v4_of_unicastV4 hsrc
    obtain ⟨b, hb⟩ := exists_v4_of_unicastV4 hdst.unicast
    have hne : (Addr.v4 a).asSlice ≠ (Addr.v4 b).asSlice := by
      intro h
      exact hdst.ne (by rw [hb, asSlice_v4_injective h])
    rw [hb]
    simp [IP.equal, hne]
  have hencap : (validateEncap (tunnelConfig e src dst)).2 = .ok () := by
    have hport : (tunnelConfig e src dst).encapDport ≠ 0 := hdst.port
    have hfou : (tunnelConfig e src dst).encap = .fou := rfl
    simp only [validateEncap, hfou, if_neg hport]
    rfl
  unfold validateConfig
  rw [hencap]
  simp only [tunnelConfig, hname.1, hname.2, validateIP_of_unicastV4 hsrc,
    validateIP_of_unicastV4 hdst.unicast, hdiff]
  rfl

/-! ## Bringing up -/

theorem linkEndpoint_of_hasLink {e : Env} {src : Addr} {dst : AddrPort}
    {k : Kernel} (h : HasLink (tunnelConfig e src dst) k) :
    linkEndpoint k e.deps.ifaceName = some (farEnd dst) := by
  obtain ⟨a, ha⟩ := h
  change k.links.lookup e.deps.ifaceName = _ at ha
  rw [linkEndpoint, ha]
  rfl

theorem linkEndpoint_congr {k k' : Kernel} (h : k'.links = k.links)
    (name : String) : linkEndpoint k' name = linkEndpoint k name := by
  rw [linkEndpoint, linkEndpoint, h]

/-- What `Create` ensures of the links and the receive ports survives the
address assignment that follows it. -/
theorem wp_bringUp {e : Env} {cfg : Config} {k : Kernel}
    {Q : Except TunnelErr Unit → Kernel → Prop} (peerTunnel : Addr)
    (hQ : ∀ r k₁ k₂, Restored k₁ k₂ → Q r k₁ → Q r k₂)
    (hcreate : Prog.wp Kernel.handle AnyFault (create none cfg) Q k) :
    Prog.wp Kernel.handle AnyFault (bringUp e peerTunnel cfg) Q k := by
  rw [bringUp, Prog.wp_bind]
  refine Prog.wp_mono ?_ hcreate
  intro r k₁ hr
  cases r with
  | error err => exact hr
  | ok u =>
      simp only
      by_cases hassign : (e.deps.selfTunnel.isValid && peerTunnel.isValid) = true
      · rw [if_pos hassign, Prog.wp_bind]
        refine Prog.wp_mono ?_ (wp_assignIP_restored e.parsers none _ _ k₁)
        intro _ k₂ hkeep
        exact hQ _ k₁ k₂ hkeep hr
      · rw [if_neg hassign]
        exact hr

/-- Whatever fails on the way, if the requests succeed then the link leads to
`dst`. -/
theorem wp_bringUp_linkEndpoint (e : Env) (peerTunnel src : Addr)
    (dst : AddrPort) (k : Kernel) :
    Prog.wp Kernel.handle AnyFault (bringUp e peerTunnel (tunnelConfig e src dst))
      (fun r k' => r = .ok () →
        linkEndpoint k' e.deps.ifaceName = some (farEnd dst)) k := by
  refine wp_bringUp peerTunnel ?_ (Prog.wp_mono ?_
    (wp_create_hasLink none (tunnelConfig e src dst) k))
  · intro r k₁ k₂ hkeep hr hok
    rw [linkEndpoint_congr hkeep.1, hr hok]
  · intro r k₁ hlink hok
    exact linkEndpoint_of_hasLink (hlink hok)

theorem wp_bringUp_ok {e : Env} {cfg : Config} {k : Kernel} (peerTunnel : Addr)
    (hvalid : validateConfig cfg = .ok ()) (hfree : cfg.name ∉ k.links) :
    Prog.wp Kernel.handle NoFault (bringUp e peerTunnel cfg)
      (fun r _ => r = .ok ()) k := by
  rw [bringUp, Prog.wp_bind]
  refine Prog.wp_mono ?_ (wp_create_ok hvalid hfree)
  rintro r k₁ rfl
  simp only
  by_cases hassign : (e.deps.selfTunnel.isValid && peerTunnel.isValid) = true
  · rw [if_pos hassign, Prog.wp_bind]
    exact Prog.wp_mono (fun _ _ _ => rfl) (Prog.wp_true _ k₁)
  · rw [if_neg hassign]
    rfl

/-- All that `bringUpTunnel` can do: nothing, or the requests for the endpoint at
hand, after which the flag says whether they succeeded. -/
theorem bringUpTunnel_cases (e : Env) (i : Input) (dst : AddrPort) (w : World) :
    bringUpTunnel e i dst w = w ∨
      w.fsm.tunnelUp = false ∧
      ∃ r k', exec (bringUp e w.fsm.peer.tunnelIP
            (tunnelConfig e (firstGlobalV4 i.ifaceAddrs) dst)) i.faults w.kernel =
          (r, k') ∧
        (bringUpTunnel e i dst w).kernel = k' ∧
        ((bringUpTunnel e i dst w).fsm.tunnelUp = true → r = .ok ()) := by
  unfold bringUpTunnel
  by_cases hup : w.fsm.tunnelUp = true
  · exact Or.inl (by rw [if_pos hup])
  · by_cases hlocal : (firstGlobalV4 i.ifaceAddrs).isValid = true
    · refine Or.inr ⟨by simpa using hup, _, _, rfl, ?_⟩
      simp only [hup, Bool.false_eq_true, if_false, hlocal, Bool.not_true]
      split
      · exact ⟨rfl, fun h => absurd h hup⟩
      · rename_i hok
        exact ⟨rfl, fun _ => hok⟩
    · exact Or.inl (by simp [hup, hlocal])

/-- The flag goes up only with a link to the endpoint at hand. -/
theorem bringUpTunnel_linkEndpoint (e : Env) (i : Input) (dst : AddrPort)
    {w : World} (hdown : w.fsm.tunnelUp = false)
    (hup : (bringUpTunnel e i dst w).fsm.tunnelUp = true) :
    linkEndpoint (bringUpTunnel e i dst w).kernel e.deps.ifaceName =
      some (farEnd dst) := by
  rcases bringUpTunnel_cases e i dst w with hsame | ⟨-, r, k', hexec, hk, hr⟩
  · rw [hsame, hdown] at hup
    cases hup
  · have hrun := Prog.run_of_wp (ω := i.faults) (fun _ _ => trivial)
      (wp_bringUp_linkEndpoint e w.fsm.peer.tunnelIP
        (firstGlobalV4 i.ifaceAddrs) dst w.kernel)
    rw [← exec, hexec] at hrun
    rw [hk]
    exact hrun (hr hup)

/-- The flag goes up only for an endpoint that the configuration check accepts. -/
theorem bringUpTunnel_valid (e : Env) (i : Input) (dst : AddrPort)
    {w : World} (hdown : w.fsm.tunnelUp = false)
    (hup : (bringUpTunnel e i dst w).fsm.tunnelUp = true) :
    validateConfig (tunnelConfig e (firstGlobalV4 i.ifaceAddrs) dst) = .ok () := by
  rcases bringUpTunnel_cases e i dst w with hsame | ⟨-, r, k', hexec, -, hr⟩
  · rw [hsame, hdown] at hup
    cases hup
  · have hrun := Prog.run_of_wp (ω := i.faults) (fun _ _ => trivial)
      (wp_bringUp (e := e) w.fsm.peer.tunnelIP (fun _ _ _ _ h => h)
        (wp_create_valid none
          (tunnelConfig e (firstGlobalV4 i.ifaceAddrs) dst) w.kernel))
    rw [← exec, hexec] at hrun
    exact hrun (hr hup)

theorem ne_zero_of_validateConfig {e : Env} {src : Addr} {dst : AddrPort}
    (h : validateConfig (tunnelConfig e src dst) = .ok ()) :
    dst ≠ AddrPort.zero := by
  rintro rfl
  have hremote : validateIP [] "remote IP" = .ok () :=
    (checked_of_validateConfig h).remoteIP
  exact absurd hremote (by decide)

theorem bringUpTunnel_mem_fous (e : Env) (i : Input) (dst : AddrPort)
    {w : World} {key : ℕ × Port} (hkey : key ∈ w.kernel.fous) :
    key ∈ (bringUpTunnel e i dst w).kernel.fous := by
  rcases bringUpTunnel_cases e i dst w with hsame | ⟨-, r, k', hexec, hk, -⟩
  · rw [hsame]
    exact hkey
  · have hrun := Prog.run_of_wp (ω := i.faults) (fun _ _ => trivial)
      (wp_bringUp (e := e) w.fsm.peer.tunnelIP
        (fun _ _ _ hkeep h => hkeep.2 ▸ h)
        (wp_create_mem_fous none
          (tunnelConfig e (firstGlobalV4 i.ifaceAddrs) dst) hkey))
    rw [← exec, hexec] at hrun
    rw [hk]
    exact hrun

theorem bringUpTunnel_up {e : Env} {i : Input} {dst : AddrPort} {w : World}
    (hname : ValidIface e.deps.ifaceName)
    (hlocal : (firstGlobalV4 i.ifaceAddrs).isValid)
    (hdst : UsableFrom (firstGlobalV4 i.ifaceAddrs) dst)
    (hfaults : ∀ n c, i.faults n c = none)
    (hfree : e.deps.ifaceName ∉ w.kernel.links) :
    (bringUpTunnel e i dst w).fsm.tunnelUp = true := by
  have hrun := Prog.run_of_wp (ω := i.faults) hfaults
    (wp_bringUp_ok (e := e) w.fsm.peer.tunnelIP
      (validateConfig_tunnelConfig hname hlocal hdst) hfree)
  unfold bringUpTunnel
  by_cases hup : w.fsm.tunnelUp = true
  · simp [hup]
  · simp only [hup, Bool.false_eq_true, if_false, hlocal, Bool.not_true]
    rw [exec, hrun]

end Daemon

end Gretun
