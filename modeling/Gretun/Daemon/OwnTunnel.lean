import Gretun.Daemon.Raise

/-!
# A tunnel of its own for every peer

The daemon tells its peers apart by their keys, and pongs by the address and port
they come from. The kernel tells GRE tunnels apart by the two addresses and the key of
the tunnel, and `bringUpTunnel` never sets the key. So two peers whose pongs come from
the same address, as they do behind one NAT, ask for the same tunnel, and only one of
them gets it.

`Pongs` are the machines of one daemon that a pong moves to `direct`; their requests
run side by side. With no other fault all of them have a tunnel in the end exactly
when each has a usable endpoint and no two share both addresses.
-/

namespace Gretun

namespace Tunnel

open Gretun.Net
open Foundation
open Foundation.Assoc

/-- What the kernel knows a GRE tunnel by: its two addresses and its key. -/
def Link.triple : Link → Option (IP × IP × BitVec 32)
  | .gretun g => some (g.localIP, g.remoteIP, g.iKey)
  | .other _ _ => none

@[simp] theorem Link.triple_withAttrs (l : Link) (a : LinkAttrs) :
    (l.withAttrs a).triple = l.triple := by
  cases l <;> rfl

def Config.triple (cfg : Config) : IP × IP × BitVec 32 :=
  (cfg.localIP, cfg.remoteIP, cfg.key)

theorem triple_gretunFor (cfg : Config) :
    (Link.gretun (gretunFor cfg)).triple = some cfg.triple := by
  simp only [Link.triple, gretunFor, applyEncap]
  split <;> rfl

namespace Kernel

def hasTriple (k : Kernel) (t : IP × IP × BitVec 32) : Bool :=
  (values k.links).any fun l => l.triple = some t

theorem hasTriple_iff {k : Kernel} {t : IP × IP × BitVec 32} :
    k.hasTriple t = true ↔ ∃ n l, k.links.lookup n = some l ∧ l.triple = some t := by
  simp only [hasTriple, List.any_eq_true, decide_eq_true_eq, mem_values]
  constructor
  · rintro ⟨l, ⟨n, hn⟩, hl⟩
    exact ⟨n, l, hn, hl⟩
  · rintro ⟨n, l, hn, hl⟩
    exact ⟨l, ⟨n, hn⟩, hl⟩

/-- A GRE link whose triple is taken cannot be added. -/
def greFault (k : Kernel) (f : Fault) : NlCall → Fault
  | .linkAdd l =>
      if l.triple.any k.hasTriple then some (.errno .EEXIST) else f
  | _ => f

def handleGre (f : Fault) (c : NlCall) (k : Kernel) : c.Resp × Kernel :=
  handle (k.greFault f c) c k

end Kernel

theorem link_of_move {h : Hold} {c : NlCall} {r : c.Resp}
    (hmove : (h.move c r).link = true) : h.link = true ∨ ∃ l, c = .linkAdd l := by
  cases c with
  | linkAdd l => exact Or.inr ⟨l, rfl⟩
  | fouAdd fou =>
      cases r with
      | ok u => exact Or.inl hmove
      | error e =>
          simp only [Hold.move] at hmove
          split at hmove <;> exact Or.inl hmove
  | fouDel fou => exact Or.inl hmove
  | linkDel l =>
      cases r with
      | ok u => simp [Hold.move] at hmove
      | error e => exact Or.inl hmove
  | _ =>
      rcases h.move_other (by simp) (by simp) r with heq | heq
      · rw [heq] at hmove
        exact Or.inl hmove
      · rw [heq] at hmove
        exact Or.inl hmove

theorem LinkStep.exists_triple {cfg : Config} {h h' : Hold} {k k' : Kernel}
    (hstep : LinkStep cfg h h' k k')
    (hold : h.link = true →
      ∃ l, k.links.lookup cfg.name = some l ∧ l.triple = some cfg.triple)
    (hnew : h'.link = true) :
    ∃ l, k'.links.lookup cfg.name = some l ∧ l.triple = some cfg.triple := by
  cases hstep with
  | same links link =>
      rw [links]
      exact hold (link.symm.trans hnew)
  | add free links was link =>
      rw [links, AList.lookup_insert]
      exact ⟨_, rfl, triple_gretunFor cfg⟩
  | delete links was failed link => exact absurd (link.symm.trans hnew) (by simp)
  | attrs l a found name links was link =>
      obtain ⟨l', hl', htriple⟩ := hold was
      obtain rfl : l = l' := Option.some.inj (found.symm.trans hl')
      rw [links, AList.lookup_insert]
      exact ⟨_, rfl, (l.triple_withAttrs a).trans htriple⟩

/-- A link is added only while no other has its triple. -/
theorem hasTriple_of_link {cfg : Config} {h : Hold} {c : NlCall} {f : Fault}
    {k : Kernel} (hallows : h.allows cfg c) (hold : h.link = false)
    (hnew : (h.move c (k.handleGre f c).1).link = true) :
    k.hasTriple cfg.triple = false := by
  rcases link_of_move hnew with hlink | ⟨l, rfl⟩
  · rw [hold] at hlink
    cases hlink
  · obtain ⟨rfl, -, -⟩ := hallows
    by_contra htaken
    have htrue : k.hasTriple cfg.triple = true := by simpa using htaken
    have hfault : k.greFault f (.linkAdd (.gretun (gretunFor cfg))) =
        some (.errno .EEXIST) := by
      simp [Kernel.greFault, triple_gretunFor, htrue]
    simp [Kernel.handleGre, hfault, Kernel.failResp, Hold.move, Hold.fail, hold] at hnew

/-- Without faults of the environment a call fails because its triple or its name is
taken, or because its link is gone. -/
theorem failed_of_moveGre {cfg : Config} {h : Hold} {c : NlCall} {k : Kernel}
    (hallows : h.allows cfg c) (hold : h.failed = false)
    (hnew : (h.move c (k.handleGre none c).1).failed = true) :
    h.link = false ∧ (k.hasTriple cfg.triple = true ∨ cfg.name ∈ k.links) ∨
      h.link = true ∧ cfg.name ∉ k.links := by
  rcases failed_of_move hallows hold hnew with hfault | hname | hgone
  · cases c with
    | linkAdd l =>
        obtain ⟨rfl, hlink, -⟩ := hallows
        refine Or.inl ⟨hlink, Or.inl ?_⟩
        by_contra hfree
        exact hfault (by simp [Kernel.greFault, triple_gretunFor, hfree])
    | _ => exact absurd rfl hfault
  · exact Or.inl ⟨hname.1, Or.inr hname.2⟩
  · exact Or.inr hgone

end Tunnel

namespace Daemon

open Gretun.Net
open Gretun.Tunnel
open Foundation.Assoc
open Foundation.Command
open Foundation.Interleave
open Foundation.Run

/-- The machines of a daemon that a pong moves to `direct`, each with the IPv4
endpoint its pong came from and the interface addresses at that time. -/
structure Pongs (ι : Type) where
  env : Env
  iface : ι → String
  fsm : ι → PeerFSM
  ifaceAddrs : ι → List IP
  addr : ι → BitVec 32
  port : ι → Port
  iface_valid : ∀ i, ValidIface (iface i)
  iface_injective : Function.Injective iface
  moves : ∀ i, (fsm i).state ≠ .direct
  endpoint_injective : Function.Injective fun i => (addr i, port i)

namespace Pongs

variable {ι : Type}

def src (p : Pongs ι) (i : ι) : AddrPort := ⟨.v4 (p.addr i), p.port i⟩

def envOf (p : Pongs ι) (i : ι) : Env :=
  { p.env with deps := { p.env.deps with ifaceName := p.iface i } }

def localAddr (p : Pongs ι) (i : ι) : Addr := firstGlobalV4 (p.ifaceAddrs i)

def config (p : Pongs ι) (i : ι) : Config :=
  tunnelConfig (p.envOf i) (p.localAddr i) (p.src i)

def Down (p : Pongs ι) (i : ι) : Prop := (p.fsm i).tunnelUp = false

/-- The machine asks for a link: it has no tunnel, a local address, and an endpoint
that `Create` accepts. -/
structure Asks (p : Pongs ι) (i : ι) : Prop where
  down : p.Down i
  hasLocal : (p.localAddr i).isValid = true
  usable : UsableFrom (p.localAddr i) (p.src i)

/-- No two machines ask for a tunnel between the same addresses. -/
def Apart (p : Pongs ι) : Prop :=
  ∀ i j, p.Asks i → p.Asks j → p.localAddr i = p.localAddr j → p.addr i = p.addr j →
    i = j

instance (p : Pongs ι) (i : ι) : Decidable (p.Down i) :=
  inferInstanceAs (Decidable (_ = _))

instance (p : Pongs ι) (i : ι) : Decidable (p.Asks i) :=
  decidable_of_iff (p.Down i ∧ (p.localAddr i).isValid = true ∧
      UsableFrom (p.localAddr i) (p.src i))
    ⟨fun h => ⟨h.1, h.2.1, h.2.2⟩, fun h => ⟨h.down, h.hasLocal, h.usable⟩⟩

instance [DecidableEq ι] [Fintype ι] (p : Pongs ι) : Decidable p.Apart :=
  inferInstanceAs (Decidable (∀ i j, p.Asks i → p.Asks j →
    p.localAddr i = p.localAddr j → p.addr i = p.addr j → i = j))

def discipline (p : Pongs ι) (i : ι) : Discipline NlCall NlCall.Resp Hold :=
  (holding (p.config i)).when (p.Down i)

def start (p : Pongs ι) (k : Kernel) : Pool NlCall NlCall.Resp Bool Hold ι Kernel where
  threads i :=
    { ghost := {}
      left := raiseTunnel (p.envOf i) (p.ifaceAddrs i) (p.src i) (p.fsm i) }
  shared := k

/-- The machines make their requests in the order of `is`, and none is failed by the
environment. -/
def run [DecidableEq ι] (p : Pongs ι) (k : Kernel) (is : List ι) :
    Pool NlCall NlCall.Resp Bool Hold ι Kernel :=
  (is.map fun i => (i, none)).foldl (Pool.step p.discipline Kernel.handleGre)
    (p.start k)

def tunnelUp (s : Pool NlCall NlCall.Resp Bool Hold ι Kernel) (i : ι) : Bool :=
  match (s.threads i).left with
  | .ret up => up
  | .call _ _ => false

/-- Handled alone, the pong makes the machine direct and leads to these requests. -/
theorem step_eq_start (p : Pongs ι) (i : ι) {w : World} (hw : w.fsm = p.fsm i)
    {body : Disco.Body} (hpong : body.type = .pong) (faults : ℕ → NlCall → Fault) :
    let w' := step (p.envOf i) w ⟨.udp (p.src i) body, p.ifaceAddrs i, faults⟩
    let r := exec ((p.start w.kernel).threads i).left faults w.kernel
    w'.fsm.state = .direct ∧ w'.fsm.tunnelUp = r.1 ∧ w'.kernel = r.2 := by
  have hstate : w.fsm.state ≠ .direct := by
    rw [hw]
    exact p.moves i
  simp only [step, onDiscoUDP, hpong, start, ← hw]
  exact onPong_eq_raiseTunnel (p.envOf i)
    ⟨.udp (p.src i) body, p.ifaceAddrs i, faults⟩ (p.src i) hstate

structure Ends (p : Pongs ι) (i : ι) (h : Hold) (up : Bool) : Prop where
  down : p.Down i → RaiseHolds (p.ifaceAddrs i) (p.config i) h up
  already : ¬ p.Down i → up = true

theorem follows_start (p : Pongs ι) (k : Kernel) (i : ι) :
    Follows (p.discipline i) (p.Ends i) {} ((p.start k).threads i).left := by
  by_cases hdown : p.Down i
  · refine ((follows_raiseTunnel (p.envOf i) (p.ifaceAddrs i) (p.src i)
      hdown).when hdown).mono ?_
    intro h up hup
    exact ⟨fun _ => hup, fun hne => absurd hdown hne⟩
  · have hup : (p.fsm i).tunnelUp = true := by simpa [Down] using hdown
    simp only [start, raiseTunnel, hup, if_true]
    exact ⟨fun h => absurd h hdown, fun _ => rfl⟩

/-! ## What the machines hold -/

def Held (p : Pongs ι) (gs : ι → Hold) (k : Kernel) : Prop :=
  ∀ i, (gs i).link = true →
    ∃ l, k.links.lookup (p.iface i) = some l ∧ l.triple = some (p.config i).triple

variable {p : Pongs ι} {gs : ι → Hold} {k : Kernel}

theorem Held.request [DecidableEq ι] (h : p.Held gs k) {i : ι} {c : NlCall}
    (hallows : (gs i).allows (p.config i) c) (f : Fault) :
    p.Held (Function.update gs i ((gs i).move c (k.handleGre f c).1))
      (k.handleGre f c).2 := by
  have hstep := linkStep_handle hallows (k.greFault f c) k
  intro j hj
  by_cases hji : j = i
  · subst hji
    rw [Function.update_self] at hj
    exact hstep.exists_triple (h j) hj
  · have hname : p.iface j ≠ p.iface i := fun heq => hji (p.iface_injective heq)
    rw [Function.update_of_ne hji] at hj
    obtain ⟨l, hl, htriple⟩ := h j hj
    exact ⟨l, (hstep.lookup_of_ne hname).trans hl, htriple⟩

structure Exclusive (p : Pongs ι) (gs : ι → Hold) (k : Kernel) : Prop where
  held : p.Held gs k
  apart : ∀ i j, (gs i).link = true → (gs j).link = true →
    (p.config i).triple = (p.config j).triple → i = j

theorem Exclusive.request [DecidableEq ι] (h : p.Exclusive gs k) {i : ι} {c : NlCall}
    (hallows : (gs i).allows (p.config i) c) (f : Fault) :
    p.Exclusive (Function.update gs i ((gs i).move c (k.handleGre f c).1))
      (k.handleGre f c).2 := by
  refine ⟨h.held.request hallows f, ?_⟩
  -- The link of machine `i`, old or new, against the link of another machine.
  have hother : ∀ j, ((gs i).move c (k.handleGre f c).1).link = true →
      (gs j).link = true → (p.config i).triple = (p.config j).triple → i = j := by
    intro j hnew hj htriple
    cases hold : (gs i).link with
    | true => exact h.apart i j hold hj htriple
    | false =>
        obtain ⟨l, hl, hlt⟩ := h.held j hj
        have htaken : k.hasTriple (p.config i).triple = true :=
          Kernel.hasTriple_iff.2 ⟨_, l, hl, htriple ▸ hlt⟩
        rw [hasTriple_of_link hallows hold hnew] at htaken
        cases htaken
  intro a b ha hb htriple
  by_cases hai : a = i
  · by_cases hbi : b = i
    · rw [hai, hbi]
    · subst hai
      rw [Function.update_self] at ha
      rw [Function.update_of_ne hbi] at hb
      exact hother b ha hb htriple
  · rw [Function.update_of_ne hai] at ha
    by_cases hbi : b = i
    · subst hbi
      rw [Function.update_self] at hb
      exact (hother a hb ha htriple.symm).symm
    · rw [Function.update_of_ne hbi] at hb
      exact h.apart a b ha hb htriple

/-- No request has failed, and every link was there before or is held by a machine
that asked for it. -/
structure Clear (p : Pongs ι) (k₀ : Kernel) (gs : ι → Hold) (k : Kernel) : Prop where
  live : ∀ i, (gs i).failed = false
  held : p.Held gs k
  origin : ∀ n l, k.links.lookup n = some l → k₀.links.lookup n = some l ∨
    ∃ i, p.Down i ∧ (gs i).link = true ∧ n = p.iface i ∧
      l.triple = some (p.config i).triple

structure Room (p : Pongs ι) (k₀ : Kernel) : Prop where
  name : ∀ i, p.Down i → p.iface i ∉ k₀.links
  triple : ∀ i, p.Down i → k₀.hasTriple (p.config i).triple = false
  apart : ∀ i j, p.Down i → p.Down j → (p.config i).triple = (p.config j).triple → i = j

theorem Clear.live_request {k₀ : Kernel} (hroom : p.Room k₀) (h : p.Clear k₀ gs k)
    {i : ι} (hdown : p.Down i) {c : NlCall}
    (hallows : (gs i).allows (p.config i) c) :
    ((gs i).move c (k.handleGre none c).1).failed = false := by
  by_contra hne
  have hnew : ((gs i).move c (k.handleGre none c).1).failed = true := by simpa using hne
  have hno : ∀ j, j = i → (gs i).link = false → ¬ (gs j).link = true := by
    rintro j rfl hlink hheld
    rw [hlink] at hheld
    cases hheld
  rcases failed_of_moveGre hallows (h.live i) hnew with
    ⟨hlink, htaken | htaken⟩ | ⟨hlink, hgone⟩
  · obtain ⟨n, l, hl, htriple⟩ := Kernel.hasTriple_iff.1 htaken
    rcases h.origin n l hl with hold | ⟨j, hj, hheld, -, hjt⟩
    · have hbefore := Kernel.hasTriple_iff.2 ⟨n, l, hold, htriple⟩
      rw [hroom.triple i hdown] at hbefore
      cases hbefore
    · have hsame := Option.some.inj (hjt.symm.trans htriple)
      exact hno j (hroom.apart j i hj hdown hsame) hlink hheld
  · obtain ⟨l, hl⟩ := Option.isSome_iff_exists.1 (AList.lookup_isSome.2 htaken)
    rcases h.origin _ l hl with hold | ⟨j, -, hheld, hname, -⟩
    · exact hroom.name i hdown (AList.lookup_isSome.1 (by
        change (k₀.links.lookup (p.config i).name).isSome
        rw [hold]
        rfl))
    · exact hno j (p.iface_injective hname).symm hlink hheld
  · obtain ⟨l, hl, -⟩ := h.held i hlink
    exact hgone (AList.lookup_isSome.1 (by
      change (k.links.lookup (p.iface i)).isSome
      rw [hl]
      rfl))

theorem Clear.request [DecidableEq ι] {k₀ : Kernel} (hroom : p.Room k₀)
    (h : p.Clear k₀ gs k) {i : ι} (hdown : p.Down i) {c : NlCall}
    (hallows : (gs i).allows (p.config i) c) :
    p.Clear k₀ (Function.update gs i ((gs i).move c (k.handleGre none c).1))
      (k.handleGre none c).2 := by
  have hheld := h.held.request hallows none
  refine ⟨fun j => ?_, hheld, fun n l hl => ?_⟩
  · by_cases hji : j = i
    · subst hji
      rw [Function.update_self]
      exact h.live_request hroom hdown hallows
    · rw [Function.update_of_ne hji]
      exact h.live j
  · have hstep := linkStep_handle hallows (k.greFault none c) k
    by_cases hnew : n = p.iface i ∧ ((gs i).move c (k.handleGre none c).1).link = true
    · obtain ⟨rfl, hlink⟩ := hnew
      obtain ⟨l', hl', htriple⟩ := hheld i (by rwa [Function.update_self])
      obtain rfl : l = l' := Option.some.inj (hl.symm.trans hl')
      exact Or.inr ⟨i, hdown, by rwa [Function.update_self], rfl, htriple⟩
    · obtain ⟨hmono, hsame⟩ := hstep.of_not_failed (h.live i)
      have hl' : k.links.lookup n = some l := by
        by_cases hn : n = p.iface i
        · have hlink : ((gs i).move c (k.handleGre none c).1).link = false := by
            simpa [hn] using hnew
          rw [← hsame hlink]
          exact hl
        · rw [← hstep.lookup_of_ne hn]
          exact hl
      refine (h.origin n l hl').imp_right ?_
      rintro ⟨j, hj, hlink, hrest⟩
      refine ⟨j, hj, ?_, hrest⟩
      by_cases hji : j = i
      · subst hji
        rw [Function.update_self]
        exact hmono hlink
      · rwa [Function.update_of_ne hji]

/-! ## Whole runs -/

theorem sound_start {J : (ι → Hold) → Kernel → Prop} (hJ : J (fun _ => {}) k) :
    (p.start k).Sound p.discipline p.Ends J :=
  ⟨p.follows_start k, hJ⟩

theorem exclusive_run [DecidableEq ι] (p : Pongs ι) (k : Kernel) (is : List ι) :
    (p.run k is).Sound p.discipline p.Ends p.Exclusive := by
  refine (sound_start ?_).run (P := fun _ => True) ?_ fun _ _ => trivial
  · constructor
    · intro i hi
      cases hi
    · intro i j hi
      cases hi
  · intro gs k i c f h hallows _
    exact h.request hallows.2 f

theorem clear_run [DecidableEq ι] (hroom : p.Room k) (is : List ι) :
    (p.run k is).Sound p.discipline p.Ends (p.Clear k) := by
  refine (sound_start ?_).run (P := fun f => f = none) ?_ ?_
  · refine ⟨fun _ => rfl, ?_, fun n l hl => Or.inl hl⟩
    intro i hi
    cases hi
  · rintro gs k i c f h hallows rfl
    exact h.request hroom hallows.1 hallows.2
  · intro x hx
    obtain ⟨i, -, rfl⟩ := List.mem_map.1 hx
    rfl

/-! ## When every machine gets its tunnel -/

/-- Of tunnels that are asked for, the triples are the same exactly when the addresses
are: the key is never set. -/
theorem triple_eq_iff {i j : ι} (hi : p.Asks i) (hj : p.Asks j) :
    (p.config i).triple = (p.config j).triple ↔
      p.localAddr i = p.localAddr j ∧ p.addr i = p.addr j := by
  obtain ⟨a, ha⟩ := exists_v4_of_unicastV4 (unicastV4_firstGlobalV4 hi.hasLocal)
  obtain ⟨b, hb⟩ := exists_v4_of_unicastV4 (unicastV4_firstGlobalV4 hj.hasLocal)
  change p.localAddr i = _ at ha
  change p.localAddr j = _ at hb
  simp only [Config.triple, config, tunnelConfig, src, ha, hb, Prod.mk.injEq, and_true,
    Addr.v4.injEq]
  constructor
  · rintro ⟨hlocal, haddr⟩
    exact ⟨asSlice_v4_injective hlocal, asSlice_v4_injective haddr⟩
  · rintro ⟨rfl, haddr⟩
    exact ⟨rfl, by rw [haddr]⟩

theorem unicastV4_of_validateIP {a : BitVec 32} {field : String}
    (h : validateIP (Addr.v4 a).asSlice field = .ok ()) :
    unicastV4 (.v4 a) = true := by
  unfold validateIP at h
  split_ifs at h with hnil hunspecified hloopback hv4 hmulticast
  simp [unicastV4, hunspecified, hloopback, hmulticast]

/-- A configuration that is accepted is for a usable endpoint. -/
theorem usable_of_validateConfig {i : ι} (h : validateConfig (p.config i) = .ok ()) :
    UsableFrom (p.localAddr i) (p.src i) := by
  have hchecked := checked_of_validateConfig h
  refine ⟨unicastV4_of_validateIP hchecked.remoteIP, fun hport => ?_, fun hsame => ?_⟩
  · have hencap := hchecked.encap
    have hzero : (p.config i).encapDport = 0 := hport
    have hfou : (p.config i).encap = .fou := rfl
    simp only [validateEncap, hfou, hzero, if_true] at hencap
    cases hencap
  · have hne := hchecked.ne
    have heq : (p.config i).localIP = (p.config i).remoteIP :=
      congrArg Addr.asSlice hsame.symm
    rw [heq] at hne
    simp [IP.equal] at hne

/-- A machine without a tunnel that ends with one has asked for it and holds its
link. -/
theorem asks_of_tunnelUp {J : (ι → Hold) → Kernel → Prop}
    {s : Pool NlCall NlCall.Resp Bool Hold ι Kernel} (hs : s.Sound p.discipline p.Ends J)
    {i : ι} (hdown : p.Down i) (hup : tunnelUp s i = true) :
    p.Asks i ∧ (s.ghosts i).link = true := by
  have hfollows := hs.follows i
  unfold tunnelUp at hup
  split at hup
  · rename_i up hleft
    subst hup
    rw [hleft] at hfollows
    have hraise := hfollows.down hdown
    have hlocal := hraise.hasLocal rfl
    obtain ⟨r, hr, hcreate⟩ := hraise.create hlocal
    obtain rfl := eq_ok_of_isOk hr
    exact ⟨⟨hdown, hlocal, usable_of_validateConfig (hcreate.valid rfl).2⟩,
      (hcreate.ok rfl).1⟩
  · cases hup

theorem tunnelUp_of_clear {k₀ : Kernel}
    {s : Pool NlCall NlCall.Resp Bool Hold ι Kernel}
    (hs : s.Sound p.discipline p.Ends (p.Clear k₀)) {i : ι}
    (hasks : p.Down i → p.Asks i) (hdone : (s.threads i).next = none) :
    tunnelUp s i = true := by
  have hfollows := hs.follows i
  unfold Thread.next at hdone
  unfold tunnelUp
  split at hdone
  · rename_i up hleft
    rw [hleft] at hfollows ⊢
    simp only
    by_cases hdown : p.Down i
    · obtain ⟨-, hlocal, husable⟩ := hasks hdown
      obtain ⟨r, hr, hcreate⟩ := (hfollows.down hdown).create hlocal
      rw [← hr]
      by_contra hne
      have herr : r ≠ .ok () := by
        rintro rfl
        exact hne rfl
      have hvalid : validateConfig (p.config i) = .ok () :=
        validateConfig_tunnelConfig (p.iface_valid i) hlocal husable
      have hfailed := hcreate.failed herr rfl hvalid
      have hlive := hs.agree.live i
      exact absurd (hlive.symm.trans hfailed) (by simp)
    · exact hfollows.already hdown
  · cases hdone

/-- Pongs from different endpoints move machines of one daemon to `direct`. The GRE
links they ask for differ in the triple by which the kernel knows them exactly when no
two of them have the same two addresses. With no fault but the kernel's refusal of a
triple that is taken, once their requests are over all of them have a tunnel exactly
when moreover every machine without one has a local address and a usable endpoint. -/
theorem ownTunnel_iff [DecidableEq ι] (p : Pongs ι) (k : Kernel)
    (hname : ∀ i, p.Down i → p.iface i ∉ k.links)
    (htriple : ∀ i, p.Down i → k.hasTriple (p.config i).triple = false) (is : List ι)
    (hdone : ∀ i, ((p.run k is).threads i).next = none) :
    ((∀ i j, p.Asks i → p.Asks j → (p.config i).triple = (p.config j).triple → i = j) ↔
        p.Apart) ∧
      ((∀ i, tunnelUp (p.run k is) i = true) ↔
        (∀ i, p.Down i → p.Asks i) ∧ p.Apart) := by
  have hiff : (∀ i j, p.Asks i → p.Asks j →
      (p.config i).triple = (p.config j).triple → i = j) ↔ p.Apart := by
    refine forall_congr' fun i => forall_congr' fun j => forall_congr' fun hi =>
      forall_congr' fun hj => ?_
    rw [triple_eq_iff hi hj, and_imp]
  refine ⟨hiff, fun hup => ?_, fun ⟨hasks, hapart⟩ i => ?_⟩
  · have hrun := p.exclusive_run k is
    have hheld := fun i hdown => asks_of_tunnelUp hrun (i := i) hdown (hup i)
    refine ⟨fun i hdown => (hheld i hdown).1, hiff.1 fun i j hi hj heq => ?_⟩
    exact hrun.agree.apart i j (hheld i hi.down).2 (hheld j hj.down).2 heq
  · have hroom : p.Room k := ⟨hname, htriple, fun i j hi hj heq =>
      hiff.2 hapart i j (hasks i hi) (hasks j hj) heq⟩
    exact tunnelUp_of_clear (clear_run hroom is) (hasks i) (hdone i)

/-! ## Two peers -/

def twoPeers (addr : Fin 2 → BitVec 32) : Pongs (Fin 2) where
  env := sampleEnv
  iface i := if i = 0 then "gretun0" else "gretun1"
  fsm _ := newPeerFSM samplePeer
  ifaceAddrs _ := [[192, 168, 1, 10]]
  addr := addr
  port i := if i = 0 then 4000 else 4001
  iface_valid := by decide
  iface_injective := by decide
  moves := by decide
  endpoint_injective i j h :=
    (by decide : ∀ i j : Fin 2,
      (if i = 0 then (4000 : Port) else 4001) = (if j = 0 then 4000 else 4001) → i = j)
      i j (Prod.mk.inj h).2

def twoHosts : Pongs (Fin 2) :=
  twoPeers fun i => if i = 0 then 0xc6336407 else 0xc6336408

/-- Two peers behind 198.51.100.7. -/
def oneNat : Pongs (Fin 2) := twoPeers fun _ => 0xc6336407

def turns : List (Fin 2) := [0, 1, 0, 1, 0, 1, 0, 1, 0, 1, 0, 1, 0, 1]

theorem ownTunnel_twoHosts :
    (∀ i, twoHosts.Down i → twoHosts.iface i ∉ Kernel.empty.links) ∧
      (∀ i, twoHosts.Down i →
        Kernel.empty.hasTriple (twoHosts.config i).triple = false) ∧
      (∀ i, ((twoHosts.run Kernel.empty turns).threads i).next = none) ∧
      ∀ i, tunnelUp (twoHosts.run Kernel.empty turns) i = true := by
  have hname : ∀ i, twoHosts.Down i → twoHosts.iface i ∉ Kernel.empty.links := by
    decide
  have htriple : ∀ i, twoHosts.Down i →
      Kernel.empty.hasTriple (twoHosts.config i).triple = false := by
    decide
  have hdone : ∀ i, ((twoHosts.run Kernel.empty turns).threads i).next =
      none := by
    decide +kernel
  exact ⟨hname, htriple, hdone,
    (ownTunnel_iff twoHosts Kernel.empty hname htriple turns hdone).2.2
      (by decide +kernel)⟩

/-- The pongs come from different ports of one address and both machines are direct;
the second finds its triple taken. -/
theorem noTunnel_oneNat :
    (∀ i, oneNat.Asks i) ∧ oneNat.src 0 ≠ oneNat.src 1 ∧
      (oneNat.config 0).triple = (oneNat.config 1).triple ∧
      (∀ i, ((oneNat.run Kernel.empty turns).threads i).next = none) ∧
      tunnelUp (oneNat.run Kernel.empty turns) 0 = true ∧
      tunnelUp (oneNat.run Kernel.empty turns) 1 = false := by
  decide +kernel

end Pongs

end Daemon

end Gretun
