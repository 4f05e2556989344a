import Gretun.Coord.PeersPoll
import Gretun.Daemon.Shutdown
import Gretun.Disco.Exchange
import Mathlib.Data.Set.Finite.Basic

/-!
# The daemons of one coordinator

Any number of daemons poll one coordinator. `Fleet` puts the long polls of the
coordinator and the goroutines of the daemons together: the poll loop of a daemon sends
a request when it has looked at its context, an answer becomes the list it has in hand,
and a call that fails takes it back to the top. All the rest the coordinator and the
daemons do by themselves, in any order, and machines work at any time.

A daemon that waits for a change has a machine for every peer that is registered and for
no other, and whatever has happened a daemon can come to wait without any help but the
coordinator's.
-/

namespace Gretun

namespace Coord

open Foundation.Assoc

namespace Polls

variable {newEtag : ℕ → String} {s s' : Polls}

def send (s : Polls) (c q : ℕ) : Polls :=
  { s with
    clients := Function.update s.clients c { s.clients c with pending := some q }
    requests := Function.update s.requests q ⟨c, (s.clients c).etag, .arrived⟩ }

def deliver (s : Polls) (q : ℕ) (etag : String) (got : List Peer) : Polls :=
  { s.setPhase q .closed with
    clients := Function.update s.clients (s.requests q).client ⟨etag, some got, none⟩ }

def giveUp (s : Polls) (c : ℕ) : Polls :=
  { s with
    clients := Function.update s.clients c { s.clients c with pending := none } }

@[simp] theorem phase_setPhase (s : Polls) (q : ℕ) (phase : Phase) :
    ((s.setPhase q phase).requests q).phase = phase := by
  simp [setPhase]

theorem afterCheck_ne_unused (since : String) (r : Registry) :
    afterCheck since r ≠ .unused := by
  unfold afterCheck
  split
  · simp
  · split <;> simp

/-- A step touches one request at most, and no request but an unused one changes
hands. -/
theorem Step.requests (h : Step newEtag s s') :
    ∃ q₀, (∀ q, q ≠ q₀ → s'.requests q = s.requests q) ∧
      ((s.requests q₀).phase ≠ .unused →
        (s'.requests q₀).client = (s.requests q₀).client ∧
        (s'.requests q₀).since = (s.requests q₀).since ∧
        (s'.requests q₀).phase ≠ .unused) := by
  have hset : ∀ {q : ℕ} {phase : Phase}, phase ≠ .unused →
      ∃ q₀, (∀ q', q' ≠ q₀ → (s.setPhase q phase).requests q' = s.requests q') ∧
        ((s.requests q₀).phase ≠ .unused →
          ((s.setPhase q phase).requests q₀).client = (s.requests q₀).client ∧
          ((s.setPhase q phase).requests q₀).since = (s.requests q₀).since ∧
          ((s.setPhase q phase).requests q₀).phase ≠ .unused) := by
    intro q phase hphase
    refine ⟨q, fun q' hq' => Function.update_of_ne hq' _ _, fun _ => ?_⟩
    simp [setPhase, hphase]
  cases h with
  | send c q hq hc =>
      exact ⟨q, fun q' hq' => Function.update_of_ne hq' _ _, fun hused => absurd hq hused⟩
  | check q hq => exact hset (afterCheck_ne_unused _ _)
  | wake q ch hq hclosed => exact hset (by simp)
  | timeout q ch hq => exact hset (by simp)
  | snapshot q order out etag hq horder hpeers => exact hset (by simp)
  | fail q hq => exact hset (by simp)
  | deliver q out etag calls got hq hpending hgot => exact hset (by simp)
  | giveUp c => exact ⟨0, fun _ _ => rfl, fun hused => ⟨rfl, rfl, hused⟩⟩
  | change op => exact ⟨0, fun _ _ => rfl, fun hused => ⟨rfl, rfl, hused⟩⟩

theorem Step.kept (h : Step newEtag s s') {q : ℕ} (hused : (s.requests q).phase ≠ .unused) :
    (s'.requests q).client = (s.requests q).client ∧
      (s'.requests q).since = (s.requests q).since ∧
      (s'.requests q).phase ≠ .unused := by
  obtain ⟨q₀, hother, hq₀⟩ := h.requests
  by_cases hq : q = q₀
  · subst hq
    exact hq₀ hused
  · rw [hother q hq]
    exact ⟨rfl, rfl, hused⟩

def Finitely (s : Polls) : Prop := {q | (s.requests q).phase ≠ .unused}.Finite

theorem Finitely.step (hs : s.Finitely) (h : Step newEtag s s') : s'.Finitely := by
  obtain ⟨q₀, hother, -⟩ := h.requests
  refine (hs.insert q₀).subset fun q hq => ?_
  by_cases hq₀ : q = q₀
  · exact Set.mem_insert_iff.2 (Or.inl hq₀)
  · change (s'.requests q).phase ≠ .unused at hq
    rw [hother q hq₀] at hq
    exact Set.mem_insert_of_mem q₀ hq

theorem Finitely.exists_unused (hs : s.Finitely) : ∃ q, (s.requests q).phase = .unused := by
  obtain ⟨q, hq⟩ := hs.exists_notMem
  exact ⟨q, not_not.1 hq⟩

/-- A client whose etag is the current one holds the contents of the registry. -/
theorem Inv.perm_of_current (hinj : Function.Injective newEtag) (hs : Inv newEtag s) {c : ℕ}
    (hetag : (s.clients c).etag = s.registry.peersEtag) (hne : (s.clients c).etag ≠ "") :
    ((s.clients c).last.getD []).Perm (values s.registry.peers) := by
  rcases hs.client c with ⟨hempty, -⟩ | ⟨k, -, hk⟩
  · exact absurd hempty hne
  · have hcalls : k = s.registry.etagCalls - 1 :=
      hinj (hk.etag.symm.trans (hetag.trans hs.reg.etag))
    have hpos := hs.reg.calls_pos
    obtain ⟨got, hgot, hperm⟩ := hk.last
    rw [hgot]
    exact hperm (by omega)

end Polls

end Coord

namespace Daemon

open Gretun.Net
open Gretun.Disco
open Gretun.Coord
open Foundation.Assoc
open Foundation.Run

def Service.Alone {φ : Type} (d : Service φ) : Service.Action → Prop
  | .look => d.ctxDone = true
  | .respond _ => False
  | .fail => False
  | _ => True

namespace Service

variable {φ : Type} {kit : Kit φ} {d : Service φ}

theorem step_of_alive (halive : d.roster.panicked = false) (a : Action) :
    d.step kit a = d.act kit a := by
  rw [Service.step, if_neg (by simp [halive])]

theorem step_look (halive : d.roster.panicked = false) (htop : d.poll = .top)
    (hctx : d.ctxDone = false) : d.step kit .look = { d with poll := .calling } := by
  rw [step_of_alive halive, act, htop]
  simp [hctx]

theorem step_respond (halive : d.roster.panicked = false) (hcalling : d.poll = .calling)
    (ps : List RemotePeer) :
    d.step kit (.respond ps) = { d with poll := .inHand ps } := by
  rw [step_of_alive halive, act, hcalling]

theorem step_fail (halive : d.roster.panicked = false) (hcalling : d.poll = .calling) :
    d.step kit .fail = { d with poll := if d.ctxDone then .exited else .top } := by
  rw [step_of_alive halive, act, hcalling]

theorem step_reconcile (halive : d.roster.panicked = false) {ps : List RemotePeer}
    (hps : d.poll = .inHand ps) :
    d.step kit .reconcile =
      { d with roster := d.roster.reconcilePeers kit ps, poll := .top } := by
  rw [step_of_alive halive, act, hps]

end Service

structure Fleet (φ : Type) where
  polls : Polls
  daemons : ℕ → Service φ

namespace Fleet

variable {φ : Type}

def start (newEtag : ℕ → String) (pool : Net.Prefix) : Fleet φ where
  polls := .start newEtag pool
  daemons _ := .start

def act (kit : ℕ → Kit φ) (s : Fleet φ) (c : ℕ) (a : Service.Action) : ℕ → Service φ :=
  Function.update s.daemons c ((s.daemons c).step (kit c) a)

/-- The coordinator takes a step that no client sees; a poll loop sends a request,
receives its answer or gets an error instead; a daemon takes a step of its own; or a
machine works. -/
inductive Step (newEtag : ℕ → String) (kit : ℕ → Kit φ) : Fleet φ → Fleet φ → Prop
  | server (s : Fleet φ) (polls : Polls) (hstep : Polls.Step newEtag s.polls polls)
      (hclients : polls.clients = s.polls.clients) :
      Step newEtag kit s { s with polls := polls }
  | call (s : Fleet φ) (c q : ℕ) (hq : (s.polls.requests q).phase = .unused)
      (htop : (s.daemons c).poll = .top) (hctx : (s.daemons c).ctxDone = false)
      (halive : (s.daemons c).roster.panicked = false) :
      Step newEtag kit s ⟨s.polls.send c q, s.act kit c .look⟩
  | answer (s : Fleet φ) (c q : ℕ) (out : List Peer) (etag : String) (calls : ℕ)
      (got : List Peer) (hq : (s.polls.requests q).phase = .answered out etag calls)
      (hc : (s.polls.requests q).client = c)
      (hpending : (s.polls.clients c).pending = some q)
      (hgot : Polls.Shows s.polls.registry calls out got)
      (halive : (s.daemons c).roster.panicked = false) :
      Step newEtag kit s
        ⟨s.polls.deliver q etag got, s.act kit c (.respond (got.map .ofPeer))⟩
  | fail (s : Fleet φ) (c : ℕ) (hcalling : (s.daemons c).poll = .calling)
      (halive : (s.daemons c).roster.panicked = false) :
      Step newEtag kit s ⟨s.polls.giveUp c, s.act kit c .fail⟩
  | alone (s : Fleet φ) (c : ℕ) (a : Service.Action) (ha : (s.daemons c).Alone a) :
      Step newEtag kit s { s with daemons := s.act kit c a }
  | work (s : Fleet φ) (c n : ℕ) (f : φ → φ) :
      Step newEtag kit s
        { s with
          daemons := Function.update s.daemons c
            { s.daemons c with
              roster := (s.daemons c).roster.modify n fun x =>
                { x with body := f x.body } } }

def Reachable (newEtag : ℕ → String) (kit : ℕ → Kit φ) (pool : Net.Prefix)
    (s : Fleet φ) : Prop :=
  Relation.ReflTransGen (Step newEtag kit) (start newEtag pool) s

/-- The daemon waits for a change of the peers: its request is blocked on a channel that
is open. -/
def Waits (s : Fleet φ) (c : ℕ) : Prop :=
  ∃ q ch, (s.polls.clients c).pending = some q ∧
    (s.polls.requests q).phase = .blocked ch ∧ s.polls.registry.chans.IsOpen ch

/-- The keys with a machine are the disco keys of the peers, without the node's own. -/
def Serves (kit : Kit φ) (t : Roster φ) (ps : List Peer) : Prop :=
  ∀ k, (t.find k).isSome ↔ k ∈ ps.map (·.discoKey) ∧ k ≠ kit.self

/-! ## A daemon and its client -/

/-- A daemon `d` and the client `cl` that polls for it agree about where they are. -/
structure InStep (kit : Kit φ) (requests : ℕ → Request) (c : ℕ) (cl : Client)
    (d : Service φ) : Prop where
  calling : d.poll = .calling ↔ cl.pending ≠ none
  request : ∀ q, cl.pending = some q → (requests q).client = c ∧
    (requests q).since = cl.etag ∧ (requests q).phase ≠ .unused
  inHand : ∀ ps, d.poll = .inHand ps → ps = (cl.last.getD []).map .ofPeer
  exited : d.poll = .exited → d.ctxDone = true
  serving : d.shut = false → d.roster.Serving kit
  machines : d.shut = false → (∀ ps, d.poll ≠ .inHand ps) →
    Serves kit d.roster (cl.last.getD [])

section InStep

variable {kit : Kit φ} {requests requests' : ℕ → Request} {c : ℕ} {cl : Client}
  {d : Service φ}

theorem inStep_start (kit : Kit φ) (requests : ℕ → Request) (c : ℕ) :
    InStep kit requests c ⟨"", none, none⟩ .start where
  calling := by simp [Service.start]
  request := by simp
  inHand := by simp [Service.start]
  exited := by simp [Service.start]
  serving _ := ⟨Roster.inv_empty kit, by simp [Service.start, Roster.empty]⟩
  machines _ _ k := by simp [Service.start, Roster.empty, Roster.find]

theorem InStep.kept (h : InStep kit requests c cl d)
    (hkept : ∀ q, (requests q).phase ≠ .unused →
      (requests' q).client = (requests q).client ∧
      (requests' q).since = (requests q).since ∧ (requests' q).phase ≠ .unused) :
    InStep kit requests' c cl d where
  calling := h.calling
  request := by
    intro q hq
    obtain ⟨hclient, hsince, hused⟩ := h.request q hq
    obtain ⟨hclient', hsince', hused'⟩ := hkept q hused
    exact ⟨hclient'.trans hclient, hsince'.trans hsince, hused'⟩
  inHand := h.inHand
  exited := h.exited
  serving := h.serving
  machines := h.machines

theorem pending_eq_none (h : InStep kit requests c cl d) (hpoll : d.poll ≠ .calling) :
    cl.pending = none :=
  not_not.1 (mt h.calling.2 hpoll)

theorem InStep.call (h : InStep kit requests c cl d) {q : ℕ}
    (hq : requests q = ⟨c, cl.etag, .arrived⟩) (htop : d.poll = .top)
    (hctx : d.ctxDone = false) (halive : d.roster.panicked = false) :
    InStep kit requests c { cl with pending := some q } (d.step kit .look) := by
  rw [Service.step_look halive htop hctx]
  refine ⟨by simp, ?_, by simp, by simp, h.serving, fun hshut _ => ?_⟩
  · rintro q' hq'
    obtain rfl := Option.some.inj hq'
    simp [hq]
  · exact h.machines hshut (by simp [htop])

theorem InStep.answer (h : InStep kit requests c cl d) (hpending : cl.pending ≠ none)
    (halive : d.roster.panicked = false) (etag : String) (got : List Peer) :
    InStep kit requests c ⟨etag, some got, none⟩
      (d.step kit (.respond (got.map .ofPeer))) := by
  rw [Service.step_respond halive (h.calling.2 hpending)]
  refine ⟨by simp, by simp, ?_, by simp, h.serving, fun _ hno => absurd rfl (hno _)⟩
  rintro ps hps
  exact (PollAt.inHand.inj hps).symm

theorem InStep.fail (h : InStep kit requests c cl d) (hcalling : d.poll = .calling)
    (halive : d.roster.panicked = false) :
    InStep kit requests c { cl with pending := none } (d.step kit .fail) := by
  rw [Service.step_fail halive hcalling]
  have hmachines : d.shut = false → Serves kit d.roster (cl.last.getD []) :=
    fun hshut => h.machines hshut (by simp [hcalling])
  cases hctx : d.ctxDone with
  | true => exact ⟨by simp, by simp, by simp, fun _ => rfl, h.serving,
      fun hshut _ => hmachines hshut⟩
  | false => exact ⟨by simp, by simp, by simp, by simp, h.serving,
      fun hshut _ => hmachines hshut⟩

theorem serves_reconcilePeers {t : Roster φ} (h : t.Serving kit) (ps : List Peer) :
    Serves kit (t.reconcilePeers kit (ps.map .ofPeer)) ps := by
  intro k
  rw [Roster.isSome_find_reconcilePeers h.inv.alive h.map, Roster.seenKeys,
    List.mem_filter, decide_eq_true_eq, List.map_map]
  rfl

theorem InStep.alone (h : InStep kit requests c cl d) {a : Service.Action}
    (ha : d.Alone a) : InStep kit requests c cl (d.step kit a) := by
  unfold Service.step
  split
  · exact h
  · cases a with
    | cancel => exact ⟨h.calling, h.request, h.inHand, fun _ => rfl, h.serving, h.machines⟩
    | report => exact ⟨h.calling, h.request, h.inHand, h.exited, h.serving, h.machines⟩
    | shutdown =>
        simp only [Service.act]
        split
        · refine ⟨h.calling, h.request, h.inHand, h.exited, ?_, ?_⟩
          · intro hshut
            cases hshut
          · intro hshut
            cases hshut
        · exact h
    | look =>
        have hctx : d.ctxDone = true := ha
        simp only [Service.act]
        split
        · rename_i htop
          have hpending := pending_eq_none h (by simp [htop])
          rw [if_pos hctx]
          exact ⟨by simp [hpending], h.request, by simp, fun _ => hctx, h.serving,
            fun hshut _ => h.machines hshut (by simp [htop])⟩
        · exact h
    | respond ps => exact ha.elim
    | fail => exact ha.elim
    | reconcile =>
        simp only [Service.act]
        split
        · rename_i ps hps
          have hpending := pending_eq_none h (by simp [hps])
          obtain rfl := h.inHand ps hps
          exact ⟨by simp [hpending], h.request, by simp, by simp,
            fun hshut => (h.serving hshut).reconcilePeers _,
            fun hshut _ => serves_reconcilePeers (h.serving hshut) _⟩
        · exact h

theorem InStep.work (h : InStep kit requests c cl d) (n : ℕ) (f : φ → φ) :
    InStep kit requests c cl
      { d with roster := d.roster.modify n fun x => { x with body := f x.body } } where
  calling := h.calling
  request := h.request
  inHand := h.inHand
  exited := h.exited
  serving hshut := ⟨(h.serving hshut).inv.modify n f, (h.serving hshut).map⟩
  machines := h.machines

end InStep

/-! ## Every run -/

section Runs

variable {newEtag : ℕ → String} {kit : ℕ → Kit φ} {pool : Net.Prefix} {s s' : Fleet φ}
  {c : ℕ}

structure Inv (newEtag : ℕ → String) (kit : ℕ → Kit φ) (s : Fleet φ) : Prop where
  polls : Polls.Inv newEtag s.polls
  sent : s.polls.Finitely
  daemon : ∀ c, InStep (kit c) s.polls.requests c (s.polls.clients c) (s.daemons c)

theorem inv_start (newEtag : ℕ → String) (kit : ℕ → Kit φ) (pool : Net.Prefix) :
    Inv newEtag kit (start newEtag pool) where
  polls := Polls.inv_start newEtag pool
  sent := by simp [Polls.Finitely, start, Polls.start]
  daemon c := inStep_start (kit c) _ c

theorem Inv.move (hinj : Function.Injective newEtag) (h : Inv newEtag kit s)
    {polls : Polls} (hstep : Polls.Step newEtag s.polls polls) (c : ℕ) {d : Service φ}
    (hother : ∀ c', c' ≠ c → polls.clients c' = s.polls.clients c')
    (hself : InStep (kit c) polls.requests c (polls.clients c) d) :
    Inv newEtag kit ⟨polls, Function.update s.daemons c d⟩ where
  polls := Polls.inv_step hinj h.polls hstep
  sent := h.sent.step hstep
  daemon c' := by
    by_cases hc : c' = c
    · subst hc
      simpa using hself
    · simp only [Function.update_of_ne hc, hother c' hc]
      exact (h.daemon c').kept fun q => hstep.kept

theorem Inv.step (hinj : Function.Injective newEtag) (h : Inv newEtag kit s)
    (hstep : Step newEtag kit s s') : Inv newEtag kit s' := by
  have hdaemon : ∀ {c : ℕ} {d : Service φ},
      InStep (kit c) s.polls.requests c (s.polls.clients c) d →
      Inv newEtag kit { s with daemons := Function.update s.daemons c d } := by
    intro c d hd
    refine ⟨h.polls, h.sent, fun c' => ?_⟩
    by_cases hc : c' = c
    · subst hc
      simpa using hd
    · simpa [Function.update_of_ne hc] using h.daemon c'
  cases hstep with
  | server polls hstep hclients =>
      refine ⟨Polls.inv_step hinj h.polls hstep, h.sent.step hstep, fun c => ?_⟩
      rw [hclients]
      exact (h.daemon c).kept fun q => hstep.kept
  | call c q hq htop hctx halive =>
      have hnone := pending_eq_none (h.daemon c) (by simp [htop])
      have hsend : Polls.Step newEtag s.polls (s.polls.send c q) := .send _ c q hq hnone
      refine h.move hinj hsend c (fun c' hc' => Function.update_of_ne hc' _ _) ?_
      rw [show (s.polls.send c q).clients c =
        { s.polls.clients c with pending := some q } from Function.update_self ..]
      exact ((h.daemon c).kept fun q => hsend.kept).call (Function.update_self ..) htop
        hctx halive
  | answer c q out etag calls got hq hc hpending hgot halive =>
      subst hc
      have hdeliver : Polls.Step newEtag s.polls (s.polls.deliver q etag got) :=
        .deliver _ q out etag calls got hq hpending hgot
      refine h.move hinj hdeliver _ (fun c' hc' => Function.update_of_ne hc' _ _) ?_
      rw [show (s.polls.deliver q etag got).clients (s.polls.requests q).client =
        ⟨etag, some got, none⟩ from Function.update_self ..]
      exact ((h.daemon _).kept fun q => hdeliver.kept).answer (by simp [hpending]) halive
        etag got
  | fail c hcalling halive =>
      have hgiveUp : Polls.Step newEtag s.polls (s.polls.giveUp c) := .giveUp _ c
      refine h.move hinj hgiveUp c (fun c' hc' => Function.update_of_ne hc' _ _) ?_
      rw [show (s.polls.giveUp c).clients c =
        { s.polls.clients c with pending := none } from Function.update_self ..]
      exact ((h.daemon c).kept fun q => hgiveUp.kept).fail hcalling halive
  | alone c a ha => exact hdaemon ((h.daemon c).alone ha)
  | work c n f => exact hdaemon ((h.daemon c).work n f)

theorem inv_of_reachable (hinj : Function.Injective newEtag)
    (hs : Reachable newEtag kit pool s) : Inv newEtag kit s :=
  invariant_of_reachable (I := Inv newEtag kit) (r := Step newEtag kit)
    (fun _ _ h hstep => h.step hinj hstep) (inv_start newEtag kit pool) hs

theorem Inv.serves_of_waits (hinj : Function.Injective newEtag) (h : Inv newEtag kit s)
    (hshut : (s.daemons c).shut = false) (hwaits : s.Waits c) :
    Serves (kit c) (s.daemons c).roster (values s.polls.registry.peers) := by
  obtain ⟨q, ch, hpending, hphase, hopen⟩ := hwaits
  have hdaemon := h.daemon c
  obtain ⟨-, hsince, -⟩ := hdaemon.request q hpending
  obtain ⟨hne, hcurrent⟩ := (h.polls.request q).blocked ch hphase
  have hperm := h.polls.perm_of_current hinj (hsince.symm.trans (hcurrent hopen).2)
    (hsince ▸ hne)
  have hcalling : (s.daemons c).poll = .calling := hdaemon.calling.2 (by simp [hpending])
  intro k
  rw [hdaemon.machines hshut (by simp [hcalling]) k, (hperm.map _).mem_iff]

/-! ## Catching up -/

def CanWait (newEtag : ℕ → String) (kit : ℕ → Kit φ) (s : Fleet φ) (c : ℕ) : Prop :=
  ∃ s', Relation.ReflTransGen (Step newEtag kit) s s' ∧
    s'.polls.registry = s.polls.registry ∧ (s'.daemons c).shut = false ∧ s'.Waits c

theorem CanWait.of_step (hstep : Step newEtag kit s s')
    (hregistry : s'.polls.registry = s.polls.registry) (h : CanWait newEtag kit s' c) :
    CanWait newEtag kit s c := by
  obtain ⟨s'', hsteps, hregistry', hwaits⟩ := h
  exact ⟨s'', hsteps.head hstep, hregistry'.trans hregistry, hwaits⟩

structure Running (newEtag : ℕ → String) (kit : ℕ → Kit φ) (s : Fleet φ) (c : ℕ) :
    Prop where
  inv : Inv newEtag kit s
  shut : (s.daemons c).shut = false
  ctx : (s.daemons c).ctxDone = false

theorem Running.alive (h : Running newEtag kit s c) :
    (s.daemons c).roster.panicked = false :=
  ((h.inv.daemon c).serving h.shut).inv.alive

theorem afterCheck_of_current {r : Registry} {since : String} (hne : since ≠ "")
    (hcurrent : since = r.peersEtag) :
    Polls.afterCheck since r = .blocked r.peersBroad := by
  rw [Polls.afterCheck, if_neg hne, Registry.waitChannel, if_neg (by simp [hcurrent])]

theorem afterCheck_cases (since : String) (r : Registry) :
    Polls.afterCheck since r = .woken ∨
      Polls.afterCheck since r = .blocked r.peersBroad := by
  unfold Polls.afterCheck Registry.waitChannel
  split
  · exact Or.inl rfl
  · by_cases hetag : r.peersEtag ≠ since
    · rw [if_pos hetag]
      exact Or.inl rfl
    · rw [if_neg hetag]
      exact Or.inr rfl

theorem Running.canWait_of_blocked (h : Running newEtag kit s c) {q : ℕ}
    (hpending : (s.polls.clients c).pending = some q)
    (hphase : (s.polls.requests q).phase = .blocked s.polls.registry.peersBroad) :
    CanWait newEtag kit s c :=
  ⟨s, .refl, rfl, h.shut, q, _, hpending, hphase, h.inv.polls.reg.isOpen⟩

theorem Running.server (hinj : Function.Injective newEtag) (h : Running newEtag kit s c)
    {polls : Polls} (hstep : Polls.Step newEtag s.polls polls)
    (hclients : polls.clients = s.polls.clients) :
    Running newEtag kit { s with polls := polls } c :=
  ⟨h.inv.step hinj (.server s polls hstep hclients), h.shut, h.ctx⟩

theorem Running.call (hinj : Function.Injective newEtag) (h : Running newEtag kit s c)
    (htop : (s.daemons c).poll = .top) :
    ∃ s' q, Step newEtag kit s s' ∧ s'.polls.registry = s.polls.registry ∧
      Running newEtag kit s' c ∧
      s'.polls.clients c = { s.polls.clients c with pending := some q } ∧
      (s'.polls.requests q).phase = .arrived := by
  obtain ⟨q, hq⟩ := h.inv.sent.exists_unused
  have hcall : Step newEtag kit s ⟨s.polls.send c q, s.act kit c .look⟩ :=
    .call s c q hq htop h.ctx h.alive
  have hdaemon : s.act kit c .look c = { s.daemons c with poll := .calling } := by
    rw [act, Function.update_self, Service.step_look h.alive htop h.ctx]
  refine ⟨_, q, hcall, rfl, ⟨h.inv.step hinj hcall, ?_, ?_⟩, Function.update_self .., ?_⟩
  · simp only [hdaemon]
    exact h.shut
  · simp only [hdaemon]
    exact h.ctx
  · simp [Polls.send]

theorem Running.answer (hinj : Function.Injective newEtag) (h : Running newEtag kit s c)
    {q : ℕ} (hpending : (s.polls.clients c).pending = some q) {out : List Peer}
    {etag : String} {calls : ℕ}
    (hphase : (s.polls.requests q).phase = .answered out etag calls) :
    ∃ s', Step newEtag kit s s' ∧ s'.polls.registry = s.polls.registry ∧
      Running newEtag kit s' c ∧ (s'.polls.clients c).etag = etag ∧
      (s'.daemons c).poll = .inHand (out.map .ofPeer) := by
  obtain ⟨hclient, -, -⟩ := (h.inv.daemon c).request q hpending
  have hanswer : Step newEtag kit s
      ⟨s.polls.deliver q etag out, s.act kit c (.respond (out.map .ofPeer))⟩ :=
    .answer s c q out etag calls out hphase hclient hpending ⟨rfl, fun _ => rfl⟩ h.alive
  have hdaemon : s.act kit c (.respond (out.map .ofPeer)) c =
      { s.daemons c with poll := .inHand (out.map .ofPeer) } := by
    rw [act, Function.update_self, Service.step_respond h.alive
      ((h.inv.daemon c).calling.2 (by simp [hpending]))]
  refine ⟨_, hanswer, rfl, ⟨h.inv.step hinj hanswer, ?_, ?_⟩, ?_, ?_⟩
  · simp only [hdaemon]
    exact h.shut
  · simp only [hdaemon]
    exact h.ctx
  · simp [Polls.deliver, hclient]
  · simp only [hdaemon]

theorem Running.fail (hinj : Function.Injective newEtag) (h : Running newEtag kit s c)
    (hcalling : (s.daemons c).poll = .calling) :
    ∃ s', Step newEtag kit s s' ∧ s'.polls.registry = s.polls.registry ∧
      Running newEtag kit s' c ∧ (s'.daemons c).poll = .top := by
  have hfail : Step newEtag kit s ⟨s.polls.giveUp c, s.act kit c .fail⟩ :=
    .fail s c hcalling h.alive
  have hdaemon : s.act kit c .fail c = { s.daemons c with poll := .top } := by
    rw [act, Function.update_self, Service.step_fail h.alive hcalling]
    simp [h.ctx]
  refine ⟨_, hfail, rfl, ⟨h.inv.step hinj hfail, ?_, ?_⟩, ?_⟩
  · simp only [hdaemon]
    exact h.shut
  · simp only [hdaemon]
    exact h.ctx
  · simp only [hdaemon]

theorem Running.reconcile (hinj : Function.Injective newEtag)
    (h : Running newEtag kit s c) {ps : List RemotePeer}
    (hps : (s.daemons c).poll = .inHand ps) :
    ∃ s', Step newEtag kit s s' ∧ s'.polls = s.polls ∧ Running newEtag kit s' c ∧
      (s'.daemons c).poll = .top := by
  have halone : Step newEtag kit s { s with daemons := s.act kit c .reconcile } :=
    .alone s c .reconcile trivial
  have hdaemon : s.act kit c .reconcile c =
      { s.daemons c with
        roster := (s.daemons c).roster.reconcilePeers (kit c) ps
        poll := .top } := by
    rw [act, Function.update_self, Service.step_reconcile h.alive hps]
  refine ⟨_, halone, rfl, ⟨h.inv.step hinj halone, ?_, ?_⟩, ?_⟩
  · simp only [hdaemon]
    exact h.shut
  · simp only [hdaemon]
    exact h.ctx
  · simp only [hdaemon]

theorem Running.check (hinj : Function.Injective newEtag) (h : Running newEtag kit s c)
    {q : ℕ} (hpending : (s.polls.clients c).pending = some q)
    (harrived : (s.polls.requests q).phase = .arrived) :
    ∃ s', Step newEtag kit s s' ∧ s'.polls.registry = s.polls.registry ∧
      Running newEtag kit s' c ∧ (s'.polls.clients c).pending = some q ∧
      (s'.polls.requests q).phase =
        Polls.afterCheck (s.polls.clients c).etag s.polls.registry := by
  obtain ⟨-, hsince, -⟩ := (h.inv.daemon c).request q hpending
  have hcheck : Polls.Step newEtag s.polls _ := .check s.polls q harrived
  refine ⟨_, .server s _ hcheck rfl, rfl, h.server hinj hcheck rfl, hpending, ?_⟩
  rw [← hsince]
  exact Polls.phase_setPhase ..

theorem Running.canWait_of_current (hinj : Function.Injective newEtag)
    (h : Running newEtag kit s c) (htop : (s.daemons c).poll = .top)
    (hne : s.polls.registry.peersEtag ≠ "")
    (hcurrent : (s.polls.clients c).etag = s.polls.registry.peersEtag) :
    CanWait newEtag kit s c := by
  obtain ⟨s₁, q, hstep₁, hregistry₁, hrunning₁, hclient₁, harrived₁⟩ := h.call hinj htop
  obtain ⟨s₂, hstep₂, hregistry₂, hrunning₂, hpending₂, hphase₂⟩ :=
    hrunning₁.check hinj (q := q) (by rw [hclient₁]) harrived₁
  have hcanWait : CanWait newEtag kit s₂ c := by
    refine hrunning₂.canWait_of_blocked hpending₂ ?_
    rw [hphase₂, hclient₁, hregistry₂, hregistry₁]
    exact afterCheck_of_current (hcurrent ▸ hne) hcurrent
  exact .of_step hstep₁ hregistry₁ (.of_step hstep₂ hregistry₂ hcanWait)

/-- A request that is woken up brings the current list; the daemon reconciles it and
polls again with its etag. -/
theorem Running.canWait_of_woken (hinj : Function.Injective newEtag)
    (hne : ∀ n, newEtag n ≠ "") (h : Running newEtag kit s c) {q : ℕ}
    (hpending : (s.polls.clients c).pending = some q)
    (hwoken : (s.polls.requests q).phase = .woken) : CanWait newEtag kit s c := by
  have hsnapshot : Polls.Step newEtag s.polls _ :=
    .snapshot s.polls q (values s.polls.registry.peers) _ _ hwoken (List.Perm.refl _) rfl
  have hrunning₁ := h.server hinj hsnapshot rfl
  obtain ⟨s₂, hstep₂, hregistry₂, hrunning₂, hetag₂, hinHand₂⟩ :=
    hrunning₁.answer hinj (q := q) hpending (Polls.phase_setPhase ..)
  obtain ⟨s₃, hstep₃, hpolls₃, hrunning₃, htop₃⟩ := hrunning₂.reconcile hinj hinHand₂
  have hcanWait : CanWait newEtag kit s₃ c := by
    refine hrunning₃.canWait_of_current hinj htop₃ ?_ ?_
    · rw [hrunning₃.inv.polls.reg.etag]
      exact hne _
    · rw [hpolls₃, hetag₂, hregistry₂]
      rfl
  exact .of_step (.server s _ hsnapshot rfl) rfl
    (.of_step hstep₂ hregistry₂ (.of_step hstep₃ (congrArg _ hpolls₃) hcanWait))

theorem Running.canWait_of_arrived (hinj : Function.Injective newEtag)
    (hne : ∀ n, newEtag n ≠ "") (h : Running newEtag kit s c) {q : ℕ}
    (hpending : (s.polls.clients c).pending = some q)
    (harrived : (s.polls.requests q).phase = .arrived) : CanWait newEtag kit s c := by
  obtain ⟨s', hstep, hregistry, hrunning, hpending', hphase⟩ :=
    h.check hinj hpending harrived
  refine .of_step hstep hregistry ?_
  rcases afterCheck_cases (s.polls.clients c).etag s.polls.registry with hwoken | hblocked
  · exact hrunning.canWait_of_woken hinj hne hpending' (hphase.trans hwoken)
  · refine hrunning.canWait_of_blocked hpending' ?_
    rw [hphase, hblocked, hregistry]

theorem Running.canWait_of_top (hinj : Function.Injective newEtag)
    (hne : ∀ n, newEtag n ≠ "") (h : Running newEtag kit s c)
    (htop : (s.daemons c).poll = .top) : CanWait newEtag kit s c := by
  obtain ⟨s', q, hstep, hregistry, hrunning, hclient, harrived⟩ := h.call hinj htop
  exact .of_step hstep hregistry
    (hrunning.canWait_of_arrived hinj hne (by rw [hclient]) harrived)

theorem Running.canWait_of_inHand (hinj : Function.Injective newEtag)
    (hne : ∀ n, newEtag n ≠ "") (h : Running newEtag kit s c) {ps : List RemotePeer}
    (hps : (s.daemons c).poll = .inHand ps) : CanWait newEtag kit s c := by
  obtain ⟨s', hstep, hpolls, hrunning, htop⟩ := h.reconcile hinj hps
  exact .of_step hstep (congrArg _ hpolls) (hrunning.canWait_of_top hinj hne htop)

/-- Wherever a request is, its daemon can come to wait: a request that the coordinator
has closed is given up, and an answer that is out of date is followed by another
poll. -/
theorem Running.canWait_of_calling (hinj : Function.Injective newEtag)
    (hne : ∀ n, newEtag n ≠ "") (h : Running newEtag kit s c)
    (hcalling : (s.daemons c).poll = .calling) : CanWait newEtag kit s c := by
  obtain ⟨q, hpending⟩ := Option.ne_none_iff_exists'.1 ((h.inv.daemon c).calling.1 hcalling)
  obtain ⟨-, -, hused⟩ := (h.inv.daemon c).request q hpending
  cases hphase : (s.polls.requests q).phase with
  | unused => exact absurd hphase hused
  | arrived => exact h.canWait_of_arrived hinj hne hpending hphase
  | blocked ch =>
      by_cases hopen : s.polls.registry.chans.IsOpen ch
      · exact ⟨s, .refl, rfl, h.shut, q, ch, hpending, hphase, hopen⟩
      · have hwake : Polls.Step newEtag s.polls _ := .wake s.polls q ch hphase hopen
        exact .of_step (.server s _ hwake rfl) rfl
          ((h.server hinj hwake rfl).canWait_of_woken hinj hne (q := q) hpending
            (Polls.phase_setPhase ..))
  | woken => exact h.canWait_of_woken hinj hne hpending hphase
  | answered out etag calls =>
      obtain ⟨s', hstep, hregistry, hrunning, -, hinHand⟩ := h.answer hinj hpending hphase
      exact .of_step hstep hregistry (hrunning.canWait_of_inHand hinj hne hinHand)
  | closed =>
      obtain ⟨s', hstep, hregistry, hrunning, htop⟩ := h.fail hinj hcalling
      exact .of_step hstep hregistry (hrunning.canWait_of_top hinj hne htop)

theorem Running.canWait (hinj : Function.Injective newEtag) (hne : ∀ n, newEtag n ≠ "")
    (h : Running newEtag kit s c) : CanWait newEtag kit s c := by
  cases hpoll : (s.daemons c).poll with
  | top => exact h.canWait_of_top hinj hne hpoll
  | calling => exact h.canWait_of_calling hinj hne hpoll
  | inHand ps => exact h.canWait_of_inHand hinj hne hpoll
  | exited =>
      have hctx := (h.inv.daemon c).exited hpoll
      rw [h.ctx] at hctx
      cases hctx

/-- The machines of the daemons follow the registry. Let the etags be different and not
empty; two equal readings of the clock would give the same one. In every interleaving of
the coordinator, the poll loops, the shutdowns and the machines, a daemon that waits for a
change and has not been shut down has a machine for every other peer that is registered
and for nobody else. And a daemon that has neither been shut down nor cancelled can come
to wait, from wherever it is, without a change of the registry. -/
theorem machines_follow_registry (hinj : Function.Injective newEtag)
    (hne : ∀ n, newEtag n ≠ "") (hs : Reachable newEtag kit pool s) (c : ℕ)
    (hshut : (s.daemons c).shut = false) :
    (s.Waits c →
      Serves (kit c) (s.daemons c).roster (values s.polls.registry.peers)) ∧
    ((s.daemons c).ctxDone = false → CanWait newEtag kit s c) := by
  have hinv := inv_of_reachable hinj hs
  exact ⟨hinv.serves_of_waits hinj hshut, fun hctx =>
    Running.canWait hinj hne ⟨hinv, hshut, hctx⟩⟩

/-- Another node registers; the daemon comes to wait, and has a machine for it. -/
theorem machine_of_registered_peer :
    ∃ s : Fleet Machine, Reachable (toString : ℕ → String) (fun _ => sampleKit)
        (Net.Prefix.ofV4 0x0a000000 24) s ∧ s.Waits 0 ∧
      ((s.daemons 0).roster.find (Vector.replicate 32 2)).isSome := by
  have hne : ∀ n : ℕ, toString n ≠ "" := by
    intro n h
    exact Foundation.Decimal.toDigits_ne_nil n (String.ofList_injective h)
  let peer : Peer := ⟨List.replicate 32 1, Vector.replicate 32 2, "a", .zero, [], 0⟩
  have hs : Reachable (toString : ℕ → String) (fun _ => sampleKit)
      (Net.Prefix.ofV4 0x0a000000 24) (_ : Fleet Machine) :=
    Relation.ReflTransGen.refl.tail
      (.server _ _ (.change _ (.register none 7 peer)) rfl)
  obtain ⟨s, hsteps, hregistry, hshut, hwaits⟩ :=
    (machines_follow_registry Net.toString_nat_injective hne hs 0 rfl).2 rfl
  refine ⟨s, hs.trans hsteps, hwaits, ?_⟩
  rw [(machines_follow_registry Net.toString_nat_injective hne (hs.trans hsteps) 0
    hshut).1 hwaits, hregistry]
  exact ⟨by decide +kernel, by decide +kernel⟩

end Runs

end Fleet

end Daemon

end Gretun
