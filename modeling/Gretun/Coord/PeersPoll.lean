import Gretun.Coord.Registry
import Gretun.Foundation.Run
import Mathlib.Logic.Function.Basic

/-!
# Long polls for the peers

Any number of clients poll `GET /v1/peers`, each sending the etag of the last
response it received, while any number of calls change the registry. The parts of
a request that hold the lock are single steps: the check of the etag together
with the capture of the channel, and the snapshot. Between them a request waits
and may be woken or time out, its client may give up on it and start another, and
any number of changes may come.

The endpoint lists of a snapshot share their arrays with the registry, and the
response is written after the lock is released. A change that comes in between
may show through, so what the client then reads of them is left open.
-/

namespace Gretun

namespace Coord

open Foundation.Assoc
open Foundation.Channel
open Foundation.Run

/-- A client of `peersPollLoop`: the etag and the peers of the last response, and
the request it waits for. -/
structure Client where
  etag : String
  last : Option (List Peer)
  pending : Option ℕ

/-- How far `handlePeers` has come with a request. A snapshot comes with its etag
and with the number of etags made by then. -/
inductive Phase where
  | unused
  | arrived
  | blocked (ch : ℕ)
  | woken
  | answered (out : List Peer) (etag : String) (calls : ℕ)
  | closed
  deriving DecidableEq

structure Request where
  client : ℕ
  since : String
  phase : Phase

structure Polls where
  registry : Registry
  clients : ℕ → Client
  requests : ℕ → Request

namespace Polls

def start (newEtag : ℕ → String) (pool : Net.Prefix) : Polls where
  registry := Registry.new newEtag pool
  clients _ := ⟨"", none, none⟩
  requests _ := ⟨0, "", .unused⟩

def setPhase (s : Polls) (q : ℕ) (phase : Phase) : Polls :=
  { s with requests :=
      Function.update s.requests q { s.requests q with phase := phase } }

/-- The beginning of `handlePeers`: a request without an etag does not wait, and
`WaitForPeersChange` waits only when the etag is the current one. -/
def afterCheck (since : String) (r : Registry) : Phase :=
  if since = "" then .woken
  else match r.waitChannel since with
    | none => .woken
    | some ch => .blocked ch

/-- What a client may read of the snapshot `out`: all of it, unless the registry
has changed since; then the endpoints may differ. -/
structure Shows (r : Registry) (calls : ℕ) (out got : List Peer) : Prop where
  rest : got.map (fun p => { p with endpoints := [] }) =
    out.map fun p => { p with endpoints := [] }
  unchanged : r.etagCalls = calls → got = out

inductive Step (newEtag : ℕ → String) : Polls → Polls → Prop
  | send (s : Polls) (c q : ℕ) (hq : (s.requests q).phase = .unused)
      (hc : (s.clients c).pending = none) :
      Step newEtag s
        { s with
          clients := Function.update s.clients c
            { s.clients c with pending := some q }
          requests := Function.update s.requests q
            ⟨c, (s.clients c).etag, .arrived⟩ }
  | check (s : Polls) (q : ℕ) (hq : (s.requests q).phase = .arrived) :
      Step newEtag s
        (s.setPhase q (afterCheck (s.requests q).since s.registry))
  | wake (s : Polls) (q ch : ℕ) (hq : (s.requests q).phase = .blocked ch)
      (hclosed : ¬ s.registry.chans.IsOpen ch) :
      Step newEtag s (s.setPhase q .woken)
  | timeout (s : Polls) (q ch : ℕ) (hq : (s.requests q).phase = .blocked ch) :
      Step newEtag s (s.setPhase q .woken)
  | snapshot (s : Polls) (q : ℕ) (order out : List Peer) (etag : String)
      (hq : (s.requests q).phase = .woken)
      (horder : order.Perm (values s.registry.peers))
      (hpeers : s.registry.peersIn none order = .ok (out, etag)) :
      Step newEtag s
        (s.setPhase q (.answered out etag s.registry.etagCalls))
  | fail (s : Polls) (q : ℕ) (hq : (s.requests q).phase = .woken) :
      Step newEtag s (s.setPhase q .closed)
  | deliver (s : Polls) (q : ℕ) (out : List Peer) (etag : String) (calls : ℕ)
      (got : List Peer) (hq : (s.requests q).phase = .answered out etag calls)
      (hpending : (s.clients (s.requests q).client).pending = some q)
      (hgot : Shows s.registry calls out got) :
      Step newEtag s
        { s.setPhase q .closed with
          clients := Function.update s.clients (s.requests q).client
            ⟨etag, some got, none⟩ }
  | giveUp (s : Polls) (c : ℕ) :
      Step newEtag s
        { s with
          clients := Function.update s.clients c
            { s.clients c with pending := none } }
  | change (s : Polls) (op : RegistryOp) :
      Step newEtag s { s with registry := s.registry.call newEtag op }

def Reachable (newEtag : ℕ → String) (pool : Net.Prefix) (s : Polls) : Prop :=
  Relation.ReflTransGen (Step newEtag) (start newEtag pool) s

/-! ## The registry -/

structure RegOk (newEtag : ℕ → String) (r : Registry) : Prop where
  calls_pos : 0 < r.etagCalls
  etag : r.peersEtag = newEtag (r.etagCalls - 1)
  wf : r.chans.Wf
  made : r.peersBroad < r.chans.next
  isOpen : r.chans.IsOpen r.peersBroad

theorem regOk_new (newEtag : ℕ → String) (pool : Net.Prefix) :
    RegOk newEtag (Registry.new newEtag pool) where
  calls_pos := Nat.one_pos
  etag := rfl
  wf := Chans.wf_empty.make
  made := Nat.one_pos
  isOpen := List.not_mem_nil

theorem RegOk.bumpEtagLocked {newEtag : ℕ → String} {r : Registry}
    (h : RegOk newEtag r) : RegOk newEtag (r.bumpEtagLocked newEtag) where
  calls_pos := Nat.succ_pos _
  etag := rfl
  wf := h.wf.make.close (Nat.lt_succ_of_lt h.made) h.isOpen
  made := Nat.lt_succ_self _
  isOpen := by
    change (r.chans.make.close r.peersBroad).IsOpen r.chans.fresh
    rw [Chans.isOpen_close]
    exact ⟨Nat.ne_of_gt h.made, h.wf.isOpen_fresh⟩

/-- A call leaves the registry alone, or is a change of the maps followed by a
new etag. -/
theorem call_eq_or_bump (newEtag : ℕ → String) (r : Registry) (op : RegistryOp) :
    r.call newEtag op = r ∨
      ∃ peers byTunnel, r.call newEtag op = Registry.bumpEtagLocked newEtag
        { r with peers := peers, byTunnel := byTunnel } := by
  rcases Registry.call_cases newEtag r op with
    hsame | ⟨key, p, p', -, -, -, heq⟩ | ⟨p, ip, -, -, -, -, heq⟩
  · exact Or.inl hsame
  · exact Or.inr ⟨_, _, heq⟩
  · exact Or.inr ⟨_, _, heq⟩

theorem RegOk.call {newEtag : ℕ → String} {r : Registry} (h : RegOk newEtag r)
    (op : RegistryOp) : RegOk newEtag (r.call newEtag op) := by
  rcases call_eq_or_bump newEtag r op with hsame | ⟨peers, byTunnel, heq⟩
  · rwa [hsame]
  · rw [heq]
    exact RegOk.bumpEtagLocked (r := { r with peers := peers, byTunnel := byTunnel })
      ⟨h.calls_pos, h.etag, h.wf, h.made, h.isOpen⟩

/-! ## Clients and requests -/

/-- The client holds the response with the `k`-th etag. If that is the current
one, it holds the contents of the registry. -/
structure Holds (newEtag : ℕ → String) (r : Registry) (c : Client) (k : ℕ) :
    Prop where
  lt : k < r.etagCalls
  etag : c.etag = newEtag k
  last : ∃ got, c.last = some got ∧
    (k + 1 = r.etagCalls → got.Perm (values r.peers))

def HoldsBelow (newEtag : ℕ → String) (r : Registry) (c : Client) (n : ℕ) : Prop :=
  c.etag = "" ∧ c.last = none ∨ ∃ k < n, Holds newEtag r c k

structure RequestOk (newEtag : ℕ → String) (r : Registry) (clients : ℕ → Client)
    (q : ℕ) (rq : Request) : Prop where
  /-- Its client has not fallen behind the etag it sent. -/
  since : rq.phase ≠ .unused → rq.since ≠ "" →
    ∃ k j, rq.since = newEtag k ∧ k ≤ j ∧ Holds newEtag r (clients rq.client) j
  /-- It waits for the current channel, or for one that is closed already. -/
  blocked : ∀ ch, rq.phase = .blocked ch → rq.since ≠ "" ∧
    (r.chans.IsOpen ch → ch = r.peersBroad ∧ rq.since = r.peersEtag)
  /-- Its snapshot is of the version of its etag, which its client has not. -/
  answered : ∀ out etag calls, rq.phase = .answered out etag calls →
    0 < calls ∧ calls ≤ r.etagCalls ∧ etag = newEtag (calls - 1) ∧
      (calls = r.etagCalls → out.Perm (values r.peers)) ∧
      ((clients rq.client).pending = some q →
        HoldsBelow newEtag r (clients rq.client) calls)

structure Inv (newEtag : ℕ → String) (s : Polls) : Prop where
  reg : RegOk newEtag s.registry
  client : ∀ c, HoldsBelow newEtag s.registry (s.clients c) s.registry.etagCalls
  request : ∀ q, RequestOk newEtag s.registry s.clients q (s.requests q)

theorem inv_start (newEtag : ℕ → String) (pool : Net.Prefix) :
    Inv newEtag (start newEtag pool) where
  reg := regOk_new newEtag pool
  client _ := Or.inl ⟨rfl, rfl⟩
  request _ := by
    refine ⟨fun h => absurd rfl h, ?_, ?_⟩
    · intro ch h
      cases h
    · intro out etag calls h
      cases h

/-- A response stays what it was while the registry moves on. -/
theorem Holds.call {newEtag : ℕ → String} {r : Registry} {c : Client} {k : ℕ}
    (h : Holds newEtag r c k) (op : RegistryOp) :
    Holds newEtag (r.call newEtag op) c k := by
  rcases call_eq_or_bump newEtag r op with hsame | ⟨peers, byTunnel, heq⟩
  · rwa [hsame]
  · rw [heq]
    have hlt := h.lt
    obtain ⟨got, hgot, -⟩ := h.last
    refine ⟨Nat.lt_succ_of_lt hlt, h.etag, got, hgot, ?_⟩
    intro hk
    change k + 1 = r.etagCalls + 1 at hk
    omega

theorem HoldsBelow.call {newEtag : ℕ → String} {r : Registry} {c : Client} {n : ℕ}
    (h : HoldsBelow newEtag r c n) (op : RegistryOp) :
    HoldsBelow newEtag (r.call newEtag op) c n := by
  rcases h with hnone | ⟨k, hk, hholds⟩
  · exact Or.inl hnone
  · exact Or.inr ⟨k, hk, hholds.call op⟩

theorem etagCalls_le_call (newEtag : ℕ → String) (r : Registry) (op : RegistryOp) :
    r.etagCalls ≤ (r.call newEtag op).etagCalls := by
  rcases call_eq_or_bump newEtag r op with hsame | ⟨peers, byTunnel, heq⟩
  · rw [hsame]
  · rw [heq]
    exact Nat.le_succ _

theorem HoldsBelow.mono {newEtag : ℕ → String} {r : Registry} {c : Client}
    {n m : ℕ} (h : HoldsBelow newEtag r c n) (hnm : n ≤ m) :
    HoldsBelow newEtag r c m := by
  rcases h with hnone | ⟨k, hk, hholds⟩
  · exact Or.inl hnone
  · exact Or.inr ⟨k, by omega, hholds⟩

/-- A change of the registry closes the channel that every request that is still
blocked waits for. -/
theorem RequestOk.call {newEtag : ℕ → String} {r : Registry}
    {clients : ℕ → Client} {q : ℕ} {rq : Request}
    (h : RequestOk newEtag r clients q rq) (op : RegistryOp) :
    RequestOk newEtag (r.call newEtag op) clients q rq := by
  constructor
  · intro hused hsince
    obtain ⟨k, j, hk, hkj, hj⟩ := h.since hused hsince
    exact ⟨k, j, hk, hkj, hj.call op⟩
  · intro ch hch
    obtain ⟨hsince, hopen⟩ := h.blocked ch hch
    refine ⟨hsince, ?_⟩
    rcases call_eq_or_bump newEtag r op with hsame | ⟨peers, byTunnel, heq⟩
    · rwa [hsame]
    · rw [heq]
      intro hstill
      change (r.chans.make.close r.peersBroad).IsOpen ch at hstill
      rw [Chans.isOpen_close] at hstill
      exact absurd (hopen hstill.2).1 hstill.1
  · intro out etag calls hphase
    obtain ⟨hpos, hle, hetag, hout, hpending⟩ := h.answered out etag calls hphase
    refine ⟨hpos, hle.trans (etagCalls_le_call newEtag r op), hetag, ?_, ?_⟩
    · rcases call_eq_or_bump newEtag r op with hsame | ⟨peers, byTunnel, heq⟩
      · rwa [hsame]
      · rw [heq]
        intro hcalls
        change calls = r.etagCalls + 1 at hcalls
        omega
    · exact fun hp => (hpending hp).call op

/-! ## Steps -/

theorem Holds.congr {newEtag : ℕ → String} {r : Registry} {c c' : Client} {k : ℕ}
    (h : Holds newEtag r c k) (hetag : c'.etag = c.etag) (hlast : c'.last = c.last) :
    Holds newEtag r c' k :=
  ⟨h.lt, hetag.trans h.etag, by rw [hlast]; exact h.last⟩

theorem HoldsBelow.congr {newEtag : ℕ → String} {r : Registry} {c c' : Client}
    {n : ℕ} (h : HoldsBelow newEtag r c n) (hetag : c'.etag = c.etag)
    (hlast : c'.last = c.last) : HoldsBelow newEtag r c' n := by
  rcases h with ⟨hnone, hnone'⟩ | ⟨k, hk, hholds⟩
  · exact Or.inl ⟨hetag.trans hnone, hlast.trans hnone'⟩
  · exact Or.inr ⟨k, hk, hholds.congr hetag hlast⟩

/-- What is known of a request survives when its client neither receives
anything nor turns to it. -/
theorem RequestOk.congr {newEtag : ℕ → String} {r : Registry}
    {clients clients' : ℕ → Client} {q : ℕ} {rq : Request}
    (h : RequestOk newEtag r clients q rq)
    (hetag : (clients' rq.client).etag = (clients rq.client).etag)
    (hlast : (clients' rq.client).last = (clients rq.client).last)
    (hpending : (clients' rq.client).pending = some q →
      (clients rq.client).pending = some q) :
    RequestOk newEtag r clients' q rq := by
  refine ⟨?_, h.blocked, ?_⟩
  · intro hused hsince
    obtain ⟨k, j, hk, hkj, hj⟩ := h.since hused hsince
    exact ⟨k, j, hk, hkj, hj.congr hetag hlast⟩
  · intro out etag calls hphase
    obtain ⟨hpos, hle, het, hout, hbelow⟩ := h.answered out etag calls hphase
    exact ⟨hpos, hle, het, hout,
      fun hp => (hbelow (hpending hp)).congr hetag hlast⟩

/-- A request that is neither blocked nor answered promises nothing new. -/
theorem RequestOk.setPhase {newEtag : ℕ → String} {r : Registry}
    {clients : ℕ → Client} {q : ℕ} {rq : Request}
    (h : RequestOk newEtag r clients q rq) (hused : rq.phase ≠ .unused)
    {phase : Phase} (hblocked : ∀ ch, phase ≠ .blocked ch)
    (hanswered : ∀ out etag calls, phase ≠ .answered out etag calls) :
    RequestOk newEtag r clients q { rq with phase := phase } :=
  ⟨fun _ => h.since hused, fun ch hch => absurd hch (hblocked ch),
    fun out etag calls hphase => absurd hphase (hanswered out etag calls)⟩

theorem Inv.setPhase {newEtag : ℕ → String} {s : Polls} (h : Inv newEtag s) {q : ℕ}
    {phase : Phase}
    (hq : RequestOk newEtag s.registry s.clients q
      { s.requests q with phase := phase }) : Inv newEtag (s.setPhase q phase) := by
  refine ⟨h.reg, h.client, ?_⟩
  intro q'
  by_cases hqq : q' = q
  · subst hqq
    simp only [Polls.setPhase, Function.update_self]
    exact hq
  · simp only [Polls.setPhase, Function.update_of_ne hqq]
    exact h.request q'

theorem inv_send {newEtag : ℕ → String} {s : Polls} (h : Inv newEtag s) {c q : ℕ}
    (hq : (s.requests q).phase = .unused) :
    Inv newEtag
      { s with
        clients := Function.update s.clients c
          { s.clients c with pending := some q }
        requests := Function.update s.requests q
          ⟨c, (s.clients c).etag, .arrived⟩ } := by
  have hsame : ∀ d, (Function.update s.clients c
        { s.clients c with pending := some q } d).etag = (s.clients d).etag ∧
      (Function.update s.clients c
        { s.clients c with pending := some q } d).last = (s.clients d).last := by
    intro d
    by_cases hd : d = c
    · subst hd
      rw [Function.update_self]
      exact ⟨rfl, rfl⟩
    · rw [Function.update_of_ne hd]
      exact ⟨rfl, rfl⟩
  refine ⟨h.reg, fun d => (h.client d).congr (hsame d).1 (hsame d).2, ?_⟩
  intro q'
  by_cases hqq : q' = q
  · subst hqq
    simp only [Function.update_self]
    refine ⟨?_, ?_, ?_⟩
    · intro _ hsince
      rcases h.client c with ⟨hnone, -⟩ | ⟨k, -, hk⟩
      · exact absurd hnone hsince
      · exact ⟨k, k, hk.etag, le_rfl, hk.congr (hsame c).1 (hsame c).2⟩
    · intro ch hch
      cases hch
    · intro out etag calls hphase
      cases hphase
  · simp only [Function.update_of_ne hqq]
    refine (h.request q').congr (hsame _).1 (hsame _).2 ?_
    intro hp
    by_cases hd : (s.requests q').client = c
    · rw [hd, Function.update_self] at hp
      exact absurd (Option.some.inj hp).symm hqq
    · rwa [Function.update_of_ne hd] at hp

theorem inv_check {newEtag : ℕ → String} {s : Polls} (h : Inv newEtag s) {q : ℕ}
    (hq : (s.requests q).phase = .arrived) :
    Inv newEtag (s.setPhase q (afterCheck (s.requests q).since s.registry)) := by
  have hused : (s.requests q).phase ≠ .unused := by
    rw [hq]
    exact fun h => by cases h
  refine h.setPhase ?_
  unfold afterCheck
  split
  · exact (h.request q).setPhase hused (by simp) (by simp)
  · rename_i hsince
    cases hwait : s.registry.waitChannel (s.requests q).since with
    | none => exact (h.request q).setPhase hused (by simp) (by simp)
    | some ch =>
        refine ⟨fun _ => (h.request q).since hused, ?_, ?_⟩
        · intro ch' hch'
          obtain rfl : ch = ch' := by simpa using hch'
          unfold Registry.waitChannel at hwait
          split at hwait
          · cases hwait
          · rename_i hetag
            exact ⟨hsince, fun _ => ⟨(Option.some.inj hwait).symm,
              (not_not.1 hetag).symm⟩⟩
        · intro out etag calls hphase
          cases hphase

theorem inv_snapshot {newEtag : ℕ → String} {s : Polls} (h : Inv newEtag s) {q : ℕ}
    {order out : List Peer} {etag : String} (hq : (s.requests q).phase = .woken)
    (horder : order.Perm (values s.registry.peers))
    (hpeers : s.registry.peersIn none order = .ok (out, etag)) :
    Inv newEtag (s.setPhase q (.answered out etag s.registry.etagCalls)) := by
  obtain ⟨rfl, rfl⟩ := Prod.mk.inj (Except.ok.inj hpeers)
  refine h.setPhase ⟨?_, ?_, ?_⟩
  · intro _
    refine (h.request q).since ?_
    rw [hq]
    exact fun h => by cases h
  · intro ch hch
    cases hch
  · rintro out etag calls ⟨⟩
    exact ⟨h.reg.calls_pos, le_rfl, h.reg.etag,
      fun _ => (List.mergeSort_perm order _).trans horder,
      fun _ => h.client _⟩

/-- The requests of a client that moves on to a later response sent an etag that the
client had by then. -/
theorem RequestOk.receive {newEtag : ℕ → String} (hinj : Function.Injective newEtag)
    {r : Registry} {clients : ℕ → Client} {q : ℕ} {rq : Request}
    (h : RequestOk newEtag r clients q rq) {c : Client} {n : ℕ}
    (hbelow : HoldsBelow newEtag r (clients rq.client) (n + 1))
    (hnew : Holds newEtag r c n) (hpending : c.pending = none) :
    RequestOk newEtag r (Function.update clients rq.client c) q rq := by
  refine ⟨?_, h.blocked, ?_⟩
  · intro hused hsince
    obtain ⟨k, j, hk, hkj, hj⟩ := h.since hused hsince
    refine ⟨k, n, hk, ?_, by rwa [Function.update_self]⟩
    rcases hbelow with ⟨-, hnone⟩ | ⟨j', hj', hholds⟩
    · obtain ⟨got, hgot, -⟩ := hj.last
      rw [hnone] at hgot
      cases hgot
    · have hjj : j = j' := hinj (hj.etag.symm.trans hholds.etag)
      omega
  · intro out etag calls hphase
    obtain ⟨hpos, hle, hetag, hout, -⟩ := h.answered out etag calls hphase
    refine ⟨hpos, hle, hetag, hout, ?_⟩
    intro hp
    rw [Function.update_self, hpending] at hp
    cases hp

/-- A client that receives an answer moves on to a later response. -/
theorem inv_deliver {newEtag : ℕ → String} (hinj : Function.Injective newEtag)
    {s : Polls} (h : Inv newEtag s) {q : ℕ} {out got : List Peer} {etag : String}
    {calls : ℕ} (hq : (s.requests q).phase = .answered out etag calls)
    (hpending : (s.clients (s.requests q).client).pending = some q)
    (hgot : Shows s.registry calls out got) :
    Inv newEtag
      { s.setPhase q .closed with
        clients := Function.update s.clients (s.requests q).client
          ⟨etag, some got, none⟩ } := by
  obtain ⟨hpos, hle, rfl, hout, hbelow⟩ := (h.request q).answered out etag calls hq
  have hnew : Holds newEtag s.registry
      ⟨newEtag (calls - 1), some got, none⟩ (calls - 1) := by
    refine ⟨by omega, rfl, got, rfl, ?_⟩
    intro hcalls
    have hcurrent : calls = s.registry.etagCalls := by omega
    rw [hgot.unchanged hcurrent.symm]
    exact hout hcurrent
  have hbefore := (hbelow hpending).mono (m := calls - 1 + 1) (by omega)
  refine ⟨h.reg, ?_, ?_⟩
  · intro c
    by_cases hc : c = (s.requests q).client
    · subst hc
      simp only [Function.update_self]
      exact Or.inr ⟨calls - 1, hnew.lt, hnew⟩
    · simp only [Function.update_of_ne hc]
      exact h.client c
  · intro q'
    have hother : RequestOk newEtag s.registry s.clients q'
        ((s.setPhase q .closed).requests q') :=
      (h.setPhase ((h.request q).setPhase (by simp [hq]) (by simp)
        (by simp))).request q'
    change RequestOk newEtag s.registry
      (Function.update s.clients (s.requests q).client
        ⟨newEtag (calls - 1), some got, none⟩) q'
      ((s.setPhase q .closed).requests q')
    generalize (s.setPhase q .closed).requests q' = rq at hother
    by_cases hc : rq.client = (s.requests q).client
    · rw [← hc] at hbefore ⊢
      exact hother.receive hinj hbefore hnew rfl
    · refine hother.congr ?_ ?_ ?_
      · rw [Function.update_of_ne hc]
      · rw [Function.update_of_ne hc]
      · rw [Function.update_of_ne hc]
        exact id

theorem inv_giveUp {newEtag : ℕ → String} {s : Polls} (h : Inv newEtag s) (c : ℕ) :
    Inv newEtag
      { s with
        clients := Function.update s.clients c
          { s.clients c with pending := none } } := by
  have hsame : ∀ d, (Function.update s.clients c
        { s.clients c with pending := none } d).etag = (s.clients d).etag ∧
      (Function.update s.clients c
        { s.clients c with pending := none } d).last = (s.clients d).last ∧
      ∀ q, (Function.update s.clients c
        { s.clients c with pending := none } d).pending = some q →
        (s.clients d).pending = some q := by
    intro d
    by_cases hd : d = c
    · subst hd
      rw [Function.update_self]
      exact ⟨rfl, rfl, fun q hp => by cases hp⟩
    · rw [Function.update_of_ne hd]
      exact ⟨rfl, rfl, fun q => id⟩
  exact ⟨h.reg, fun d => (h.client d).congr (hsame d).1 (hsame d).2.1,
    fun q => (h.request q).congr (hsame _).1 (hsame _).2.1 ((hsame _).2.2 q)⟩

theorem inv_step {newEtag : ℕ → String} (hinj : Function.Injective newEtag)
    {s s' : Polls} (h : Inv newEtag s) (hstep : Step newEtag s s') :
    Inv newEtag s' := by
  cases hstep with
  | send c q hq hc => exact inv_send h hq
  | check q hq => exact inv_check h hq
  | wake q ch hq hclosed =>
      exact h.setPhase ((h.request q).setPhase (by simp [hq]) (by simp) (by simp))
  | timeout q ch hq =>
      exact h.setPhase ((h.request q).setPhase (by simp [hq]) (by simp) (by simp))
  | snapshot q order out etag hq horder hpeers =>
      exact inv_snapshot h hq horder hpeers
  | fail q hq =>
      exact h.setPhase ((h.request q).setPhase (by simp [hq]) (by simp) (by simp))
  | deliver q out etag calls got hq hpending hgot =>
      exact inv_deliver hinj h hq hpending hgot
  | giveUp c => exact inv_giveUp h c
  | change op =>
      exact ⟨h.reg.call op,
        fun c => ((h.client c).call op).mono (etagCalls_le_call newEtag _ op),
        fun q => (h.request q).call op⟩

/-- A request that is blocked on a channel that is still open belongs to a client
that holds the current contents of the registry; and no channel is closed
twice. -/
theorem blocked_holds_current {newEtag : ℕ → String}
    (hinj : Function.Injective newEtag) {pool : Net.Prefix} {s : Polls}
    (hs : Reachable newEtag pool s) :
    (∀ q ch, (s.requests q).phase = .blocked ch → s.registry.chans.IsOpen ch →
      ∃ got, (s.clients (s.requests q).client).last = some got ∧
        got.Perm (values s.registry.peers)) ∧
      s.registry.chans.NoDoubleClose := by
  have hinv : Inv newEtag s :=
    invariant_of_reachable (I := Inv newEtag) (r := Step newEtag)
      (fun s s' h hstep => inv_step hinj h hstep) (inv_start newEtag pool) hs
  refine ⟨?_, hinv.reg.wf.once⟩
  intro q ch hphase hopen
  obtain ⟨hsince, hcurrent⟩ := (hinv.request q).blocked ch hphase
  obtain ⟨-, hetag⟩ := hcurrent hopen
  obtain ⟨k, j, hk, hkj, hj⟩ := (hinv.request q).since (by simp [hphase]) hsince
  have hpos := hinv.reg.calls_pos
  have hlt := hj.lt
  have hkcurrent : k = s.registry.etagCalls - 1 :=
    hinj (hk.symm.trans (hetag.trans hinv.reg.etag))
  obtain ⟨got, hgot, hperm⟩ := hj.last
  exact ⟨got, hgot, hperm (by omega)⟩

/-- A peer registers, a client polls twice, and the second poll waits. -/
theorem blocked_holds_current_of_second_poll :
    ∃ s q ch got, Reachable (toString : ℕ → String)
        (Net.Prefix.ofV4 0x0a000000 24) s ∧
      (s.requests q).phase = .blocked ch ∧ s.registry.chans.IsOpen ch ∧
      (s.clients (s.requests q).client).last = some got ∧
      got.Perm (values s.registry.peers) := by
  let peer : Peer := ⟨List.replicate 32 1, Vector.replicate 32 2, "a", .zero, [], 0⟩
  have hs : ∃ s, Reachable (toString : ℕ → String)
      (Net.Prefix.ofV4 0x0a000000 24) s ∧
      (s.requests 1).phase = .blocked 1 ∧ s.registry.chans.IsOpen 1 :=
    ⟨_, (((((((Relation.ReflTransGen.refl.tail
        (.change _ (.register none 7 peer))).tail
        (.send _ 0 0 rfl rfl)).tail (.check _ 0 rfl)).tail
        (.snapshot _ 0 _ _ _ rfl (List.Perm.refl _) rfl)).tail
        (.deliver _ 0 _ _ _ _ rfl rfl ⟨rfl, fun _ => rfl⟩)).tail
        (.send _ 0 1 rfl rfl)).tail (.check _ 1 rfl)),
      by decide +kernel, by decide +kernel⟩
  obtain ⟨s, hreach, hphase, hopen⟩ := hs
  obtain ⟨got, hgot, hperm⟩ :=
    (blocked_holds_current Net.toString_nat_injective hreach).1 1 1 hphase hopen
  exact ⟨s, 1, 1, got, hreach, hphase, hopen, hgot, hperm⟩

end Polls

end Coord

end Gretun
