import Gretun.Coord.Server
import Gretun.Foundation.Run

/-!
# Who can change a record of the registry

`Record` is what the registry says about a node key: its disco key, name and
endpoints. Endpoints are only ever set under the key that signed the request. A
registration is not signed, and `Register` overwrites the disco key and the name
of a record that exists; `NoTakeover` is the condition that no request does that
to the key in question without its signature.
-/

namespace Gretun

namespace Coord

open Gretun.Net
open Foundation.Assoc
open Foundation.Command
open Foundation.Run

namespace Registry

def record (r : Registry) (k : Bytes) : Option (Key × String × List Endpoint) :=
  (r.peers.lookup (base64Encode k)).map fun p => (p.discoKey, p.name, p.endpoints)

def Keyed (r : Registry) : Prop :=
  ∀ key p, r.peers.lookup key = some p → key = base64Encode p.nodeKey

theorem base64Encode_ne {k k' : Bytes} (h : k ≠ k') :
    base64Encode k ≠ base64Encode k' := fun heq => h (hexEncode_injective heq)

theorem keyed_new (newEtag : ℕ → String) (pool : Prefix) : (new newEtag pool).Keyed := by
  intro key p h
  simp [new] at h

theorem Keyed.call {r : Registry} (h : r.Keyed) (newEtag : ℕ → String)
    (op : RegistryOp) : (r.call newEtag op).Keyed := by
  intro key p hp
  rcases r.call_cases newEtag op with
    heq | ⟨key', q, q', hq, hnode, -, heq⟩ | ⟨q, ip, -, -, -, -, heq⟩
  · rw [heq] at hp
    exact h key p hp
  · rw [heq] at hp
    change (r.peers.insert key' q').lookup key = some p at hp
    rcases lookup_insert_cases hp with ⟨rfl, rfl⟩ | ⟨-, hp⟩
    · rw [hnode]
      exact h key q hq
    · exact h key p hp
  · rw [heq] at hp
    change (r.peers.insert (base64Encode q.nodeKey) q).lookup key = some p at hp
    rcases lookup_insert_cases hp with ⟨rfl, rfl⟩ | ⟨-, hp⟩
    · rfl
    · exact h key p hp

theorem record_insert_of_ne (r : Registry) (newEtag : ℕ → String) {k : Bytes}
    {key : String} (hne : base64Encode k ≠ key) (p : Peer)
    (byTunnel : AList fun _ : String => String) :
    (bumpEtagLocked newEtag
      { r with peers := r.peers.insert key p, byTunnel := byTunnel }).record k =
        r.record k := by
  change ((r.peers.insert key p).lookup (base64Encode k)).map _ = _
  rw [AList.lookup_insert_ne hne]
  rfl

theorem record_register_of_ne (newEtag : ℕ → String) (ctx : Option CtxError)
    (now : Time) {p : Peer} (r : Registry) {k : Bytes} (hne : p.nodeKey ≠ k) :
    (r.register newEtag ctx now p).2.record k = r.record k := by
  have hkey := base64Encode_ne hne.symm
  unfold register
  cases ctx with
  | some e => rfl
  | none =>
      by_cases hlen : p.nodeKey.length = publicKeySize
      · simp only [hlen, ne_eq, not_true_eq_false, if_false]
        cases r.peers.lookup (base64Encode p.nodeKey) with
        | some existing => exact record_insert_of_ne r newEtag hkey _ r.byTunnel
        | none =>
            cases r.allocateIPLocked with
            | none => rfl
            | some ip => exact record_insert_of_ne r newEtag hkey _ _
      · simp only [hlen, ne_eq, not_false_eq_true, if_true]

/-- A registration overwrites the disco key and the name of a record that
exists. -/
theorem record_register_self (newEtag : ℕ → String) (now : Time) {p existing : Peer}
    {r : Registry} (hlen : p.nodeKey.length = publicKeySize)
    (h : r.peers.lookup (base64Encode p.nodeKey) = some existing) :
    (r.register newEtag none now p).2.record p.nodeKey =
      some (p.discoKey, p.name, existing.endpoints) := by
  simp only [register, hlen, ne_eq, not_true_eq_false, if_false, h]
  change ((r.peers.insert (base64Encode p.nodeKey) _).lookup _).map _ = _
  rw [AList.lookup_insert]
  rfl

theorem record_setEndpoints_of_ne (newEtag : ℕ → String) (ctx : Option CtxError)
    (now : Time) {nodeKey : Bytes} (eps : List Endpoint) (r : Registry) {k : Bytes}
    (hne : nodeKey ≠ k) :
    (r.setEndpoints newEtag ctx now nodeKey eps).2.record k = r.record k := by
  unfold setEndpoints
  cases ctx with
  | some e => rfl
  | none =>
      simp only
      cases r.peers.lookup (base64Encode nodeKey) with
      | none => rfl
      | some peer =>
          exact record_insert_of_ne r newEtag (base64Encode_ne hne.symm) _ r.byTunnel

end Registry

/-! ## What the handlers ask of the store -/

/-- What a request may ask for: to register what its body says, and to set the
endpoints of the key that signed it. -/
def Allowed (env : ServerEnv) (now : Time) (req : HttpRequest) : StoreCall → Prop
  | .register p => p.nodeKey.length = publicKeySize ∧ route req = some .register ∧
      (env.decodeRegister req.body req.bodyErr).map RegisterReq.peer = some p
  | .setEndpoints nodeKey _ => SignedBy env.crypto now nodeKey req
  | _ => True

theorem allowed_serveHTTP (env : ServerEnv) (now : Time) (req : HttpRequest) :
    Prog.AllCalls (Allowed env now req) (serveHTTP env now req) := by
  unfold serveHTTP
  split
  · trivial
  · rename_i hroute
    refine allCalls_handleRegister (fun reg hreg hlen => ⟨hlen, hroute, ?_⟩) trivial
    rw [hreg]
    rfl
  · exact allCalls_authed fun pub body hsigned =>
      allCalls_handleEndpoints (fun _ => hsigned) body
  · exact allCalls_authed fun _ _ _ =>
      allCalls_handlePeers trivial trivial fun _ => trivial
  · exact allCalls_authed fun _ body _ =>
      allCalls_handleSignal trivial (fun _ _ => trivial) (fun _ => trivial) body
  · exact allCalls_authed fun pub _ _ => allCalls_handleSignalPull trivial fun _ =>
      allCalls_pullFrom trivial trivial fun _ => trivial
  · exact allCalls_handleDebugPeers trivial

def StoreCall.queue : StoreCall → Option Key
  | .popSignals dst => some dst
  | .waitLocked dst => some dst
  | _ => none

def Drains (queue : Option Key) (c : StoreCall) : Prop :=
  c ≠ .peers ∧ ∀ dst, c.queue = some dst → queue = some dst

theorem drains_pullFrom (dst : Key) :
    Prog.AllCalls (Drains (some dst)) (pullFrom dst) := by
  refine allCalls_pullFrom ⟨?_, ?_⟩ ⟨?_, ?_⟩ fun ch => ⟨?_, ?_⟩
  · rintro ⟨⟩
  · exact fun _ h => h
  · rintro ⟨⟩
  · exact fun _ h => h
  · rintro ⟨⟩
  · rintro _ ⟨⟩

namespace Store

theorem registry_answer {newEtag : ℕ → String} {limits : Limits} {d : Decision}
    {c : StoreCall} {s s' : Store} {a : Answer c}
    (h : s.answer newEtag limits d c = some (a, s')) :
    s'.registry = s.registry ∨
      (∃ p, c = .register p ∧
        s'.registry = (s.registry.register newEtag d.ctx d.now p).2) ∨
      ∃ nodeKey eps, c = .setEndpoints nodeKey eps ∧
        s'.registry = (s.registry.setEndpoints newEtag d.ctx d.now nodeKey eps).2 := by
  cases c with
  | register p =>
      cases h
      exact Or.inr (Or.inl ⟨p, rfl, rfl⟩)
  | setEndpoints nodeKey eps =>
      cases h
      exact Or.inr (Or.inr ⟨nodeKey, eps, rfl, rfl⟩)
  | now | peers | waitChannel | closeWake | popSignals | waitLocked =>
      cases h
      exact Or.inl rfl
  | receivePeers | receiveWake =>
      obtain ⟨r, -, heq⟩ := Option.map_eq_some_iff.1 h
      cases heq
      exact Or.inl rfl
  | enqueueLocked =>
      left
      simp only [answer] at h
      split at h
      · cases h
        rfl
      · cases h
        rfl

/-- The key that `discoKeyForNodeKey` finds is the one in the record. -/
theorem discoKeyIn_peers {env : ServerEnv} {d : Decision} {s : Store} {k : Bytes}
    {dst : Key} (hkeyed : s.registry.Keyed)
    (h : discoKeyIn env k
      (s.registry.peersIn d.ctx (d.order (values s.registry.peers))) = .ok dst) :
    (s.registry.peers.lookup (base64Encode k)).map Peer.discoKey = some dst := by
  unfold Registry.peersIn at h
  cases hctx : d.ctx with
  | some e =>
      rw [hctx] at h
      cases h
  | none =>
      simp only [hctx, discoKeyIn] at h
      split at h
      · rename_i p hfind
        obtain rfl : p.discoKey = dst := by simpa using h
        have hnode : p.nodeKey = k := by simpa using List.find?_some hfind
        have hmem : p ∈ values s.registry.peers := by
          have hsorted := List.mem_of_find?_eq_some hfind
          exact (d.order_perm _).mem_iff.1 (List.mem_mergeSort.1 hsorted)
        obtain ⟨key, hlookup⟩ := mem_values.1 hmem
        rw [← hnode, ← hkeyed key p hlookup, hlookup]
        rfl
      · cases h

end Store

namespace Server

/-! ## The invariant -/

structure Inv (env : ServerEnv) (s : Server) : Prop where
  keyed : s.store.registry.Keyed
  allowed : ∀ id f, s.inflight id = some f →
    Prog.AllCalls (Allowed env f.now f.req) f.prog
  /-- A pull has yet to look up its queue, or keeps to the queue it found. -/
  pulls : ∀ id f k, s.inflight id = some f → route f.req = some .signalPull →
    SignedBy env.crypto f.now k f.req →
      f.prog = handleSignalPull env k ∨
        ∃ queue, Prog.AllCalls (Drains queue) f.prog

theorem inv_start (env : ServerEnv) (pool : Prefix) : Inv env (start env pool) where
  keyed := Registry.keyed_new env.newEtag pool
  allowed := by
    intro id f h
    cases h
  pulls := by
    intro id f k h
    cases h

theorem serveHTTP_of_signalPull {env : ServerEnv} {now : Time} {k : Bytes}
    {r : HttpRequest} (hroute : route r = some .signalPull)
    (hsigned : SignedBy env.crypto now k r) :
    serveHTTP env now r = handleSignalPull env k := by
  obtain ⟨body, hverify⟩ := hsigned
  simp only [serveHTTP, hroute, authed, hverify]

/-- All that a step can do: nothing to the store, or one call of a request in
flight. -/
theorem step_cases (env : ServerEnv) (s : Server) (i : ServerInput) :
    (s.step env i).store = s.store ∨
      ∃ id d f c k a, i = .advance id d ∧ s.inflight id = some f ∧
        f.prog = .call c k ∧
        s.store.answer env.newEtag env.limits d c =
          some (a, (s.step env i).store) := by
  cases i with
  | arrive id req now =>
      left
      cases hf : s.inflight id <;> simp only [step, hf]
  | advance id d =>
      cases hf : s.inflight id with
      | none =>
          left
          simp only [step, hf]
      | some f =>
          cases hprog : f.prog with
          | ret resp =>
              left
              simp only [step, hf, advance, hprog]
          | call c k =>
              cases ha : s.store.answer env.newEtag env.limits d c with
              | none =>
                  left
                  simp only [step, hf, advance, hprog, ha]
              | some r =>
                  refine Or.inr ⟨id, d, f, c, k, r.1, rfl, hf, hprog, ?_⟩
                  simp only [step, hf, advance, hprog, ha]

/-- What a step can do to the requests in flight. -/
theorem inflight_step_cases {env : ServerEnv} {s : Server} {i : ServerInput} {id : ℕ}
    {f : InFlight} (h : (s.step env i).inflight id = some f) :
    s.inflight id = some f ∨ f.prog = serveHTTP env f.now f.req ∨
      ∃ d g c k a store, i = .advance id d ∧ s.inflight id = some g ∧
        g.prog = .call c k ∧
        s.store.answer env.newEtag env.limits d c = some (a, store) ∧
        f = { g with prog := k a } := by
  cases i with
  | arrive id' req now =>
      cases hg : s.inflight id' with
      | some g =>
          simp only [step, hg] at h
          exact Or.inl h
      | none =>
          simp only [step, hg] at h
          rcases update_cases h with ⟨-, heq⟩ | ⟨-, h⟩
          · cases heq
            exact Or.inr (Or.inl rfl)
          · exact Or.inl h
  | advance id' d =>
      cases hg : s.inflight id' with
      | none =>
          simp only [step, hg] at h
          exact Or.inl h
      | some g =>
          cases hprog : g.prog with
          | ret resp =>
              simp only [step, hg, advance, hprog] at h
              rcases update_cases h with ⟨-, heq⟩ | ⟨-, h⟩
              · cases heq
              · exact Or.inl h
          | call c k =>
              cases ha : s.store.answer env.newEtag env.limits d c with
              | none =>
                  simp only [step, hg, advance, hprog, ha] at h
                  exact Or.inl h
              | some r =>
                  simp only [step, hg, advance, hprog, ha] at h
                  rcases update_cases h with ⟨rfl, heq⟩ | ⟨-, h⟩
                  · exact Or.inr (Or.inr ⟨d, g, c, k, r.1, r.2, rfl, hg, hprog, ha,
                      (Option.some.inj heq).symm⟩)
                  · exact Or.inl h

theorem drains_pullFound {found : Except String Key} {queue : Option Key}
    (h : ∀ dst, found = .ok dst → queue = some dst) :
    Prog.AllCalls (Drains queue) (pullFound found) := by
  cases found with
  | error text => trivial
  | ok dst =>
      rw [h dst rfl]
      exact drains_pullFrom dst

theorem exists_drains_pullFound (found : Except String Key) :
    ∃ queue, Prog.AllCalls (Drains queue) (pullFound found) := by
  cases found with
  | error text => exact ⟨none, trivial⟩
  | ok dst => exact ⟨some dst, drains_pullFrom dst⟩

theorem keyed_step {env : ServerEnv} {s : Server} (h : s.store.registry.Keyed)
    (i : ServerInput) : (s.step env i).store.registry.Keyed := by
  rcases step_cases env s i with hsame | ⟨id, d, f, c, k, a, -, -, -, ha⟩
  · rw [hsame]
    exact h
  · rcases Store.registry_answer ha with hsame | ⟨p, -, heq⟩ | ⟨nodeKey, eps, -, heq⟩
    · rw [hsame]
      exact h
    · rw [heq]
      exact h.call env.newEtag (.register d.ctx d.now p)
    · rw [heq]
      exact h.call env.newEtag (.setEndpoints d.ctx d.now nodeKey eps)

theorem inv_step {env : ServerEnv} {s : Server} (h : Inv env s) (i : ServerInput) :
    Inv env (s.step env i) := by
  refine ⟨keyed_step h.keyed i, ?_, ?_⟩
  · intro id f hf
    rcases inflight_step_cases hf with
      hold | hnew | ⟨d, g, c, k, a, store, -, hg, hprog, -, rfl⟩
    · exact h.allowed id f hold
    · rw [hnew]
      exact allowed_serveHTTP env f.now f.req
    · have hall := h.allowed id g hg
      rw [hprog] at hall
      exact hall.2 a
  · intro id f key hf hroute hsigned
    rcases inflight_step_cases hf with
      hold | hnew | ⟨d, g, c, k, a, store, -, hg, hprog, -, rfl⟩
    · exact h.pulls id f key hold hroute hsigned
    · left
      rw [hnew, serveHTTP_of_signalPull hroute hsigned]
    · right
      rcases h.pulls id g key hg hroute hsigned with hpull | ⟨queue, hall⟩
      · rw [hpull, handleSignalPull_eq] at hprog
        cases hprog
        exact exists_drains_pullFound (discoKeyIn env key a)
      · rw [hprog] at hall
        exact ⟨queue, hall.2 a⟩

/-! ## Records and signatures -/

def record (s : Server) (k : Bytes) : Option (Key × String × List Endpoint) :=
  s.store.registry.record k

def handled (s : Server) : ServerInput → Option InFlight
  | .arrive .. => none
  | .advance id _ => s.inflight id

def registration (s : Server) : ServerInput → Option (InFlight × Peer)
  | .arrive .. => none
  | .advance id d => match s.inflight id, d.ctx with
    | some f, none => match f.prog with
      | .call (.register p) _ => some (f, p)
      | _ => none
    | _, _ => none

def Signed (env : ServerEnv) (k : Bytes) (s : Server) (i : ServerInput) : Prop :=
  ∃ f ∈ s.handled i, SignedBy env.crypto f.now k f.req

instance (env : ServerEnv) (k : Bytes) (s : Server) (i : ServerInput) :
    Decidable (Signed env k s i) :=
  inferInstanceAs (Decidable (∃ f ∈ s.handled i, SignedBy env.crypto f.now k f.req))

def RecordKept (env : ServerEnv) (k : Bytes) (s : Server) (i : ServerInput) : Prop :=
  s.record k ≠ none → (s.step env i).record k ≠ s.record k → Signed env k s i

instance (env : ServerEnv) (k : Bytes) (s : Server) (i : ServerInput) :
    Decidable (RecordKept env k s i) :=
  inferInstanceAs (Decidable (_ → _ → _))

/-- When the step carries out a registration that names `k`, and `k` has a record
already, then the request is signed by `k`, or it repeats the disco key and the
name of the record. -/
def NoTakeover (env : ServerEnv) (k : Bytes) (s : Server) (i : ServerInput) : Prop :=
  ∀ r ∈ s.registration i, r.2.nodeKey = k →
    ∀ existing ∈ s.store.registry.peers.lookup (base64Encode k),
      SignedBy env.crypto r.1.now k r.1.req ∨
        r.2.discoKey = existing.discoKey ∧ r.2.name = existing.name

instance (env : ServerEnv) (k : Bytes) (s : Server) (i : ServerInput) :
    Decidable (NoTakeover env k s i) :=
  inferInstanceAs (Decidable (∀ r ∈ s.registration i, _ → ∀ existing ∈ _, _ ∨ _ ∧ _))

theorem mem_registration {s : Server} {i : ServerInput} {f : InFlight} {p : Peer} :
    (f, p) ∈ s.registration i ↔
      ∃ id d cont, i = .advance id d ∧ s.inflight id = some f ∧ d.ctx = none ∧
        f.prog = .call (.register p) cont := by
  constructor
  · intro h
    cases i with
    | arrive id req now => cases h
    | advance id d =>
        unfold registration at h
        simp only at h
        split at h
        · rename_i g hg hctx
          split at h
          · rename_i q cont hprog
            cases h
            exact ⟨id, d, cont, rfl, hg, hctx, hprog⟩
          · cases h
        · cases h
  · rintro ⟨id, d, cont, rfl, hf, hctx, hprog⟩
    simp only [registration, hf, hctx, hprog]
    rfl

/-- In a step of a pull signed by `k`, the handler looks up its queue, and goes
on to drain only the one that the record of `k` names at that moment, or it has
looked it up before and keeps to that queue. -/
def DrainsRecorded (env : ServerEnv) (k : Bytes) (s : Server) (i : ServerInput) :
    Prop :=
  ∀ id d f, i = .advance id d → s.inflight id = some f →
    route f.req = some .signalPull → SignedBy env.crypto f.now k f.req →
      (∃ cont, f.prog = .call .peers cont ∧
        ∀ a store, s.store.answer env.newEtag env.limits d .peers = some (a, store) →
          Prog.AllCalls (Drains ((s.record k).map (·.1))) (cont a)) ∨
        ∃ queue, Prog.AllCalls (Drains queue) f.prog

theorem drainsRecorded_of_inv {env : ServerEnv} {s : Server} (h : Inv env s)
    (k : Bytes) (i : ServerInput) : DrainsRecorded env k s i := by
  intro id d f hi hf hroute hsigned
  rcases h.pulls id f k hf hroute hsigned with hpull | hdrains
  · refine Or.inl ⟨_, hpull.trans (handleSignalPull_eq env k), ?_⟩
    intro a store ha
    cases ha
    refine drains_pullFound fun dst hdst => ?_
    rw [← Store.discoKeyIn_peers h.keyed hdst, record, Registry.record, Option.map_map]
    rfl
  · exact Or.inr hdrains

/-- A record changes only by a registration that names its key, or by setting the
endpoints of its key. -/
theorem record_step_cases {env : ServerEnv} {s : Server} {i : ServerInput} {k : Bytes}
    (hchange : (s.step env i).record k ≠ s.record k) :
    ∃ id d f, i = .advance id d ∧ s.inflight id = some f ∧
      ((∃ p cont, f.prog = .call (.register p) cont ∧ p.nodeKey = k ∧
          (s.step env i).record k =
            (s.store.registry.register env.newEtag d.ctx d.now p).2.record k) ∨
        ∃ eps cont, f.prog = .call (.setEndpoints k eps) cont) := by
  rcases step_cases env s i with hsame | ⟨id, d, f, c, cont, a, hi, hf, hprog, ha⟩
  · exact absurd (by rw [record, hsame, record]) hchange
  · refine ⟨id, d, f, hi, hf, ?_⟩
    rcases Store.registry_answer ha with hsame | ⟨p, rfl, heq⟩ | ⟨key, eps, rfl, heq⟩
    · exact absurd (by rw [record, hsame, record]) hchange
    · by_cases hkey : p.nodeKey = k
      · exact Or.inl ⟨p, cont, hprog, hkey, by rw [record, heq]⟩
      · refine absurd ?_ hchange
        rw [record, heq, Registry.record_register_of_ne _ _ _ _ hkey, record]
    · by_cases hkey : key = k
      · subst hkey
        exact Or.inr ⟨eps, cont, hprog⟩
      · refine absurd ?_ hchange
        rw [record, heq, Registry.record_setEndpoints_of_ne _ _ _ _ _ hkey, record]

theorem step_of_register {env : ServerEnv} {s : Server} {id : ℕ} {d : Decision}
    {f : InFlight} {p : Peer} {cont : Answer (.register p) → Handler Response}
    (hf : s.inflight id = some f) (hprog : f.prog = .call (.register p) cont)
    (k : Bytes) :
    (s.step env (.advance id d)).record k =
      (s.store.registry.register env.newEtag d.ctx d.now p).2.record k := by
  simp only [step, hf, advance, hprog]
  rfl

theorem record_of_lookup {s : Server} {k : Bytes} {p : Peer}
    (h : s.store.registry.peers.lookup (base64Encode k) = some p) :
    s.record k = some (p.discoKey, p.name, p.endpoints) := by
  rw [record, Registry.record, h]
  rfl

theorem recordKept_iff {env : ServerEnv} {s : Server} (h : Inv env s) (k : Bytes)
    (i : ServerInput) : RecordKept env k s i ↔ NoTakeover env k s i := by
  constructor
  · rintro hkept ⟨f, p⟩ hmem rfl existing hexisting
    obtain ⟨id, d, cont, rfl, hf, hctx, hprog⟩ := mem_registration.1 hmem
    by_cases hsame : p.discoKey = existing.discoKey ∧ p.name = existing.name
    · exact Or.inr hsame
    · left
      have hall := h.allowed id f hf
      rw [hprog] at hall
      have hold := record_of_lookup hexisting
      have hnew : (s.step env (.advance id d)).record p.nodeKey =
          some (p.discoKey, p.name, existing.endpoints) := by
        rw [step_of_register hf hprog, hctx]
        exact Registry.record_register_self env.newEtag d.now hall.1.1 hexisting
      have hchange : (s.step env (.advance id d)).record p.nodeKey ≠
          s.record p.nodeKey := by
        rw [hold, hnew]
        intro heq
        simp only [Option.some.injEq, Prod.mk.injEq] at heq
        exact hsame ⟨heq.1, heq.2.1⟩
      obtain ⟨g, hg, hsigned⟩ :=
        hkept (by rw [hold]; exact Option.some_ne_none _) hchange
      obtain rfl : f = g := Option.some.inj (hf.symm.trans hg)
      exact hsigned
  · intro hno hrecord hchange
    obtain ⟨id, d, f, rfl, hf, ⟨p, cont, hprog, rfl, heq⟩ | ⟨eps, cont, hprog⟩⟩ :=
      record_step_cases hchange
    · refine ⟨f, hf, ?_⟩
      have hall := h.allowed id f hf
      rw [hprog] at hall
      have hctx : d.ctx = none := by
        by_contra hne
        obtain ⟨e, he⟩ := Option.ne_none_iff_exists'.1 hne
        rw [he] at heq
        exact hchange heq
      cases hexisting :
          s.store.registry.peers.lookup (base64Encode p.nodeKey) with
      | none => exact absurd (by rw [record, Registry.record, hexisting]; rfl) hrecord
      | some existing =>
          rcases hno (f, p) (mem_registration.2 ⟨id, d, cont, rfl, hf, hctx, hprog⟩)
            rfl existing hexisting with hsigned | ⟨hdisco, hname⟩
          · exact hsigned
          · refine absurd ?_ hchange
            rw [heq, hctx, record_of_lookup hexisting,
              Registry.record_register_self env.newEtag d.now hall.1.1 hexisting]
            exact congrArg some (congrArg₂ Prod.mk hdisco
              (congrArg₂ Prod.mk hname rfl))
    · have hall := h.allowed id f hf
      rw [hprog] at hall
      exact ⟨f, hf, hall.1⟩

/-- In every run, the record of `k` changes only in steps that `k` signed for, if
and only if no step takes the record over by a registration; and a pull by `k`
drains the queue that the record names when it looks. -/
theorem recordKept_iff_noTakeover (env : ServerEnv) (pool : Prefix) (k : Bytes)
    (is : List ServerInput) :
    (EachStep (step env) (RecordKept env k) (start env pool) is ↔
      EachStep (step env) (NoTakeover env k) (start env pool) is) ∧
      EachStep (step env) (DrainsRecorded env k) (start env pool) is := by
  have htrue : EachStep (step env) (fun _ _ => True) (start env pool) is :=
    eachStep_of_forall_mem (P := fun _ => True) (fun _ _ => trivial) _
  constructor
  · exact eachStep_congr (A := fun _ _ => True) (I := Inv env)
      (fun s i hs _ => recordKept_iff hs k i) (fun s i hs _ _ => inv_step hs i)
      (inv_start env pool) htrue
  · exact eachStep_of_invariant (P := fun _ _ => True) (I := Inv env)
      (fun s i hs _ => inv_step hs i) (fun s i hs _ => drainsRecorded_of_inv hs k i)
      (inv_start env pool) htrue

/-! A node registers, and sets its endpoints with a signed request; then somebody
else registers the same node key with another disco key. -/

/-- The Ed25519 public key whose seed is all zeros. -/
def sampleNode : Bytes :=
  [59, 106, 39, 188, 206, 182, 164, 45, 98, 163, 168, 208, 42, 111, 13, 115,
    101, 50, 21, 119, 29, 226, 67, 166, 58, 192, 72, 161, 139, 89, 218, 41]

def sampleNodeText : String := "O2onvM62pC1io6jQKm8Nc2UyFXcd4kOmOsBIoYtZ2ik="

def endpointsBody : Bytes :=
  utf8 "\x7b\"endpoints\":[\x7b\"addr\":\"192.0.2.1:4000\",\"source\":\"local\"\x7d]\x7d"

def endpointsDigest : Bytes :=
  [250, 51, 153, 51, 81, 36, 232, 23, 227, 89, 232, 11, 72, 241, 9, 238,
    185, 0, 24, 105, 204, 214, 150, 165, 74, 107, 206, 78, 20, 133, 242, 210]

def sampleSig : Bytes :=
  [115, 248, 228, 174, 228, 141, 22, 210, 221, 108, 50, 200, 144, 210, 153, 227,
    115, 109, 240, 4, 204, 212, 211, 94, 178, 76, 250, 225, 150, 123, 174, 253,
    35, 219, 85, 22, 190, 96, 107, 238, 6, 55, 55, 34, 48, 44, 146, 171,
    206, 215, 65, 167, 239, 140, 73, 241, 80, 217, 3, 3, 54, 239, 63, 13]

def sampleSigText : String :=
  "c/jkruSNFtLdbDLIkNKZ43Nt8ATM1NNeskz64ZZ7rv0j21UWvmBr7gY3NyIwLJKrztdBp++MSfFQ2QMDNu8/DQ=="

def registerBody (disco : UInt8) : Bytes :=
  let key := ",".intercalate (List.replicate 32 (toString disco.toNat))
  utf8 ("\x7b\"node_pubkey\":\"" ++ sampleNodeText ++ "\",\"disco_pubkey\":[" ++ key ++
    "],\"node_name\":\"a\"\x7d")

def sampleEnv : ServerEnv where
  crypto :=
    { base64Decode := fun text =>
        if text = sampleNodeText then .ok sampleNode
        else if text = sampleSigText then .ok sampleSig
        else .error "illegal base64 data at input byte 0"
      parseInt := fun text => if text = "0" then .ok 0 else .error "invalid syntax"
      sha256 := fun body => if body = endpointsBody then endpointsDigest else []
      verify := fun pub msg sig =>
        pub = sampleNode ∧ sig = sampleSig ∧
          msg = utf8 "0\nPOST\n/v1/endpoints\n" ++ endpointsDigest }
  decodeRegister body _ :=
    if body = registerBody 1 then some ⟨sampleNode, Vector.replicate 32 1, "a"⟩
    else if body = registerBody 2 then some ⟨sampleNode, Vector.replicate 32 2, "a"⟩
    else none
  decodeEndpoints body :=
    if body = endpointsBody then some [⟨⟨.v4 0xc0000201, 4000⟩, "local"⟩] else none
  decodeSignal _ := none
  unmatched _ := httpError "404 page not found" 404
  ctxText
    | .canceled => "context canceled"
    | .deadlineExceeded => "context deadline exceeded"
  newEtag := toString
  limits := defaultLimits

def samplePool : Prefix := ⟨.v4 0x0a000000#32, 24, by decide⟩

def registerRequest (disco : UInt8) : HttpRequest where
  method := "POST"
  path := utf8 "/v1/register"
  segments := ["v1", "register"]
  body := registerBody disco

def endpointsRequest : HttpRequest where
  method := "POST"
  path := utf8 "/v1/endpoints"
  segments := ["v1", "endpoints"]
  timestamp := "0"
  node := sampleNodeText
  authorization := "Gretun " ++ sampleSigText
  body := endpointsBody

def sampleNow : Time := 62135596800 * Time.second

def honestRun : List ServerInput :=
  [.arrive 0 (registerRequest 1) sampleNow, .advance 0 {},
    .arrive 1 endpointsRequest sampleNow, .advance 1 {},
    .arrive 2 (registerRequest 1) sampleNow, .advance 2 {}]

def takeoverRun : List ServerInput :=
  honestRun ++ [.arrive 3 (registerRequest 2) sampleNow, .advance 3 {}]

theorem recordKept_of_honestRun :
    (honestRun.foldl (step sampleEnv) (start sampleEnv samplePool)).record sampleNode =
        some (Vector.replicate 32 1, "a", [⟨⟨.v4 0xc0000201, 4000⟩, "local"⟩]) ∧
      EachStep (step sampleEnv) (RecordKept sampleEnv sampleNode)
        (start sampleEnv samplePool) honestRun :=
  ⟨by decide +kernel, (recordKept_iff_noTakeover sampleEnv samplePool sampleNode
    honestRun).1.2 (by decide +kernel)⟩

theorem not_recordKept_of_takeoverRun :
    (takeoverRun.foldl (step sampleEnv) (start sampleEnv samplePool)).record
        sampleNode =
        some (Vector.replicate 32 2, "a", [⟨⟨.v4 0xc0000201, 4000⟩, "local"⟩]) ∧
      ¬ SignedBy sampleEnv.crypto sampleNow sampleNode (registerRequest 2) ∧
      ¬ EachStep (step sampleEnv) (RecordKept sampleEnv sampleNode)
        (start sampleEnv samplePool) takeoverRun := by
  decide +kernel

end Server

end Coord

end Gretun
