import Gretun.Coord.Server

/-!
# Requests one after the other

`serve` runs a handler from its first call to its response, with nothing in
between; it is a run of the server with one request in flight. For each handler
that touches the registry there is one statement of what it can do: leave the
registry alone and answer with an error, or make its one write and answer 200.
-/

namespace Gretun

namespace Coord

open Foundation.Assoc
open Foundation.Command
open Gretun.Net

variable {α : Type}

/-- The response of a handler and the store after it, when the environment decides
`ω n` about its `n`-th call; none when a call blocks. -/
def serve (env : ServerEnv) : Handler α → (ℕ → Decision) → Store → Option (α × Store)
  | .ret a, _, s => some (a, s)
  | .call c k, ω, s =>
      (s.answer env.newEtag env.limits (ω 0) c).bind fun r =>
        serve env (k r.1) (fun n => ω (n + 1)) r.2

namespace Server

theorem exists_run_of_serve {env : ServerEnv} {id : ℕ} {prog : Handler Response}
    {ω : ℕ → Decision} {s : Server} {f : InFlight} {resp : Response} {store : Store}
    (hf : s.inflight id = some f) (hprog : f.prog = prog)
    (h : serve env prog ω s.store = some (resp, store)) :
    ∃ is : List ServerInput, is.foldl (step env) s =
      { store := store
        inflight := Function.update s.inflight id none
        sent := s.sent ++ [(id, resp)] } := by
  induction prog generalizing ω s f with
  | ret a =>
      obtain ⟨rfl, rfl⟩ : a = resp ∧ s.store = store := by simpa [serve] using h
      exact ⟨[.advance id {}], by simp [step, hf, advance, hprog]⟩
  | call c k ih =>
      rw [serve, Option.bind_eq_some_iff] at h
      obtain ⟨⟨a, store'⟩, ha, hrest⟩ := h
      obtain ⟨is, his⟩ := ih a (s := s.step env (.advance id (ω 0)))
        (f := { f with prog := k a }) (by simp [step, hf, advance, hprog, ha]) rfl
        (by simpa [step, hf, advance, hprog, ha] using hrest)
      refine ⟨.advance id (ω 0) :: is, his.trans ?_⟩
      simp [step, hf, advance, hprog, ha]

/-- A request that is served alone takes the server from one idle state to the
next. -/
theorem exists_run_of_request {env : ServerEnv} {id : ℕ} {now : Time}
    {req : HttpRequest} {ω : ℕ → Decision} {s : Server} {resp : Response}
    {store : Store} (hid : s.inflight id = none)
    (h : serve env (serveHTTP env now req) ω s.store = some (resp, store)) :
    ∃ is : List ServerInput, is.foldl (step env) s =
      { s with store := store, sent := s.sent ++ [(id, resp)] } := by
  have harrived : (s.step env (.arrive id req now)).inflight id =
      some ⟨req, now, serveHTTP env now req⟩ := by
    simp [step, hid]
  obtain ⟨is, his⟩ := exists_run_of_serve harrived rfl (by simpa [step, hid] using h)
  refine ⟨.arrive id req now :: is, his.trans ?_⟩
  have hnone : Function.update s.inflight id none = s.inflight := by
    rw [← hid, Function.update_eq_self]
  simp [step, hid, hnone]

end Server

/-! ## What the handlers do to the registry -/

namespace Registry

theorem setEndpoints_of_error {newEtag : ℕ → String} {ctx : Option CtxError}
    {now : Time} {nodeKey : Bytes} {eps : List Endpoint} {r : Registry}
    {e : StoreError} (h : (r.setEndpoints newEtag ctx now nodeKey eps).1 = .error e) :
    (r.setEndpoints newEtag ctx now nodeKey eps).2 = r := by
  rcases setEndpoints_cases newEtag ctx now nodeKey eps r with ⟨_, heq⟩ | ⟨_, -, heq⟩
  · rw [heq]
  · rw [heq] at h
    cases h

/-- A registration that succeeds: the record of the node is updated, or made with
the address that is given out. -/
theorem register_eq_ok {newEtag : ℕ → String} {ctx : Option CtxError} {now : Time}
    {p : Peer} {r r' : Registry} {ip : Addr}
    (h : r.register newEtag ctx now p = (.ok ip, r')) :
    (∃ q, r.peers.lookup (base64Encode p.nodeKey) = some q ∧ q.tunnelIP = ip ∧
      r'.peers = r.peers.insert (base64Encode p.nodeKey)
        { q with discoKey := p.discoKey, name := p.name, updatedAt := now }) ∨
    r.peers.lookup (base64Encode p.nodeKey) = none ∧
      r'.peers = r.peers.insert (base64Encode p.nodeKey)
        { p with tunnelIP := ip, updatedAt := now } := by
  rcases register_cases newEtag ctx now p r with
    ⟨_, heq⟩ | ⟨q, hq, heq⟩ | ⟨_, -, hnew, -, heq⟩
  · cases heq.symm.trans h
  · obtain ⟨hip, rfl⟩ := Prod.mk.inj (heq.symm.trans h)
    exact Or.inl ⟨q, hq, Except.ok.inj hip, rfl⟩
  · obtain ⟨hip, rfl⟩ := Prod.mk.inj (heq.symm.trans h)
    obtain rfl := Except.ok.inj hip
    exact Or.inr ⟨hnew, rfl⟩

theorem setEndpoints_eq_ok {newEtag : ℕ → String} {ctx : Option CtxError}
    {now : Time} {nodeKey : Bytes} {eps : List Endpoint} {r r' : Registry}
    (h : r.setEndpoints newEtag ctx now nodeKey eps = (.ok (), r')) :
    ∃ q, r.peers.lookup (base64Encode nodeKey) = some q ∧
      r'.peers = r.peers.insert (base64Encode nodeKey)
        { q with endpoints := eps, updatedAt := now } := by
  rcases setEndpoints_cases newEtag ctx now nodeKey eps r with ⟨_, heq⟩ | ⟨q, hq, heq⟩
  · cases heq.symm.trans h
  · obtain ⟨-, rfl⟩ := Prod.mk.inj (heq.symm.trans h)
    exact ⟨q, hq, rfl⟩

end Registry

@[simp] theorem httpError_status (text : String) (status : ℕ) :
    (httpError text status).status = status := rfl

variable {env : ServerEnv} {ω : ℕ → Decision} {s s' : Store} {resp : Response}

theorem serve_handleDebugPeers
    (h : serve env (handleDebugPeers env) ω s = some (resp, s')) :
    s' = s ∧ (resp.status ≠ 200 ∨ ∃ l : List Peer,
      l.Perm (values s.registry.peers) ∧ resp =
        ⟨200, .peers s.registry.peersEtag (l.mergeSort Registry.byTunnelIP)⟩) := by
  simp only [handleDebugPeers, Prog.perform_bind, serve, Store.answer,
    Option.bind_some, Registry.peersIn] at h
  cases hctx : (ω 0).ctx with
  | some e =>
      simp only [hctx] at h
      cases h
      exact ⟨rfl, Or.inl (by simp)⟩
  | none =>
      simp only [hctx] at h
      cases h
      exact ⟨rfl, Or.inr ⟨_, (ω 0).order_perm _, rfl⟩⟩

/-- The waiting part of a long poll does not touch the store. -/
theorem serve_handlePeers {r : HttpRequest}
    (h : serve env (handlePeers env r) ω s = some (resp, s')) :
    s' = s ∧ (resp.status ≠ 200 ∨ ∃ l : List Peer,
      l.Perm (values s.registry.peers) ∧ resp =
        ⟨200, .peers s.registry.peersEtag (l.mergeSort Registry.byTunnelIP)⟩) := by
  unfold handlePeers at h
  split at h
  · exact serve_handleDebugPeers h
  · simp only [waitForPeersChange, Prog.perform_bind, Prog.call_bind, serve,
      Store.answer, Option.bind_some] at h
    cases hch : s.registry.waitChannel r.since with
    | none =>
        rw [hch] at h
        exact serve_handleDebugPeers h
    | some ch =>
        rw [hch] at h
        obtain ⟨⟨a, s₁⟩, ha, hrest⟩ := Option.bind_eq_some_iff.1 h
        obtain ⟨e, -, heq⟩ := Option.map_eq_some_iff.1 ha
        cases heq
        exact serve_handleDebugPeers hrest

theorem serve_handleRegister {r : HttpRequest} {req : RegisterReq}
    (hreq : env.decodeRegister r.body r.bodyErr = some req)
    (h : serve env (handleRegister env r) ω s = some (resp, s')) :
    resp.status ≠ 200 ∧ s'.registry = s.registry ∨
      ∃ ctx now ip etag,
        s.registry.register env.newEtag ctx now req.peer = (.ok ip, s'.registry) ∧
          resp = ⟨200, .register (ip.string ++ "/24") etag⟩ := by
  simp only [handleRegister, hreq] at h
  split at h
  · cases h
    exact Or.inl ⟨by simp, rfl⟩
  · simp only [Prog.perform_bind, serve, Store.answer, Option.bind_some] at h
    cases hreg : s.registry.register env.newEtag (ω 0).ctx (ω 0).now req.peer with
    | mk answer registry =>
        rw [hreg] at h
        cases answer with
        | error e =>
            cases h
            have hsame := Registry.register_of_error (congrArg Prod.fst hreg)
            rw [hreg] at hsame
            exact Or.inl ⟨by simp, hsame⟩
        | ok ip =>
            right
            simp only [serve, Store.answer, Option.bind_some] at h
            split at h <;> cases h <;> exact ⟨_, _, ip, _, hreg, rfl⟩

theorem serve_handleEndpoints {pub body : Bytes} {eps : List Endpoint}
    (heps : env.decodeEndpoints body = some eps)
    (h : serve env (handleEndpoints env pub body) ω s = some (resp, s')) :
    resp.status ≠ 200 ∧ s'.registry = s.registry ∨
      ∃ ctx now, s.registry.setEndpoints env.newEtag ctx now pub eps =
          (.ok (), s'.registry) ∧ resp = ⟨200, .ok⟩ := by
  simp only [handleEndpoints, heps, Prog.perform_bind, serve, Store.answer,
    Option.bind_some] at h
  cases hset : s.registry.setEndpoints env.newEtag (ω 0).ctx (ω 0).now pub eps with
  | mk answer registry =>
      rw [hset] at h
      cases answer with
      | error e =>
          cases h
          have hsame := Registry.setEndpoints_of_error (congrArg Prod.fst hset)
          rw [hset] at hsame
          exact Or.inl ⟨by simp, hsame⟩
      | ok u =>
          cases h
          exact Or.inr ⟨_, _, hset, rfl⟩

end Coord

end Gretun
