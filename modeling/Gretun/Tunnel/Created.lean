import Gretun.Tunnel.Rollback

/-!
# What a successful `Create` has built

`HasLink cfg k` says that the kernel has the link that `cfg` asks for, up to the
attributes that later requests set. A `Create` that returns without an error
leaves such a link, whatever happened to the calls in between; and when no call
fails, a valid configuration under a free name does succeed.
-/

namespace Gretun

namespace Tunnel

open Gretun.Net
open Foundation.Command
open Foundation.Assoc

/-- The link of `cfg` exists, with the addresses, keys and encapsulation `Create`
asks for. -/
def HasLink (cfg : Config) (k : Kernel) : Prop :=
  ∃ a, k.links.lookup cfg.name =
    some (.gretun { gretunFor cfg with attrs := a })

def AnyFault (_ : NlCall) (_ : Fault) : Prop := True

def NoFault (_ : NlCall) (f : Fault) : Prop := f = none

def calm (_ : ℕ) (_ : NlCall) : Fault := none

def Kernel.withGretun (cfg : Config) (attrs : LinkAttrs) (k : Kernel) : Kernel :=
  { k with
    links := k.links.insert cfg.name (.gretun { gretunFor cfg with attrs := attrs }) }

def builtAttrs (cfg : Config) : LinkAttrs where
  name := cfg.name
  mtu := mtuOrDefault cfg
  up := true

def Kernel.portsFor (cfg : Config) (k : Kernel) : AList fun _ : ℕ × Port => Fou :=
  if cfg.encap = .none then k.fous
  else (k.fouAdd (fouFor cfg.encapDport cfg.encap)).2.fous

theorem gretunFor_attrs (cfg : Config) :
    (gretunFor cfg).attrs = { name := cfg.name } := by
  unfold gretunFor applyEncap
  split <;> rfl

theorem setAttrs_withGretun (cfg : Config) (attrs : LinkAttrs) (k : Kernel)
    (f : LinkAttrs → LinkAttrs) :
    (k.withGretun cfg attrs).setAttrs cfg.name f =
      (.ok (), k.withGretun cfg (f attrs)) := by
  simp [Kernel.setAttrs, Kernel.withGretun, Link.withAttrs, Link.attrs,
    AList.lookup_insert, AList.insert_insert]

theorem linkAdd_of_free {cfg : Config} {k : Kernel} (hfree : cfg.name ∉ k.links) :
    k.linkAdd (.gretun (gretunFor cfg)) =
      (.ok (), k.withGretun cfg { name := cfg.name }) := by
  rw [Kernel.linkAdd, Link.attrs, gretunFor_name, if_neg hfree, Kernel.withGretun,
    ← gretunFor_attrs]

section AnyEnvironment

variable {ok : NlCall → Fault → Prop}

theorem wp_setMTU_attrs (cfg : Config) (k : Kernel) :
    Prog.wp Kernel.handle ok (setMTU cfg)
      (fun r k' => (r = .ok () → k' = k.withGretun cfg
          { name := cfg.name, mtu := mtuOrDefault cfg }) ∧
        ((∀ c e, ¬ ok c (some e)) → r = .ok ()))
      (k.withGretun cfg { name := cfg.name }) := by
  by_cases hmtu : 0 < mtuOrDefault cfg
  · rw [setMTU, if_pos hmtu, request, Prog.perform, Prog.wp_call]
    intro f hf
    cases f with
    | some e => exact ⟨fun h => (by cases h), fun hno => absurd hf (hno _ e)⟩
    | none =>
        simp only [Kernel.handle_none, Kernel.perform, Link.attrs, gretunFor_name,
          setAttrs_withGretun]
        exact ⟨fun _ => rfl, fun _ => rfl⟩
  · have hzero : mtuOrDefault cfg = 0 := by
      unfold mtuOrDefault defaultFOUMTU at hmtu ⊢
      split_ifs at hmtu ⊢ <;> simp_all
    rw [setMTU, if_neg hmtu, hzero]
    exact ⟨fun _ => rfl, fun _ => rfl⟩

/-- What making the link comes to: success leaves the link that `cfg` asks for and
nothing else, and there is success when the name is free and no call fails. -/
structure LinkMade (ok : NlCall → Fault → Prop) (cfg : Config) (k : Kernel)
    (r : Except TunnelErr Unit) (k' : Kernel) : Prop where
  built : r = .ok () → cfg.name ∉ k.links ∧ k' = k.withGretun cfg (builtAttrs cfg)
  succeeds : (∀ c e, ¬ ok c (some e)) → cfg.name ∉ k.links → r = .ok ()

/-- Reporting an error, after a call that failed or because the name is taken. -/
theorem wp_linkMade_error {cfg : Config} {k : Kernel}
    (hfail : (∀ c e, ¬ ok c (some e)) → cfg.name ∈ k.links) (m : Netlink Unit)
    (e : TunnelErr) (k' : Kernel) :
    Prog.wp Kernel.handle ok (m >>= fun _ => pure (.error e)) (LinkMade ok cfg k) k' := by
  rw [Prog.wp_bind]
  refine Prog.wp_mono (fun _ _ _ => ?_) (Prog.wp_true m k')
  exact ⟨fun h => (by cases h), fun hno hfree => absurd (hfail hno) hfree⟩

theorem wp_createLink_made (cfg : Config) (created : Bool) (k : Kernel) :
    Prog.wp Kernel.handle ok (createLink cfg created) (LinkMade ok cfg k) k := by
  have hfault {c : NlCall} {e : NlError} (hf : ok c (some e)) :
      (∀ c e, ¬ ok c (some e)) → cfg.name ∈ k.links := fun hno => absurd hf (hno c e)
  rw [createLink, request, Prog.perform_bind, Prog.wp_call]
  intro f hf
  cases f with
  | some e => exact wp_linkMade_error (hfault hf) _ _ _
  | none =>
      by_cases htaken : cfg.name ∈ k.links
      · simp only [Kernel.handle_none, Kernel.perform, Kernel.linkAdd, Link.attrs,
          gretunFor_name, htaken, if_true]
        exact wp_linkMade_error (fun _ => htaken) _ _ _
      · simp only [Kernel.handle_none, Kernel.perform, linkAdd_of_free htaken]
        rw [Prog.wp_bind]
        refine Prog.wp_mono ?_ (wp_setMTU_attrs cfg k)
        rintro r k₁ ⟨hset, hsucceeds⟩
        cases r with
        | error e =>
            exact wp_linkMade_error (fun hno => by cases hsucceeds hno) _ _ _
        | ok u =>
            obtain rfl := hset rfl
            simp only [request]
            rw [Prog.perform_bind, Prog.wp_call]
            intro f hf
            cases f with
            | some e => exact wp_linkMade_error (hfault hf) _ _ _
            | none =>
                simp only [Kernel.handle_none, Kernel.perform, Link.attrs,
                  gretunFor_name, setAttrs_withGretun]
                exact ⟨fun _ => ⟨htaken, rfl⟩, fun _ _ => rfl⟩

/-- Asking for the receive port touches nothing else. It is there afterwards, provided
no call that fails pretends that it was. -/
theorem wp_createFOU_ports (cfg : Config) (k : Kernel) :
    Prog.wp Kernel.handle ok (createFOU cfg)
      (fun r k' => k'.links = k.links ∧ k'.addrs = k.addrs ∧
        ((∃ created, r = .ok created) →
          (∀ fou, ¬ ok (.fouAdd fou) (some (.errno .EEXIST))) →
            k'.fous = k.portsFor cfg) ∧
        ((∀ c e, ¬ ok c (some e)) → ∃ created, r = .ok created)) k := by
  by_cases hencap : cfg.encap = .none
  · rw [createFOU, if_pos hencap, Kernel.portsFor, if_pos hencap]
    exact ⟨rfl, rfl, fun _ _ => rfl, fun _ => ⟨false, rfl⟩⟩
  · rw [createFOU, if_neg hencap, Kernel.portsFor, if_neg hencap, ensureFOU, request,
      Prog.perform_bind, Prog.wp_call]
    intro f hf
    cases f with
    | some e =>
        refine ⟨rfl, rfl, ?_, fun hno => absurd hf (hno _ e)⟩
        rintro ⟨created, hr⟩ hexact
        by_cases he : e = .errno .EEXIST
        · exact absurd (he ▸ hf) (hexact _)
        · simp [he] at hr
    | none =>
        by_cases hopen : (fouFor cfg.encapDport cfg.encap).key ∈ k.fous
        · simp [Kernel.perform, Kernel.fouAdd, hopen]
        · simp [Kernel.perform, Kernel.fouAdd, hopen]

structure Made (ok : NlCall → Fault → Prop) (cfg : Config) (k : Kernel)
    (r : Except TunnelErr Unit) (k' : Kernel) : Prop where
  valid : r = .ok () → validateConfig cfg = .ok ()
  free : r = .ok () → cfg.name ∉ k.links
  links : r = .ok () → k'.links = (k.withGretun cfg (builtAttrs cfg)).links
  addrs : r = .ok () → k'.addrs = k.addrs
  fous : r = .ok () → (∀ fou, ¬ ok (.fouAdd fou) (some (.errno .EEXIST))) →
    k'.fous = k.portsFor cfg
  succeeds : (∀ c e, ¬ ok c (some e)) → validateConfig cfg = .ok () →
    cfg.name ∉ k.links → r = .ok ()

theorem made_error {cfg : Config} {k k' : Kernel} {e : TunnelErr}
    (hfail : (∀ c e, ¬ ok c (some e)) → validateConfig cfg = .ok () →
      cfg.name ∈ k.links) : Made ok cfg k (.error e) k' :=
  ⟨fun h => (by cases h), fun h => (by cases h), fun h => (by cases h),
    fun h => (by cases h), fun h => (by cases h),
    fun hno hvalid hfree => absurd (hfail hno hvalid) hfree⟩

theorem wp_create_made (cfg : Config) (k : Kernel) :
    Prog.wp Kernel.handle ok (create none cfg) (Made ok cfg k) k := by
  rw [create]
  cases hvalid : validateConfig cfg with
  | error e => exact made_error fun _ h => (by cases hvalid.symm.trans h)
  | ok u =>
      simp only [request]
      rw [Prog.perform_bind, Prog.wp_call]
      intro f hf
      have hsame : (Kernel.handle f (.linkByName cfg.name) k).2 = k := by
        cases f <;> rfl
      rw [hsame]
      cases hread : (Kernel.handle f (.linkByName cfg.name) k).1 with
      | ok l =>
          refine made_error fun _ _ => ?_
          cases f with
          | some e => cases hread
          | none =>
              by_contra hfree
              rw [Kernel.handle_none, Kernel.perform, AList.lookup_eq_none.2 hfree]
                at hread
              cases hread
      | error e =>
          simp only
          rw [Prog.wp_bind]
          refine Prog.wp_mono ?_ (wp_createFOU_ports cfg k)
          rintro r k₁ ⟨hlinks, haddrs, hports, hopened⟩
          cases r with
          | error e =>
              refine made_error fun hno _ => ?_
              obtain ⟨created, hr⟩ := hopened hno
              cases hr
          | ok created =>
              refine Prog.wp_mono ?_ (wp_createLink_made cfg created k₁)
              rintro r k' ⟨hbuilt, hsucceeds⟩
              rw [hlinks] at hbuilt hsucceeds
              refine ⟨fun _ => hvalid, fun hr => (hbuilt hr).1, fun hr => ?_,
                fun hr => ?_, fun hr hexact => ?_, fun hno _ => hsucceeds hno⟩
              · rw [(hbuilt hr).2, Kernel.withGretun, hlinks]
                rfl
              · rw [(hbuilt hr).2]
                exact haddrs
              · rw [(hbuilt hr).2]
                exact hports ⟨created, rfl⟩ hexact

theorem made_exec (cfg : Config) (k : Kernel) {ω : ℕ → NlCall → Fault}
    (hω : ∀ n c, ok c (ω n c)) :
    Made ok cfg k (exec (create none cfg) ω k).1 (exec (create none cfg) ω k).2 :=
  Prog.run_of_wp hω (wp_create_made cfg k)

theorem Made.lookup {cfg : Config} {k k' : Kernel} (h : Made ok cfg k (.ok ()) k') :
    k'.links.lookup cfg.name =
      some (.gretun { gretunFor cfg with attrs := builtAttrs cfg }) := by
  rw [h.links rfl]
  exact AList.lookup_insert _

end AnyEnvironment

/-- Whatever fails on the way, a `Create` that returns without an error has built
its link. -/
theorem wp_create_hasLink (ctx : Option CtxError) (cfg : Config) (k : Kernel) :
    Prog.wp Kernel.handle AnyFault (create ctx cfg)
      (fun r k' => r = .ok () → HasLink cfg k') k := by
  cases ctx with
  | some e => exact fun h => absurd h (by simp)
  | none =>
      refine Prog.wp_mono (fun r k' hmade hr => ?_) (wp_create_made cfg k)
      subst hr
      exact ⟨builtAttrs cfg, hmade.lookup⟩

/-- A `Create` that returns without an error was asked for a valid
configuration. -/
theorem wp_create_valid (ctx : Option CtxError) (cfg : Config) (k : Kernel) :
    Prog.wp Kernel.handle AnyFault (create ctx cfg)
      (fun r _ => r = .ok () → validateConfig cfg = .ok ()) k := by
  cases ctx with
  | some e => exact fun h => absurd h (by simp)
  | none => exact Prog.wp_mono (fun _ _ hmade => hmade.valid) (wp_create_made cfg k)

theorem wp_create_ok {cfg : Config} {k : Kernel}
    (hvalid : validateConfig cfg = .ok ()) (hfree : cfg.name ∉ k.links) :
    Prog.wp Kernel.handle NoFault (create none cfg)
      (fun r _ => r = .ok ()) k :=
  Prog.wp_mono (fun _ _ hmade => hmade.succeeds (by simp [NoFault]) hvalid hfree)
    (wp_create_made cfg k)

/-! ## Receive ports that were open stay open -/

theorem fous_handle {c : NlCall} (hfou : ∀ fou, c ≠ .fouAdd fou ∧ c ≠ .fouDel fou)
    (f : Fault) (k : Kernel) : (Kernel.handle f c k).2.fous = k.fous := by
  cases f with
  | some e => rfl
  | none =>
      rw [Kernel.handle_none]
      cases c with
      | fouAdd fou => exact absurd rfl (hfou fou).1
      | fouDel fou => exact absurd rfl (hfou fou).2
      | linkAdd l =>
          simp only [Kernel.perform, Kernel.linkAdd]
          split <;> rfl
      | linkDel l =>
          simp only [Kernel.perform, Kernel.linkDel]
          split <;> rfl
      | linkSetUp l =>
          simp only [Kernel.perform, Kernel.setAttrs]
          split <;> rfl
      | linkSetMTU l mtu =>
          simp only [Kernel.perform, Kernel.setAttrs]
          split <;> rfl
      | addrAdd l a =>
          simp only [Kernel.perform, Kernel.addrAdd]
          split <;> rfl
      | linkByName n => rfl
      | linkList => rfl
      | addrList l => rfl

theorem mem_fous_handle {key : ℕ × Port} {k : Kernel} (hkey : key ∈ k.fous)
    (f : Fault) {c : NlCall} (hc : ∀ fou, c = .fouDel fou → fou.key ≠ key) :
    key ∈ (Kernel.handle f c k).2.fous := by
  cases f with
  | some e => exact hkey
  | none =>
      cases c with
      | fouAdd fou =>
          simp only [Kernel.handle_none, Kernel.perform, Kernel.fouAdd]
          split
          · exact hkey
          · exact (AList.mem_insert _).2 (Or.inr hkey)
      | fouDel fou =>
          simp only [Kernel.handle_none, Kernel.perform, Kernel.fouDel]
          split
          · exact (AList.mem_erase).2 ⟨(hc fou rfl).symm, hkey⟩
          · exact hkey
      | _ =>
          rw [fous_handle (by simp)]
          exact hkey

/-- The requests of `createLink`. A port is closed only if it was opened before. -/
theorem allCalls_createLink {P : NlCall → Prop} {cfg : Config} {created : Bool}
    (hadd : P (.linkAdd (.gretun (gretunFor cfg))))
    (hmtu : ∀ mtu, P (.linkSetMTU (.gretun (gretunFor cfg)) mtu))
    (hup : P (.linkSetUp (.gretun (gretunFor cfg))))
    (hdel : P (.linkDel (.gretun (gretunFor cfg))))
    (hfou : created = true → P (.fouDel { family := afInet, port := cfg.encapDport })) :
    Prog.AllCalls P (createLink cfg created) := by
  have hundo : Prog.AllCalls P (undoFOU cfg created) := by
    cases created with
    | false => exact trivial
    | true => exact ⟨hfou rfl, fun _ => trivial⟩
  have hset : Prog.AllCalls P (setMTU cfg) := by
    unfold setMTU
    split
    · exact ⟨hmtu _, fun _ => trivial⟩
    · exact trivial
  refine ⟨hadd, fun r => ?_⟩
  cases r with
  | error e => exact hundo.bind fun _ => trivial
  | ok u =>
      refine hset.bind fun r => ?_
      cases r with
      | error e => exact ⟨hdel, fun _ => hundo.bind fun _ => trivial⟩
      | ok u =>
          refine ⟨hup, fun r => ?_⟩
          cases r with
          | error e => exact ⟨hdel, fun _ => hundo.bind fun _ => trivial⟩
          | ok u => exact trivial

theorem wp_createLink_mem_fous {key : ℕ × Port} {cfg : Config} {created : Bool}
    {k : Kernel} (hkey : key ∈ k.fous)
    (hne : created = true → (afInet, cfg.encapDport) ≠ key) :
    Prog.wp Kernel.handle AnyFault (createLink cfg created)
      (fun _ k' => key ∈ k'.fous) k := by
  refine Prog.AllCalls.wp (P := fun c => ∀ fou, c = .fouDel fou → fou.key ≠ key)
    (fun f c k hc hk => mem_fous_handle hk f hc) ?_ hkey
  refine allCalls_createLink (by simp) (by simp) (by simp) (by simp) ?_
  rintro hcreated fou ⟨⟩
  exact hne hcreated

/-- A receive port that `createFOU` reports as opened was not open before. -/
theorem wp_createFOU_mem_fous {key : ℕ × Port} {cfg : Config} {k : Kernel}
    (hkey : key ∈ k.fous) :
    Prog.wp Kernel.handle AnyFault (createFOU cfg)
      (fun r k' => key ∈ k'.fous ∧
        (r = .ok true → (afInet, cfg.encapDport) ≠ key)) k := by
  by_cases hencap : cfg.encap = .none
  · rw [createFOU, if_pos hencap]
    exact ⟨hkey, by simp⟩
  · rw [createFOU, if_neg hencap, ensureFOU, request, Prog.perform_bind,
      Prog.wp_call]
    intro f _
    have hkeep := mem_fous_handle hkey f
      (c := .fouAdd (fouFor cfg.encapDport cfg.encap)) (by simp)
    cases hr : (Kernel.handle f (.fouAdd (fouFor cfg.encapDport cfg.encap)) k).1 with
    | error e =>
        refine ⟨hkeep, ?_⟩
        split <;> simp
    | ok u =>
        refine ⟨hkeep, fun _ heq => ?_⟩
        cases f with
        | some e => cases hr
        | none =>
            have hopen : (fouFor cfg.encapDport cfg.encap).key ∈ k.fous := by
              rw [← heq] at hkey
              exact hkey
            simp [Kernel.perform, Kernel.fouAdd, hopen] at hr

/-- Whatever fails on the way, `Create` closes no receive port that was open
before it. -/
theorem wp_create_mem_fous {key : ℕ × Port} (ctx : Option CtxError) (cfg : Config)
    {k : Kernel} (hkey : key ∈ k.fous) :
    Prog.wp Kernel.handle AnyFault (create ctx cfg)
      (fun _ k' => key ∈ k'.fous) k := by
  unfold create
  cases ctx with
  | some e => exact hkey
  | none =>
      cases validateConfig cfg with
      | error e => exact hkey
      | ok u =>
          simp only [request]
          rw [Prog.perform_bind, Prog.wp_call]
          intro f _
          have hread := mem_fous_handle hkey f (c := .linkByName cfg.name) (by simp)
          cases (Kernel.handle f (.linkByName cfg.name) k).1 with
          | ok l => exact hread
          | error e =>
              simp only
              rw [Prog.wp_bind]
              refine Prog.wp_mono ?_ (wp_createFOU_mem_fous hread)
              rintro r k' ⟨hk', hne⟩
              cases r with
              | error e => exact hk'
              | ok created =>
                  refine wp_createLink_mem_fous hk' fun hcreated => ?_
                  exact hne (by rw [hcreated])

theorem allCalls_assignIP {P : NlCall → Prop} {name : String}
    (hread : P (.linkByName name)) (hadd : ∀ l addr, P (.addrAdd l addr))
    (parse : Parsers) (ctx : Option CtxError) (cidr : String) :
    Prog.AllCalls P (assignIP parse ctx name cidr) := by
  unfold assignIP
  split
  · exact trivial
  · split
    · exact trivial
    · exact trivial
    · refine ⟨hread, fun r => ?_⟩
      cases r with
      | error e => exact trivial
      | ok link =>
          simp only
          split
          · exact trivial
          · refine ⟨hadd _ _, fun r => ?_⟩
            cases r <;> exact trivial

theorem wp_assignIP_restored (parse : Parsers) (ctx : Option CtxError)
    (name cidr : String) (k : Kernel) :
    Prog.wp Kernel.handle AnyFault (assignIP parse ctx name cidr)
      (fun _ k' => Restored k k') k := by
  refine Prog.AllCalls.wp
    (P := fun c => ∀ f k, Restored k (Kernel.handle f c k).2)
    (fun f c k' hc hk' => ?_) (allCalls_assignIP ?_ ?_ parse ctx cidr) ⟨rfl, rfl⟩
  · obtain ⟨hlinks, hfous⟩ := hc f k'
    exact ⟨hlinks.trans hk'.1, hfous.trans hk'.2⟩
  · rintro (e | -) k' <;> exact ⟨rfl, rfl⟩
  · rintro l addr (e | -) k'
    · simp only [Kernel.handle_none, Kernel.perform, Kernel.addrAdd]
      split <;> exact ⟨rfl, rfl⟩
    · exact ⟨rfl, rfl⟩

end Tunnel

end Gretun
