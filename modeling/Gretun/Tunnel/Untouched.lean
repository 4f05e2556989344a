import Gretun.Tunnel.Status

/-!
# What a request touches

A request that changes a link or its addresses names that link; `NlCall.target` is the
name. Every other name keeps its link and its addresses, which is `SameAt`. With that,
what the operations of the tunnel package leave alone is read off the requests they make.
-/

namespace Gretun

namespace Tunnel

open Foundation.Command
open Foundation.Assoc

def NlCall.target : NlCall → Option String
  | .linkAdd l => some l.attrs.name
  | .linkDel l => some l.attrs.name
  | .linkSetUp l => some l.attrs.name
  | .linkSetMTU l _ => some l.attrs.name
  | .addrAdd l _ => some l.attrs.name
  | _ => none

namespace Kernel

def SameAt (n : String) (k k' : Kernel) : Prop :=
  k'.links.lookup n = k.links.lookup n ∧ k'.addrs.lookup n = k.addrs.lookup n

theorem SameAt.refl (n : String) (k : Kernel) : SameAt n k k := ⟨rfl, rfl⟩

theorem SameAt.trans {n : String} {k₁ k₂ k₃ : Kernel} (h : SameAt n k₁ k₂)
    (h' : SameAt n k₂ k₃) : SameAt n k₁ k₃ :=
  ⟨h'.1.trans h.1, h'.2.trans h.2⟩

theorem sameAt_setAttrs {n name : String} (hne : n ≠ name) (k : Kernel)
    (f : LinkAttrs → LinkAttrs) : SameAt n k (k.setAttrs name f).2 := by
  unfold setAttrs
  split
  · exact ⟨AList.lookup_insert_ne hne, rfl⟩
  · exact SameAt.refl n k

/-- A request changes nothing under a name that is not its target. -/
theorem sameAt_handle {n : String} {c : NlCall} (hc : c.target ≠ some n) (f : Fault)
    (k : Kernel) : SameAt n k (handle f c k).2 := by
  cases f with
  | some e => exact SameAt.refl n k
  | none =>
      rw [handle_none]
      cases c with
      | linkAdd l =>
          have hne : n ≠ l.attrs.name := fun h => hc (by rw [NlCall.target, h])
          simp only [perform, linkAdd]
          split
          · exact SameAt.refl n k
          · exact ⟨AList.lookup_insert_ne hne, rfl⟩
      | linkDel l =>
          have hne : n ≠ l.attrs.name := fun h => hc (by rw [NlCall.target, h])
          simp only [perform, linkDel]
          split
          · exact ⟨AList.lookup_erase_ne hne, AList.lookup_erase_ne hne⟩
          · exact SameAt.refl n k
      | linkSetUp l =>
          exact sameAt_setAttrs (fun h => hc (by rw [NlCall.target, h])) k _
      | linkSetMTU l mtu =>
          exact sameAt_setAttrs (fun h => hc (by rw [NlCall.target, h])) k _
      | addrAdd l a =>
          have hne : n ≠ l.attrs.name := fun h => hc (by rw [NlCall.target, h])
          simp only [perform, addrAdd]
          split
          · exact ⟨rfl, AList.lookup_insert_ne hne⟩
          · exact SameAt.refl n k
      | fouAdd fou =>
          simp only [perform, fouAdd]
          split <;> exact SameAt.refl n k
      | fouDel fou =>
          simp only [perform, fouDel]
          split <;> exact SameAt.refl n k
      | linkByName name => exact SameAt.refl n k
      | linkList => exact SameAt.refl n k
      | addrList l => exact SameAt.refl n k

theorem handle_linkDel (f : Fault) (l : Link) (k : Kernel) :
    handle f (.linkDel l) k = (.ok (), (k.linkDel l).2) ∨
      ∃ e, handle f (.linkDel l) k = (.error e, k) := by
  cases f with
  | some e => exact Or.inr ⟨e, rfl⟩
  | none =>
      by_cases hl : l.attrs.name ∈ k.links
      · exact Or.inl (by simp [perform, linkDel, hl])
      · exact Or.inr ⟨.errno .ENODEV, by simp [perform, linkDel, hl]⟩

theorem handle_addrAdd (f : Fault) (l : Link) (a : String) (k : Kernel) :
    handle f (.addrAdd l a) k = (.ok (), (k.addrAdd l a).2) ∨
      ∃ e, handle f (.addrAdd l a) k = (.error e, k) := by
  cases f with
  | some e => exact Or.inr ⟨e, rfl⟩
  | none =>
      by_cases hl : l.attrs.name ∈ k.links
      · exact Or.inl (by simp [perform, addrAdd, hl])
      · exact Or.inr ⟨.errno .ENODEV, by simp [perform, addrAdd, hl]⟩

/-- The links are there under their names, and only a link has addresses. -/
structure Tidy (k : Kernel) : Prop where
  named : k.WellNamed
  housed : ∀ n, n ∈ k.addrs → n ∈ k.links

theorem Tidy.addrs_eq_none {k : Kernel} (h : k.Tidy) {n : String}
    (hn : k.links.lookup n = none) : k.addrs.lookup n = none :=
  AList.lookup_eq_none.2 fun hmem => AList.lookup_eq_none.1 hn (h.housed n hmem)

theorem mem_links_setAttrs {k : Kernel} {n name : String} {f : LinkAttrs → LinkAttrs}
    (hn : n ∈ k.links) : n ∈ (k.setAttrs name f).2.links := by
  unfold setAttrs
  split
  · exact (AList.mem_insert _).2 (Or.inr hn)
  · exact hn

theorem Tidy.handle {k : Kernel} (h : k.Tidy) (f : Fault) (c : NlCall) :
    (handle f c k).2.Tidy := by
  refine ⟨wellNamed_handle h.named f c, ?_⟩
  cases f with
  | some e => exact h.housed
  | none =>
      rw [handle_none]
      cases c with
      | linkAdd l =>
          simp only [perform, linkAdd]
          split
          · exact h.housed
          · exact fun n hn => (AList.mem_insert _).2 (Or.inr (h.housed n hn))
      | linkDel l =>
          simp only [perform, linkDel]
          split
          · intro n hn
            obtain ⟨hne, hn⟩ := AList.mem_erase.1 hn
            exact AList.mem_erase.2 ⟨hne, h.housed n hn⟩
          · exact h.housed
      | linkSetUp l =>
          intro n hn
          refine mem_links_setAttrs (h.housed n ?_)
          simp only [perform, setAttrs] at hn
          split at hn <;> exact hn
      | linkSetMTU l mtu =>
          intro n hn
          refine mem_links_setAttrs (h.housed n ?_)
          simp only [perform, setAttrs] at hn
          split at hn <;> exact hn
      | addrAdd l a =>
          simp only [perform, addrAdd]
          split
          · rename_i hl
            intro n hn
            rcases (AList.mem_insert _).1 hn with rfl | hn
            · exact hl
            · exact h.housed n hn
          · exact h.housed
      | fouAdd fou =>
          simp only [perform, fouAdd]
          split <;> exact h.housed
      | fouDel fou =>
          simp only [perform, fouDel]
          split <;> exact h.housed
      | linkByName name => exact h.housed
      | linkList => exact h.housed
      | addrList l => exact h.housed

end Kernel

section AnyEnvironment

variable {ok : NlCall → Fault → Prop}

/-- A program that never targets a name keeps what is there. -/
theorem wp_sameAt {α : Type} {m : Netlink α} {n : String}
    (hm : Prog.AllCalls (fun c => c.target ≠ some n) m) (k₀ k : Kernel)
    (hk : Kernel.SameAt n k₀ k) :
    Prog.wp Kernel.handle ok m (fun _ k' => Kernel.SameAt n k₀ k') k :=
  hm.wp (fun f _ _ hc hk => hk.trans (Kernel.sameAt_handle hc f _)) hk

theorem allCalls_undoFOU {P : NlCall → Prop} (hP : ∀ fou, P (.fouDel fou)) (cfg : Config)
    (created : Bool) : Prog.AllCalls P (undoFOU cfg created) := by
  unfold undoFOU
  split
  · exact ⟨hP _, fun _ => trivial⟩
  · exact trivial

theorem allCalls_createFOU {P : NlCall → Prop} (hP : ∀ fou, P (.fouAdd fou))
    (cfg : Config) : Prog.AllCalls P (createFOU cfg) := by
  unfold createFOU
  split
  · exact trivial
  · refine ⟨hP _, fun r => ?_⟩
    cases r <;> exact trivial

/-- A link that is added under a name that is taken leaves that name alone. -/
theorem wp_createLink_taken {cfg : Config} (created : Bool) {k₀ k : Kernel}
    (htaken : cfg.name ∈ k.links) (hk : Kernel.SameAt cfg.name k₀ k) :
    Prog.wp Kernel.handle ok (createLink cfg created)
      (fun _ k' => Kernel.SameAt cfg.name k₀ k') k := by
  rw [createLink, request, Prog.perform_bind, Prog.wp_call]
  intro f _
  have hadd : ∃ e, Kernel.handle f (.linkAdd (.gretun (gretunFor cfg))) k =
      (.error e, k) := by
    cases f with
    | some e => exact ⟨e, rfl⟩
    | none =>
        exact ⟨.errno .EEXIST, by
          simp [Kernel.perform, Kernel.linkAdd, Link.attrs, htaken]⟩
  obtain ⟨e, hadd⟩ := hadd
  rw [hadd]
  refine wp_sameAt (Prog.AllCalls.bind ?_ fun _ => Prog.allCalls_ret _ _) k₀ k hk
  exact allCalls_undoFOU (by simp [NlCall.target]) cfg created

/-- `Create` changes nothing under another name, and nothing at all under a name that is
taken. -/
theorem wp_create_sameAt (ctx : Option CtxError) (cfg : Config) {n : String} (k : Kernel)
    (hn : n ≠ cfg.name ∨ n ∈ k.links) :
    Prog.wp Kernel.handle ok (create ctx cfg) (fun _ k' => Kernel.SameAt n k k') k := by
  unfold create
  cases ctx with
  | some e => exact Kernel.SameAt.refl n k
  | none =>
      cases validateConfig cfg with
      | error e => exact Kernel.SameAt.refl n k
      | ok u =>
          simp only [request]
          rw [Prog.perform_bind, Prog.wp_call]
          intro f _
          have hsame : (Kernel.handle f (.linkByName cfg.name) k).2 = k := by
            cases f <;> rfl
          rw [hsame]
          cases (Kernel.handle f (.linkByName cfg.name) k).1 with
          | ok l => exact Kernel.SameAt.refl n k
          | error e =>
              simp only
              rw [Prog.wp_bind]
              refine Prog.wp_mono ?_ (wp_sameAt
                (allCalls_createFOU (by simp [NlCall.target]) cfg) k k
                (Kernel.SameAt.refl n k))
              intro r k₁ hk₁
              cases r with
              | error e => exact hk₁
              | ok created =>
                  by_cases hname : n = cfg.name
                  · subst hname
                    have hmem : cfg.name ∈ k.links := hn.resolve_left (by simp)
                    refine wp_createLink_taken created ?_ hk₁
                    rw [← AList.lookup_isSome] at hmem ⊢
                    rwa [hk₁.1]
                  · refine wp_sameAt (allCalls_createLink ?_ ?_ ?_ ?_ ?_) k k₁ hk₁ <;>
                      simp [NlCall.target, Link.attrs, Ne.symm hname]

theorem wp_delete (ctx : Option CtxError) (name : String) (k : Kernel) :
    Prog.wp Kernel.handle ok (delete ctx name)
      (fun r k' =>
        (r = .ok () → ∃ l, k.links.lookup name = some l ∧ l.type = "gre" ∧
          k' = (k.linkDel l).2) ∧
        ∀ e, r = .error e → k' = k) k := by
  unfold delete
  cases ctx with
  | some e => exact ⟨fun h => (by cases h), fun _ _ => rfl⟩
  | none =>
      cases validateTunnelName name with
      | error e => exact ⟨fun h => (by cases h), fun _ _ => rfl⟩
      | ok u =>
          simp only [request]
          rw [Prog.perform_bind, Prog.wp_call]
          rintro (- | e) -
          · rw [Kernel.handle_none, Kernel.perform]
            cases hl : k.links.lookup name with
            | none => exact ⟨fun h => (by cases h), fun _ _ => rfl⟩
            | some l =>
                simp only
                split
                · exact ⟨fun h => (by cases h), fun _ _ => rfl⟩
                · rename_i htype
                  rw [Prog.perform_bind, Prog.wp_call]
                  intro f _
                  rcases Kernel.handle_linkDel f l k with hdel | ⟨e, hdel⟩
                  · rw [hdel]
                    exact ⟨fun _ => ⟨l, rfl, not_not.1 htype, rfl⟩,
                      fun _ h => (by cases h)⟩
                  · rw [hdel]
                    exact ⟨fun h => (by cases h), fun _ _ => rfl⟩
          · exact ⟨fun h => (by cases h), fun _ _ => rfl⟩

theorem wp_assignIP (parse : Parsers) (ctx : Option CtxError) (name cidr : String)
    (k : Kernel) :
    Prog.wp Kernel.handle ok (assignIP parse ctx name cidr)
      (fun r k' =>
        (r = .ok () → ∃ l addr, k.links.lookup name = some l ∧
          parse.nlAddr cidr = .ok addr ∧ k' = (k.addrAdd l addr).2) ∧
        ∀ e, r = .error e → k' = k) k := by
  unfold assignIP
  cases ctx with
  | some e => exact ⟨fun h => (by cases h), fun _ _ => rfl⟩
  | none =>
      simp only
      split
      · exact ⟨fun h => (by cases h), fun _ _ => rfl⟩
      · exact ⟨fun h => (by cases h), fun _ _ => rfl⟩
      · simp only [request]
        rw [Prog.perform_bind, Prog.wp_call]
        rintro (- | e) -
        · rw [Kernel.handle_none, Kernel.perform]
          cases hl : k.links.lookup name with
          | none => exact ⟨fun h => (by cases h), fun _ _ => rfl⟩
          | some l =>
              cases haddr : parse.nlAddr cidr with
              | error e => exact ⟨fun h => (by cases h), fun _ _ => rfl⟩
              | ok addr =>
                  simp only
                  rw [Prog.perform_bind, Prog.wp_call]
                  intro f _
                  rcases Kernel.handle_addrAdd f l addr k with hadd | ⟨e, hadd⟩
                  · rw [hadd]
                    exact ⟨fun _ => ⟨l, addr, rfl, rfl, rfl⟩, fun _ h => (by cases h)⟩
                  · rw [hadd]
                    exact ⟨fun h => (by cases h), fun _ _ => rfl⟩
        · exact ⟨fun h => (by cases h), fun _ _ => rfl⟩

end AnyEnvironment

end Tunnel

end Gretun
