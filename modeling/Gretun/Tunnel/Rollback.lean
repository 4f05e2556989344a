import Gretun.Foundation.Assoc
import Gretun.Tunnel.Gre

/-!
# A failed `Create` leaves the kernel as it was

Every error path of `create` undoes exactly what was done before it. The
receive port is the delicate part: a later failure must close it when this call
opened it and must leave it alone when it was open before. `FouBy k₀ cfg created`
is the link between the two: the ports are those of the kernel `k₀` before the
call, with the port of the configuration added when `created` is set.
-/

namespace Gretun

namespace Tunnel

open Gretun.Net
open Foundation.Command
open Foundation.Assoc

def Restored (k₀ k : Kernel) : Prop := k.links = k₀.links ∧ k.fous = k₀.fous

/-- The receive ports are those of `k₀`, with the one of `cfg` opened by this
call when `created` is set. -/
def FouBy (k₀ : Kernel) (cfg : Config) (created : Bool) (k : Kernel) : Prop :=
  if created then
    (afInet, cfg.encapDport) ∉ k₀.fous ∧
      k.fous = k₀.fous.insert (afInet, cfg.encapDport)
        (fouFor cfg.encapDport cfg.encap)
  else k.fous = k₀.fous

/-- The environment may fail any call except the two that roll back. -/
def RollbackSucceeds (c : NlCall) (f : Fault) : Prop :=
  match c with
  | .linkDel _ => f = none
  | .fouDel _ => f = none
  | _ => True

def ErrorRestores (k₀ : Kernel) (r : Except TunnelErr Unit) (k : Kernel) : Prop :=
  ∀ e, r = .error e → Restored k₀ k

theorem wp_rollbackFOU {k₀ k : Kernel} {cfg : Config} {Q : Unit → Kernel → Prop}
    (hfou : FouBy k₀ cfg true k)
    (hQ : Q () { k with fous := k₀.fous }) :
    Prog.wp Kernel.handle RollbackSucceeds (rollbackFOU cfg.encapDport) Q k := by
  obtain ⟨hnew, hins⟩ := hfou
  rw [rollbackFOU, request, Prog.perform_bind, Prog.wp_call]
  intro f hf
  obtain rfl : f = none := hf
  have hmem : (afInet, cfg.encapDport) ∈ k.fous := by
    rw [hins]
    exact AList.mem_insert _ |>.2 (Or.inl rfl)
  have hback : k.fous.erase (afInet, cfg.encapDport) = k₀.fous := by
    rw [hins, erase_insert_of_notMem hnew]
  simpa [Kernel.perform, Kernel.fouDel, Fou.key, hmem, hback] using hQ

theorem wp_undoFOU {k₀ k : Kernel} {cfg : Config} {created : Bool}
    {Q : Unit → Kernel → Prop} (hfou : FouBy k₀ cfg created k)
    (hQ : Q () { k with fous := k₀.fous }) :
    Prog.wp Kernel.handle RollbackSucceeds (undoFOU cfg created) Q k := by
  cases created with
  | true => exact wp_rollbackFOU hfou hQ
  | false =>
      have hsame : k.fous = k₀.fous := hfou
      rw [← hsame] at hQ
      exact hQ

def LinkBy (k₀ : Kernel) (cfg : Config) (k : Kernel) : Prop :=
  cfg.name ∉ k₀.links ∧ ∃ l, k.links = k₀.links.insert cfg.name l

@[simp] theorem gretunFor_name (cfg : Config) :
    (gretunFor cfg).attrs.name = cfg.name := by
  unfold gretunFor applyEncap
  split <;> rfl

theorem LinkBy.mem {k₀ k : Kernel} {cfg : Config} (h : LinkBy k₀ cfg k) :
    cfg.name ∈ k.links := by
  obtain ⟨-, l, hl⟩ := h
  rw [hl]
  exact (AList.mem_insert _).2 (Or.inl rfl)

theorem LinkBy.setAttrs {k₀ k : Kernel} {cfg : Config} (h : LinkBy k₀ cfg k)
    (f : LinkAttrs → LinkAttrs) :
    (k.setAttrs cfg.name f).1 = .ok () ∧
      LinkBy k₀ cfg (k.setAttrs cfg.name f).2 ∧
      (k.setAttrs cfg.name f).2.fous = k.fous := by
  obtain ⟨hfree, l, hl⟩ := h
  have hlook : k.links.lookup cfg.name = some l := by
    rw [hl]
    exact AList.lookup_insert _
  refine ⟨by simp [Kernel.setAttrs, hlook], ⟨hfree, ?_⟩, ?_⟩
  · refine ⟨l.withAttrs (f l.attrs), ?_⟩
    simp [Kernel.setAttrs, hl, AList.insert_insert]
  · simp [Kernel.setAttrs, hlook]

theorem wp_undoLink {k₀ k : Kernel} {cfg : Config} {created : Bool}
    {Q : Unit → Kernel → Prop} (hlink : LinkBy k₀ cfg k)
    (hfou : FouBy k₀ cfg created k)
    (hQ : ∀ k', Restored k₀ k' → Q () k') :
    Prog.wp Kernel.handle RollbackSucceeds (undoLink cfg created) Q k := by
  obtain ⟨hfree, l, hl⟩ := id hlink
  have hback : k.links.erase cfg.name = k₀.links := by
    rw [hl, erase_insert_of_notMem hfree]
  rw [undoLink, request, Prog.perform_bind, Prog.wp_call]
  intro f hf
  obtain rfl : f = none := hf
  simp only [Kernel.handle_none, Kernel.perform, Kernel.linkDel, Link.attrs,
    gretunFor_name, hlink.mem, if_true, hback]
  exact wp_undoFOU hfou (hQ _ ⟨rfl, rfl⟩)

theorem wp_undo_error {k₀ k : Kernel} {cfg : Config} {created : Bool}
    (e : TunnelErr) (hlink : LinkBy k₀ cfg k) (hfou : FouBy k₀ cfg created k) :
    Prog.wp Kernel.handle RollbackSucceeds
      (do undoLink cfg created; return .error e) (ErrorRestores k₀) k := by
  rw [Prog.wp_bind]
  exact wp_undoLink hlink hfou fun _ hk _ _ => hk

theorem wp_setMTU {k₀ k : Kernel} {cfg : Config} {created : Bool}
    (hlink : LinkBy k₀ cfg k) (hfou : FouBy k₀ cfg created k) :
    Prog.wp Kernel.handle RollbackSucceeds (setMTU cfg)
      (fun _ k' => LinkBy k₀ cfg k' ∧ FouBy k₀ cfg created k') k := by
  by_cases hmtu : 0 < mtuOrDefault cfg
  · rw [setMTU, if_pos hmtu, request, Prog.perform, Prog.wp_call]
    intro f _
    cases f with
    | some e => exact ⟨hlink, hfou⟩
    | none =>
        obtain ⟨-, hlink', hsame⟩ :=
          hlink.setAttrs fun a => { a with mtu := mtuOrDefault cfg }
        have hfou' : FouBy k₀ cfg created
            (k.setAttrs cfg.name fun a => { a with mtu := mtuOrDefault cfg }).2 := by
          unfold FouBy at hfou ⊢
          rwa [hsame]
        simpa [Kernel.perform, Link.attrs] using And.intro hlink' hfou'
  · rw [setMTU, if_neg hmtu]
    exact ⟨hlink, hfou⟩

theorem wp_createLink {k₀ k : Kernel} {cfg : Config} {created : Bool}
    (hlinks : k.links = k₀.links) (hfou : FouBy k₀ cfg created k) :
    Prog.wp Kernel.handle RollbackSucceeds (createLink cfg created)
      (ErrorRestores k₀) k := by
  have hfail : ∀ e : TunnelErr, Prog.wp Kernel.handle RollbackSucceeds
      (undoFOU cfg created >>= fun _ => pure (.error e))
      (ErrorRestores k₀) k := by
    intro e
    rw [Prog.wp_bind]
    exact wp_undoFOU hfou fun _ _ => ⟨hlinks, rfl⟩
  rw [createLink, request, Prog.perform_bind, Prog.wp_call]
  intro f _
  cases f with
  | some e => exact hfail _
  | none =>
      by_cases htaken : cfg.name ∈ k.links
      · simp only [Kernel.handle_none, Kernel.perform, Kernel.linkAdd, Link.attrs,
          gretunFor_name, htaken, if_true]
        exact hfail _
      · simp only [Kernel.handle_none, Kernel.perform, Kernel.linkAdd, Link.attrs,
          gretunFor_name, htaken, if_false]
        rw [Prog.wp_bind]
        have hlink : LinkBy k₀ cfg
            { k with links := k.links.insert cfg.name (.gretun (gretunFor cfg)) } :=
          ⟨hlinks ▸ htaken, _, by rw [hlinks]⟩
        refine Prog.wp_mono ?_ (wp_setMTU hlink hfou)
        rintro r k₁ ⟨hlink₁, hfou₁⟩
        cases r with
        | error e => exact wp_undo_error _ hlink₁ hfou₁
        | ok u =>
            simp only [request]
            rw [Prog.perform_bind, Prog.wp_call]
            intro f _
            cases f with
            | some e => exact wp_undo_error _ hlink₁ hfou₁
            | none =>
                obtain ⟨hok, -, -⟩ :=
                  hlink₁.setAttrs fun a => { a with up := true }
                simp only [Kernel.handle_none, Kernel.perform, Link.attrs,
                  gretunFor_name, hok]
                intro e he
                cases he

theorem wp_createFOU {k₀ : Kernel} {cfg : Config}
    {Q : Except NlError Bool → Kernel → Prop}
    (herr : ∀ e, Q (.error e) k₀)
    (hok : ∀ created k, k.links = k₀.links → FouBy k₀ cfg created k →
      Q (.ok created) k) :
    Prog.wp Kernel.handle RollbackSucceeds (createFOU cfg) Q k₀ := by
  by_cases hencap : cfg.encap = .none
  · rw [createFOU, if_pos hencap]
    exact hok false k₀ rfl rfl
  · rw [createFOU, if_neg hencap, ensureFOU, request, Prog.perform_bind,
      Prog.wp_call]
    intro f _
    cases f with
    | some e =>
        by_cases he : e = .errno .EEXIST
        · simpa [Kernel.failResp, he] using hok false k₀ rfl rfl
        · simpa [Kernel.failResp, he] using herr e
    | none =>
        by_cases hopen : (afInet, cfg.encapDport) ∈ k₀.fous
        · simpa [Kernel.perform, Kernel.fouAdd, Fou.key, fouFor, hopen] using
            hok false k₀ rfl rfl
        · simpa [Kernel.perform, Kernel.fouAdd, Fou.key, fouFor, hopen] using
            hok true (k₀.fouAdd (fouFor cfg.encapDport cfg.encap)).2
              (by simp [Kernel.fouAdd, Fou.key, fouFor, hopen])
              ⟨hopen, by simp [Kernel.fouAdd, Fou.key, fouFor, hopen]⟩

theorem wp_create (k₀ : Kernel) (ctx : Option CtxError) (cfg : Config) :
    Prog.wp Kernel.handle RollbackSucceeds (create ctx cfg)
      (ErrorRestores k₀) k₀ := by
  have hsame : ∀ e, ErrorRestores k₀ (.error e) k₀ := fun _ _ _ => ⟨rfl, rfl⟩
  unfold create
  cases ctx with
  | some e => exact hsame _
  | none =>
      cases validateConfig cfg with
      | error e => exact hsame _
      | ok u =>
          simp only [request]
          rw [Prog.perform_bind, Prog.wp_call]
          intro f _
          -- the look-up only reads, whether it fails or not
          have hread : (Kernel.handle f (.linkByName cfg.name) k₀).2 = k₀ := by
            cases f <;> rfl
          rw [hread]
          cases (Kernel.handle f (.linkByName cfg.name) k₀).1 with
          | ok l => exact hsame _
          | error e =>
              simp only
              rw [Prog.wp_bind]
              exact wp_createFOU (fun _ => hsame _)
                fun _ _ hlinks hfou => wp_createLink hlinks hfou

/-- `Create` is all-or-nothing: whatever calls fail, with whatever errors, as long
as the two rollback calls do not, an error leaves the links and the receive ports
exactly as they were. In particular a receive port that was open before the call
is still open. -/
theorem create_error_restores (k : Kernel) (ctx : Option CtxError) (cfg : Config)
    (ω : ℕ → NlCall → Fault)
    (hdel : ∀ n l, ω n (.linkDel l) = none)
    (hfou : ∀ n f, ω n (.fouDel f) = none)
    (e : TunnelErr) (herr : (exec (create ctx cfg) ω k).1 = .error e) :
    (exec (create ctx cfg) ω k).2.links = k.links ∧
      (exec (create ctx cfg) ω k).2.fous = k.fous ∧
      ∀ key ∈ k.fous, key ∈ (exec (create ctx cfg) ω k).2.fous := by
  have hallowed : ∀ n c, RollbackSucceeds c (ω n c) := by
    intro n c
    cases c with
    | linkDel l => exact hdel n l
    | fouDel f => exact hfou n f
    | _ => trivial
  obtain ⟨hlinks, hfous⟩ :=
    Prog.run_of_wp hallowed (wp_create k ctx cfg) e herr
  exact ⟨hlinks, hfous, fun key hkey => hfous ▸ hkey⟩

def sampleConfig : Config where
  name := "tun0"
  localIP := [10, 0, 0, 1]
  remoteIP := [10, 0, 0, 2]
  encap := .fou
  encapDport := 7777

def sampleKernel : Kernel where
  links := ∅
  fous := (∅ : AList fun _ : ℕ × Port => Fou).insert (afInet, 7777)
    (fouFor 7777 .fou)
  addrs := ∅

def mtuRefused (_ : ℕ) (c : NlCall) : Fault :=
  match c with
  | .linkSetMTU _ _ => some (.errno .EINVAL)
  | _ => none

/-- A refused MTU: the link that was added is gone again, and the receive port
that was open before stays open. -/
theorem create_error_restores_of_mtuRefused :
    (exec (create none sampleConfig) mtuRefused sampleKernel).1 =
        .error (translateNetlinkError (.errno .EINVAL) "create" "tun0") ∧
      (exec (create none sampleConfig) mtuRefused sampleKernel).2.links =
          sampleKernel.links ∧
        (exec (create none sampleConfig) mtuRefused sampleKernel).2.fous =
            sampleKernel.fous ∧
          ∀ key ∈ sampleKernel.fous,
            key ∈ (exec (create none sampleConfig) mtuRefused sampleKernel).2.fous :=
  ⟨rfl, create_error_restores sampleKernel none sampleConfig mtuRefused
    (fun _ _ => rfl) (fun _ _ => rfl) _ rfl⟩

end Tunnel

end Gretun
