import Gretun.Foundation.Interleave
import Gretun.Tunnel.Created

/-!
# What a tunnel operation holds

From the answers to its requests an operation knows what it has done to the kernel:
whether its receive port was there or opened by it, whether its link stands, whether a
request failed. `Hold` is that knowledge, and `holding cfg` says which requests it
allows: a port is closed only by the call that opened it, a link is touched only while
it stands, and either is undone only after a failure. `Create` follows this whatever
the answers are, also the answers that the requests of other calls lead to.
-/

namespace Gretun

namespace Tunnel

open Gretun.Net
open Foundation.Command
open Foundation.Interleave

/-- `port`: the receive port was opened, or found open. `opened`: by this call.
`link`: the link was added and not deleted. `kept`: it could not be deleted.
`failed`: a request that `Create` needs has failed, or its name was taken. -/
structure Hold where
  port : Bool := false
  opened : Bool := false
  link : Bool := false
  kept : Bool := false
  failed : Bool := false
  deriving DecidableEq

namespace Hold

def fail (h : Hold) : Hold := { h with failed := true }

def move (h : Hold) : (c : NlCall) → c.Resp → Hold
  | .fouAdd _, .ok () => { h with port := true, opened := true }
  | .fouAdd _, .error e =>
      if e = .errno .EEXIST then { h with port := true } else h.fail
  | .fouDel _, _ => { h with port := false, opened := false }
  | .linkAdd _, .ok () => { h with link := true }
  | .linkAdd _, .error _ => h.fail
  | .linkDel _, .ok () => { h with link := false }
  | .linkDel _, .error _ => { h with kept := true }
  | .linkSetMTU _ _, .ok () => h
  | .linkSetMTU _ _, .error _ => h.fail
  | .linkSetUp _, .ok () => h
  | .linkSetUp _, .error _ => h.fail
  | .linkByName _, .ok _ => if h.link then h else h.fail
  | .linkByName _, .error _ => h
  | .linkList, _ => h
  | .addrAdd _ _, _ => h
  | .addrList _, _ => h

def allows (cfg : Config) (h : Hold) : NlCall → Prop
  | .fouAdd f => f = fouFor cfg.encapDport cfg.encap ∧ h.port = false
  | .fouDel f => f.key = (afInet, cfg.encapDport) ∧ h.opened = true ∧ h.failed = true
  | .linkAdd l => l = .gretun (gretunFor cfg) ∧ h.link = false ∧ h.failed = false
  | .linkDel l => l.attrs.name = cfg.name ∧ h.link = true ∧ h.failed = true
  | .linkSetMTU l _ => l.attrs.name = cfg.name ∧ h.link = true
  | .linkSetUp l => l.attrs.name = cfg.name ∧ h.link = true
  | .linkByName n => n = cfg.name
  | _ => True

/-- Requests that neither open, close, add nor delete anything only tell of a
failure. -/
theorem move_other {c : NlCall} (hfou : ∀ fou, c ≠ .fouAdd fou ∧ c ≠ .fouDel fou)
    (hlink : ∀ l, c ≠ .linkAdd l ∧ c ≠ .linkDel l) (h : Hold) (r : c.Resp) :
    h.move c r = h ∨ h.move c r = h.fail := by
  cases c with
  | fouAdd fou => exact absurd rfl (hfou fou).1
  | fouDel fou => exact absurd rfl (hfou fou).2
  | linkAdd l => exact absurd rfl (hlink l).1
  | linkDel l => exact absurd rfl (hlink l).2
  | linkSetMTU l mtu =>
      cases r with
      | ok u => exact Or.inl rfl
      | error e => exact Or.inr rfl
  | linkSetUp l =>
      cases r with
      | ok u => exact Or.inl rfl
      | error e => exact Or.inr rfl
  | linkByName n =>
      cases r with
      | ok l =>
          simp only [move]
          split
          · exact Or.inl rfl
          · exact Or.inr rfl
      | error e => exact Or.inl rfl
  | linkList => exact Or.inl rfl
  | addrAdd l a => exact Or.inl rfl
  | addrList l => exact Or.inl rfl

end Hold

def holding (cfg : Config) : Discipline NlCall NlCall.Resp Hold where
  move := Hold.move
  allows := Hold.allows cfg

/-- What `Create` holds when it returns: the link and the port; or, after a failure or
for a configuration that is not valid, nothing except a link that could not be
deleted. -/
structure CreateHolds (ctx : Option CtxError) (cfg : Config) (h : Hold)
    (r : Except TunnelErr Unit) : Prop where
  valid : r = .ok () → ctx = none ∧ validateConfig cfg = .ok ()
  ok : r = .ok () → h.link = true ∧ h.failed = false ∧
    (cfg.encap ≠ .none → h.port = true)
  failed : r ≠ .ok () → ctx = none → validateConfig cfg = .ok () → h.failed = true
  undone : r ≠ .ok () → h.opened = false ∧ (h.link = true → h.kept = true)

theorem createHolds_error {ctx : Option CtxError} {cfg : Config} {h : Hold}
    (e : TunnelErr)
    (hfailed : ctx = none → validateConfig cfg = .ok () → h.failed = true)
    (hopened : h.opened = false) (hlink : h.link = true → h.kept = true) :
    CreateHolds ctx cfg h (.error e) :=
  ⟨fun heq => absurd heq (by simp), fun heq => absurd heq (by simp),
    fun _ => hfailed, fun _ => ⟨hopened, hlink⟩⟩

/-! ## The error paths -/

theorem follows_undoFOU {cfg : Config} {h : Hold} {created : Bool}
    (hcreated : h.opened = created) (hfailed : h.failed = true) :
    Follows (holding cfg) (fun h' (_ : Unit) =>
      h'.failed = true ∧ h'.opened = false ∧ h'.link = h.link ∧ h'.kept = h.kept) h
      (undoFOU cfg created) := by
  cases created with
  | false => exact ⟨hfailed, hcreated, rfl, rfl⟩
  | true =>
      rw [undoFOU, if_pos rfl, rollbackFOU, request, Prog.perform_bind, follows_call]
      exact ⟨⟨rfl, hcreated, hfailed⟩, fun r => ⟨hfailed, rfl, rfl, rfl⟩⟩

theorem follows_undoLink {ctx : Option CtxError} {cfg : Config} {h : Hold}
    {created : Bool} (e : TunnelErr) (hcreated : h.opened = created)
    (hfailed : h.failed = true) (hlink : h.link = true) :
    Follows (holding cfg) (CreateHolds ctx cfg) h
      (do undoLink cfg created; return .error e) := by
  rw [follows_bind, undoLink, request, Prog.perform_bind, follows_call]
  refine ⟨⟨gretunFor_name cfg, hlink, hfailed⟩, fun r => ?_⟩
  cases r with
  | ok u =>
      refine (follows_undoFOU (h := { h with link := false }) hcreated hfailed).mono ?_
      rintro h' - ⟨hfailed', hopened, hsame, -⟩
      refine createHolds_error e (fun _ _ => hfailed') hopened fun hstands => ?_
      rw [hsame] at hstands
      cases hstands
  | error err =>
      refine (follows_undoFOU (h := { h with kept := true }) hcreated hfailed).mono ?_
      rintro h' - ⟨hfailed', hopened, -, hkept⟩
      exact createHolds_error e (fun _ _ => hfailed') hopened fun _ => hkept

/-! ## `Create` -/

/-- `Create` from the point where the link is to be set up. -/
def createUp (cfg : Config) (createdFou : Bool) : Netlink (Except TunnelErr Unit) := do
  match ← request (.linkSetUp (.gretun (gretunFor cfg))) with
  | .error e =>
      undoLink cfg createdFou
      return .error (translateNetlinkError e "create" cfg.name)
  | .ok () => return .ok ()

theorem follows_createUp {cfg : Config} {h : Hold} {created : Bool}
    (hvalid : validateConfig cfg = .ok ()) (hcreated : h.opened = created)
    (hfailed : h.failed = false)
    (hlink : h.link = true) (hport : cfg.encap ≠ .none → h.port = true) :
    Follows (holding cfg) (CreateHolds none cfg) h (createUp cfg created) := by
  rw [createUp, request, Prog.perform_bind, follows_call]
  refine ⟨⟨gretunFor_name cfg, hlink⟩, fun r => ?_⟩
  cases r with
  | error e => exact follows_undoLink (h := h.fail) _ hcreated rfl hlink
  | ok u =>
      exact ⟨fun _ => ⟨rfl, hvalid⟩, fun _ => ⟨hlink, hfailed, hport⟩,
        fun hne => absurd rfl hne, fun hne => absurd rfl hne⟩

theorem follows_setMTU {cfg : Config} {h : Hold}
    {post : Hold → Except NlError Unit → Prop} (hlink : h.link = true)
    (herr : ∀ e, post h.fail (.error e)) (hok : post h (.ok ())) :
    Follows (holding cfg) post h (setMTU cfg) := by
  rw [setMTU]
  split
  · rw [request, Prog.perform, follows_call]
    refine ⟨⟨gretunFor_name cfg, hlink⟩, fun r => ?_⟩
    cases r with
    | error e => exact herr e
    | ok u => exact hok
  · exact hok

theorem follows_createLink {cfg : Config} {h : Hold} {created : Bool}
    (hvalid : validateConfig cfg = .ok ()) (hcreated : h.opened = created)
    (hfailed : h.failed = false)
    (hlink : h.link = false) (hport : cfg.encap ≠ .none → h.port = true) :
    Follows (holding cfg) (CreateHolds none cfg) h (createLink cfg created) := by
  rw [createLink, request, Prog.perform_bind, follows_call]
  refine ⟨⟨rfl, hlink, hfailed⟩, fun r => ?_⟩
  cases r with
  | error e =>
      simp only
      rw [follows_bind]
      refine (follows_undoFOU (h := h.fail) hcreated rfl).mono ?_
      rintro h' - ⟨hfailed', hopened, hsame, -⟩
      refine createHolds_error _ (fun _ _ => hfailed') hopened fun hstands => ?_
      rw [hsame] at hstands
      exact absurd (hlink.symm.trans hstands) (by simp)
  | ok u =>
      have hup : Follows (holding cfg) (CreateHolds none cfg) { h with link := true }
          (createUp cfg created) := follows_createUp hvalid hcreated hfailed rfl hport
      simp only
      rw [follows_bind]
      refine follows_setMTU (h := { h with link := true }) rfl (fun e => ?_) hup
      exact follows_undoLink (h := { h with link := true, failed := true }) _ hcreated
        rfl rfl

theorem follows_createFOU {cfg : Config} {post : Hold → Except NlError Bool → Prop}
    (herr : ∀ e h, h.failed = true → h.opened = false → h.link = false →
      post h (.error e))
    (hok : ∀ created h, h.opened = created → h.failed = false → h.link = false →
      (cfg.encap ≠ .none → h.port = true) → post h (.ok created)) :
    Follows (holding cfg) post {} (createFOU cfg) := by
  by_cases hencap : cfg.encap = .none
  · rw [createFOU, if_pos hencap]
    exact hok false {} rfl rfl rfl fun hne => absurd hencap hne
  · rw [createFOU, if_neg hencap, ensureFOU, request, Prog.perform_bind, follows_call]
    refine ⟨⟨rfl, rfl⟩, fun r => ?_⟩
    cases r with
    | ok u => exact hok true _ rfl rfl rfl fun _ => rfl
    | error e =>
        by_cases he : e = .errno .EEXIST
        · simp only [he, if_true]
          exact hok false _ rfl rfl rfl fun _ => rfl
        · simp only [he, if_false]
          refine herr e _ ?_ ?_ ?_ <;> simp [holding, Hold.move, he, Hold.fail]

/-- `Create` follows the discipline from the start. -/
theorem follows_create (ctx : Option CtxError) (cfg : Config) :
    Follows (holding cfg) (CreateHolds ctx cfg) {} (create ctx cfg) := by
  unfold create
  cases ctx with
  | some e =>
      exact createHolds_error _ (fun h => by cases h) rfl fun h => by cases h
  | none =>
      cases hvalid : validateConfig cfg with
      | error e =>
          refine createHolds_error _ (fun _ h => ?_) rfl fun h => by cases h
          rw [hvalid] at h
          cases h
      | ok u =>
          simp only [request]
          rw [Prog.perform_bind, follows_call]
          refine ⟨rfl, fun r => ?_⟩
          cases r with
          | ok l => exact createHolds_error _ (fun _ _ => rfl) rfl fun h => by cases h
          | error e =>
              simp only
              rw [follows_bind]
              refine follows_createFOU ?_ ?_
              · intro e h hfailed hopened hlink
                exact createHolds_error _ (fun _ _ => hfailed) hopened fun hstands =>
                  absurd (hlink.symm.trans hstands) (by simp)
              · intro created h hcreated hfailed hlink hport
                exact follows_createLink hvalid hcreated hfailed hlink hport

/-- `AssignIP` on the link that the call holds adds nothing to the knowledge. -/
theorem follows_assignIP {cfg : Config} {h : Hold} (hlink : h.link = true)
    (parse : Parsers) (cidr : String) :
    Follows (holding cfg) (fun h' (_ : Except TunnelErr Unit) => h' = h) h
      (assignIP parse none cfg.name cidr) := by
  unfold assignIP
  cases validateTunnelName cfg.name with
  | error e => rfl
  | ok u =>
      cases validateCIDR parse.cidr cidr with
      | error e => rfl
      | ok u =>
          simp only [request]
          rw [Prog.perform_bind, follows_call]
          refine ⟨rfl, fun r => ?_⟩
          cases r with
          | error e => rfl
          | ok link =>
              have hsame : Hold.move h (.linkByName cfg.name) (.ok link) = h :=
                if_pos hlink
              change Follows _ _ (Hold.move h (.linkByName cfg.name) (.ok link)) _
              rw [hsame]
              cases parse.nlAddr cidr with
              | error e => rfl
              | ok addr =>
                  simp only
                  rw [Prog.perform_bind, follows_call]
                  refine ⟨trivial, fun r => ?_⟩
                  cases r <;> rfl

/-! ## What an allowed request does to the links -/

/-- All that a request can do to the links and to the knowledge about them: nothing,
add the link, delete it, or set its attributes. -/
inductive LinkStep (cfg : Config) (h h' : Hold) (k k' : Kernel) : Prop where
  | same (links : k'.links = k.links) (link : h'.link = h.link)
  | add (free : cfg.name ∉ k.links)
      (links : k'.links = k.links.insert cfg.name (.gretun (gretunFor cfg)))
      (was : h.link = false) (link : h'.link = true)
  | delete (links : k'.links = k.links.erase cfg.name) (was : h.link = true)
      (failed : h.failed = true) (link : h'.link = false)
  | attrs (l : Link) (a : LinkAttrs) (found : k.links.lookup cfg.name = some l)
      (name : a.name = l.attrs.name)
      (links : k'.links = k.links.insert cfg.name (l.withAttrs a))
      (was : h.link = true) (link : h'.link = true)

theorem LinkStep.lookup_of_ne {cfg : Config} {h h' : Hold} {k k' : Kernel}
    (hstep : LinkStep cfg h h' k k') {n : String} (hn : n ≠ cfg.name) :
    k'.links.lookup n = k.links.lookup n := by
  cases hstep with
  | same links link => rw [links]
  | add free links was link => rw [links, AList.lookup_insert_ne hn]
  | delete links was failed link => rw [links, AList.lookup_erase_ne hn]
  | attrs l a found name links was link => rw [links, AList.lookup_insert_ne hn]

/-- Without a failure a held link stays, and without a link nothing is done to any. -/
theorem LinkStep.of_not_failed {cfg : Config} {h h' : Hold} {k k' : Kernel}
    (hstep : LinkStep cfg h h' k k') (hlive : h.failed = false) :
    (h.link = true → h'.link = true) ∧ (h'.link = false → k'.links = k.links) := by
  cases hstep with
  | same links link => exact ⟨fun hl => link.trans hl, fun _ => links⟩
  | add free links was link =>
      exact ⟨fun _ => link, fun hl => absurd (link.symm.trans hl) (by simp)⟩
  | delete links was failed link => exact absurd (hlive.symm.trans failed) (by simp)
  | attrs l a found name links was link =>
      exact ⟨fun _ => link, fun hl => absurd (link.symm.trans hl) (by simp)⟩

theorem linkStep_setAttrs {cfg : Config} {h h' : Hold} {k : Kernel} {name : String}
    (hname : name = cfg.name) (hlink : h.link = true) (hlink' : h'.link = true)
    {g : LinkAttrs → LinkAttrs} (hg : ∀ a, (g a).name = a.name) :
    LinkStep cfg h h' k (k.setAttrs name g).2 := by
  subst hname
  cases hlookup : k.links.lookup cfg.name with
  | none =>
      refine .same ?_ (hlink'.trans hlink.symm)
      simp [Kernel.setAttrs, hlookup]
  | some l =>
      refine .attrs l (g l.attrs) hlookup (hg l.attrs) ?_ hlink hlink'
      simp [Kernel.setAttrs, hlookup]

theorem linkStep_handle {cfg : Config} {h : Hold} {c : NlCall}
    (hallows : h.allows cfg c) (f : Fault) (k : Kernel) :
    LinkStep cfg h (h.move c (Kernel.handle f c k).1) k (Kernel.handle f c k).2 := by
  cases f with
  | some e =>
      refine .same rfl ?_
      cases c <;> simp only [Kernel.handle_some, Kernel.failResp, Hold.move] <;>
        first
        | rfl
        | (split <;> rfl)
  | none =>
      rw [Kernel.handle_none]
      cases c with
      | linkAdd l =>
          obtain ⟨rfl, hlink, -⟩ := hallows
          by_cases htaken : cfg.name ∈ k.links
          · refine .same ?_ ?_ <;>
              simp [Kernel.perform, Kernel.linkAdd, Link.attrs, htaken, Hold.move,
                Hold.fail]
          · refine .add htaken ?_ hlink ?_ <;>
              simp [Kernel.perform, Kernel.linkAdd, Link.attrs, htaken, Hold.move]
      | linkDel l =>
          obtain ⟨hname, hlink, hfailed⟩ := hallows
          by_cases hfound : l.attrs.name ∈ k.links
          · refine .delete ?_ hlink hfailed ?_
            · rw [← hname]
              simp [Kernel.perform, Kernel.linkDel, hfound]
            · simp [Kernel.perform, Kernel.linkDel, hfound, Hold.move]
          · refine .same ?_ ?_ <;>
              simp [Kernel.perform, Kernel.linkDel, hfound, Hold.move]
      | linkSetMTU l mtu =>
          refine linkStep_setAttrs hallows.1 hallows.2 ?_ fun _ => rfl
          cases hr : (Kernel.perform (.linkSetMTU l mtu) k).1 <;> exact hallows.2
      | linkSetUp l =>
          refine linkStep_setAttrs hallows.1 hallows.2 ?_ fun _ => rfl
          cases hr : (Kernel.perform (.linkSetUp l) k).1 <;> exact hallows.2
      | fouAdd fou =>
          by_cases hopen : fou.key ∈ k.fous
          · refine .same ?_ ?_ <;>
              simp [Kernel.perform, Kernel.fouAdd, hopen, Hold.move]
          · refine .same ?_ ?_ <;>
              simp [Kernel.perform, Kernel.fouAdd, hopen, Hold.move]
      | fouDel fou =>
          refine .same ?_ rfl
          simp only [Kernel.perform, Kernel.fouDel]
          split <;> rfl
      | linkByName n =>
          refine .same rfl ?_
          cases (Kernel.perform (.linkByName n) k).1 with
          | error e => rfl
          | ok l =>
              simp only [Hold.move]
              split <;> rfl
      | linkList => exact .same rfl rfl
      | addrList l => exact .same rfl rfl
      | addrAdd l a =>
          refine .same ?_ rfl
          simp only [Kernel.perform, Kernel.addrAdd]
          split <;> rfl

theorem notMem_of_setAttrs {k : Kernel} {name : String} {g : LinkAttrs → LinkAttrs}
    (h : (k.setAttrs name g).1 ≠ .ok ()) : name ∉ k.links := by
  rw [← AList.lookup_eq_none]
  cases hlookup : k.links.lookup name with
  | none => rfl
  | some l => exact absurd (by simp [Kernel.setAttrs, hlookup]) h

/-- Why a call fails: the environment fails a request, its name is taken, or its link
is gone. -/
theorem failed_of_move {cfg : Config} {h : Hold} {c : NlCall}
    (hallows : h.allows cfg c) {f : Fault} {k : Kernel} (hold : h.failed = false)
    (hnew : (h.move c (Kernel.handle f c k).1).failed = true) :
    f ≠ none ∨ h.link = false ∧ cfg.name ∈ k.links ∨
      h.link = true ∧ cfg.name ∉ k.links := by
  cases f with
  | some e => exact Or.inl (by simp)
  | none =>
      right
      rw [Kernel.handle_none] at hnew
      cases c with
      | linkAdd l =>
          obtain ⟨rfl, hlink, -⟩ := hallows
          by_cases htaken : cfg.name ∈ k.links
          · exact Or.inl ⟨hlink, htaken⟩
          · simp [Kernel.perform, Kernel.linkAdd, Link.attrs, htaken, Hold.move,
              hold] at hnew
      | linkDel l =>
          cases hr : (Kernel.perform (.linkDel l) k).1 with
          | ok u => simp [hr, Hold.move, hold] at hnew
          | error e => simp [hr, Hold.move, hold] at hnew
      | linkSetMTU l mtu =>
          obtain ⟨hname, hlink⟩ := hallows
          have hne : (Kernel.perform (.linkSetMTU l mtu) k).1 ≠ .ok () := by
            intro hok
            simp [hok, Hold.move, hold] at hnew
          exact Or.inr ⟨hlink, hname ▸ notMem_of_setAttrs hne⟩
      | linkSetUp l =>
          obtain ⟨hname, hlink⟩ := hallows
          have hne : (Kernel.perform (.linkSetUp l) k).1 ≠ .ok () := by
            intro hok
            simp [hok, Hold.move, hold] at hnew
          exact Or.inr ⟨hlink, hname ▸ notMem_of_setAttrs hne⟩
      | fouAdd fou =>
          by_cases hopen : fou.key ∈ k.fous
          · simp [Kernel.perform, Kernel.fouAdd, hopen, Hold.move, hold] at hnew
          · simp [Kernel.perform, Kernel.fouAdd, hopen, Hold.move, hold] at hnew
      | linkByName n =>
          obtain rfl : n = cfg.name := hallows
          cases hlookup : k.links.lookup cfg.name with
          | none => simp [Kernel.perform, hlookup, Hold.move, hold] at hnew
          | some l =>
              have hmem : cfg.name ∈ k.links := by
                rw [← AList.lookup_isSome, hlookup]
                rfl
              cases hlink : h.link with
              | true => simp [Kernel.perform, hlookup, Hold.move, hold, hlink] at hnew
              | false => exact Or.inl ⟨rfl, hmem⟩
      | fouDel fou => simp [Hold.move, hold] at hnew
      | linkList => simp [Hold.move, hold] at hnew
      | addrAdd l a => simp [Hold.move, hold] at hnew
      | addrList l => simp [Hold.move, hold] at hnew

end Tunnel

end Gretun
