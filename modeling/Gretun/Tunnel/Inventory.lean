import Gretun.Tunnel.Holding

/-!
# An inventory of links

`Inventory k₀ own k` accounts for every link of the kernel `k`: those with a name in
`own` were added since `k₀`, and all others are as they were in `k₀`. `Create` keeps
the inventory of what it holds at every request, and `Delete` strikes out the link it
is called for.
-/

namespace Gretun

namespace Tunnel

open Gretun.Net
open Foundation.Command
open Foundation.Interleave

structure Inventory (k₀ : Kernel) (own : List String) (k : Kernel) : Prop where
  nodup : own.Nodup
  mine : ∀ n ∈ own, n ∉ k₀.links ∧
    ∃ g : GretunLink, g.attrs.name = n ∧ k.links.lookup n = some (.gretun g)
  rest : ∀ n, n ∉ own → k.links.lookup n = k₀.links.lookup n

namespace Inventory

variable {k₀ k k' : Kernel} {own others : List String} {n : String}

theorem refl (k : Kernel) : Inventory k [] k :=
  ⟨List.nodup_nil, by simp, fun _ _ => rfl⟩

theorem perm (h : Inventory k₀ own k) (hperm : own.Perm others) :
    Inventory k₀ others k :=
  ⟨hperm.nodup h.nodup, fun n hn => h.mine n (hperm.mem_iff.2 hn),
    fun n hn => h.rest n fun hold => hn (hperm.mem_iff.1 hold)⟩

theorem congr (h : Inventory k₀ own k) (hlinks : k'.links = k.links) :
    Inventory k₀ own k' := by
  refine ⟨h.nodup, fun n hn => ?_, fun n hn => ?_⟩
  · rw [hlinks]
    exact h.mine n hn
  · rw [hlinks]
    exact h.rest n hn

theorem mem_links (h : Inventory k₀ own k) (hn : n ∈ own) :
    n ∈ k.links := by
  obtain ⟨-, g, -, hg⟩ := h.mine n hn
  rw [← AList.lookup_isSome, hg]
  rfl

theorem insert (h : Inventory k₀ own k) (hfree : n ∉ k.links)
    {g : GretunLink} (hg : g.attrs.name = n)
    (hlinks : k'.links = k.links.insert n (.gretun g)) :
    Inventory k₀ (n :: own) k' := by
  have hn : n ∉ own := fun hn => hfree (h.mem_links hn)
  refine ⟨List.nodup_cons.2 ⟨hn, h.nodup⟩, fun m hm => ?_, fun m hm => ?_⟩
  · rw [hlinks]
    rcases List.mem_cons.1 hm with rfl | hm
    · refine ⟨?_, g, hg, AList.lookup_insert _⟩
      rwa [← AList.lookup_eq_none, ← h.rest m hn, AList.lookup_eq_none]
    · have hne : m ≠ n := fun heq => hn (heq ▸ hm)
      obtain ⟨hold, g', hg', hlookup⟩ := h.mine m hm
      exact ⟨hold, g', hg', (AList.lookup_insert_ne hne).trans hlookup⟩
  · rw [List.mem_cons, not_or] at hm
    rw [hlinks, AList.lookup_insert_ne hm.1]
    exact h.rest m hm.2

theorem erase (h : Inventory k₀ (n :: own) k) (hlinks : k'.links = k.links.erase n) :
    Inventory k₀ own k' := by
  obtain ⟨hn, hnodup⟩ := List.nodup_cons.1 h.nodup
  refine ⟨hnodup, fun m hm => ?_, fun m hm => ?_⟩
  · have hne : m ≠ n := fun heq => hn (heq ▸ hm)
    rw [hlinks, AList.lookup_erase_ne hne]
    exact h.mine m (List.mem_cons_of_mem _ hm)
  · rw [hlinks]
    by_cases hmn : m = n
    · subst hmn
      rw [AList.lookup_erase]
      exact (AList.lookup_eq_none.2 (h.mine m List.mem_cons_self).1).symm
    · rw [AList.lookup_erase_ne hmn]
      refine h.rest m fun hmem => ?_
      rcases List.mem_cons.1 hmem with heq | hmem
      · exact hmn heq
      · exact hm hmem

theorem replace (h : Inventory k₀ (n :: own) k) {g : GretunLink}
    (hg : g.attrs.name = n) (hlinks : k'.links = k.links.insert n (.gretun g)) :
    Inventory k₀ (n :: own) k' := by
  obtain ⟨hn, -⟩ := List.nodup_cons.1 h.nodup
  refine ⟨h.nodup, fun m hm => ?_, fun m hm => ?_⟩
  · rw [hlinks]
    refine ⟨(h.mine m hm).1, ?_⟩
    rcases List.mem_cons.1 hm with rfl | hmem
    · exact ⟨g, hg, AList.lookup_insert _⟩
    · have hne : m ≠ n := fun heq => hn (heq ▸ hmem)
      rw [AList.lookup_insert_ne hne]
      exact (h.mine m hm).2
  · have hne : m ≠ n := fun heq => hm (heq ▸ List.mem_cons_self)
    rw [hlinks, AList.lookup_insert_ne hne]
    exact h.rest m hm

end Inventory

/-! ## Creating -/

def Hold.own (name : String) (h : Hold) : List String := if h.link then [name] else []

theorem Hold.own_of_link {name : String} {h : Hold} (hlink : h.link = true) :
    h.own name = [name] := by
  rw [own, hlink, if_pos rfl]

theorem Hold.own_of_no_link {name : String} {h : Hold} (hlink : h.link = false) :
    h.own name = [] := by
  rw [own, hlink]
  rfl

namespace Inventory

variable {k₀ k k' : Kernel} {others : List String} {cfg : Config} {h h' : Hold}

/-- A request of a call keeps the inventory. -/
theorem linkStep (hinv : Inventory k₀ (h.own cfg.name ++ others) k)
    (hstep : LinkStep cfg h h' k k') :
    Inventory k₀ (h'.own cfg.name ++ others) k' := by
  cases hstep with
  | same links link =>
      rw [Hold.own, link]
      exact hinv.congr links
  | add free links was link =>
      rw [Hold.own_of_no_link was] at hinv
      rw [Hold.own_of_link link]
      exact hinv.insert free (gretunFor_name cfg) links
  | delete links was failed link =>
      rw [Hold.own_of_link was] at hinv
      rw [Hold.own_of_no_link link]
      exact hinv.erase links
  | attrs l a found name links was link =>
      rw [Hold.own_of_link was] at hinv
      rw [Hold.own_of_link link]
      obtain ⟨-, g, hg, hlookup⟩ := hinv.mine cfg.name List.mem_cons_self
      obtain rfl : l = .gretun g := Option.some.inj (found.symm.trans hlookup)
      exact hinv.replace (name.trans hg) links

/-- A request of a call leaves the links of others alone. -/
theorem lookup_of_linkStep (hinv : Inventory k₀ (h.own cfg.name ++ others) k)
    (hstep : LinkStep cfg h h' k k') {n : String} (hn : n ∈ others) :
    k'.links.lookup n = k.links.lookup n := by
  by_cases hname : n = cfg.name
  · have hnone : h.link = false := by
      by_contra hne
      have hown := hinv.nodup
      rw [Hold.own_of_link (by simpa using hne)] at hown
      exact (List.nodup_cons.1 hown).1 (hname ▸ hn)
    cases hstep with
    | same links link => rw [links]
    | add free links was link =>
        exact absurd (hname ▸ hinv.mem_links (List.mem_append_right _ hn)) free
    | delete links was failed link => exact absurd (hnone.symm.trans was) (by simp)
    | attrs l a found name links was link =>
        exact absurd (hnone.symm.trans was) (by simp)
  · exact hstep.lookup_of_ne hname

end Inventory

/-- Only requests for a port and deletions change what a call knows about its port and
about links it could not delete. -/
theorem Hold.flags_move {c : NlCall} (hfou : ∀ fou, c ≠ .fouAdd fou ∧ c ≠ .fouDel fou)
    (hdel : ∀ l, c ≠ .linkDel l) (h : Hold) (r : c.Resp) :
    (h.move c r).opened = h.opened ∧ (h.move c r).kept = h.kept := by
  cases c with
  | fouAdd fou => exact absurd rfl (hfou fou).1
  | fouDel fou => exact absurd rfl (hfou fou).2
  | linkDel l => exact absurd rfl (hdel l)
  | linkAdd l => cases r <;> exact ⟨rfl, rfl⟩
  | _ =>
      rcases h.move_other (by simp) (by simp) r with heq | heq
      · rw [heq]
        exact ⟨rfl, rfl⟩
      · rw [heq]
        exact ⟨rfl, rfl⟩

/-- A call that found its port open, and whose deletions succeed, never opens or closes
a port and never fails to delete its link. -/
theorem clean_of_handle {cfg : Config} {h : Hold} {c : NlCall} {f : Fault} {k : Kernel}
    (hallows : h.allows cfg c) (hopened : h.opened = false) (hkept : h.kept = false)
    (hport : ∀ fou, c = .fouAdd fou → fou.key ∈ k.fous)
    (hdel : ∀ l, c = .linkDel l → f = none) (hlink : h.link = true → cfg.name ∈ k.links) :
    (h.move c (Kernel.handle f c k).1).opened = false ∧
      (h.move c (Kernel.handle f c k).1).kept = false ∧
      (Kernel.handle f c k).2.fous = k.fous := by
  have hother : (∀ fou, c ≠ .fouAdd fou ∧ c ≠ .fouDel fou) → (∀ l, c ≠ .linkDel l) →
      (h.move c (Kernel.handle f c k).1).opened = false ∧
        (h.move c (Kernel.handle f c k).1).kept = false ∧
        (Kernel.handle f c k).2.fous = k.fous := by
    intro hfou hdel
    obtain ⟨hopened', hkept'⟩ := h.flags_move hfou hdel (Kernel.handle f c k).1
    exact ⟨hopened'.trans hopened, hkept'.trans hkept, fous_handle hfou f k⟩
  cases c with
  | fouAdd fou =>
      have hopen := hport fou rfl
      cases f with
      | some e =>
          simp only [Kernel.handle_some, Kernel.failResp, Hold.move]
          split <;> exact ⟨hopened, hkept, trivial⟩
      | none => simp [Kernel.perform, Kernel.fouAdd, hopen, Hold.move, hopened, hkept]
  | fouDel fou => exact absurd (hopened.symm.trans hallows.2.1) (by simp)
  | linkDel l =>
      obtain ⟨hname, hheld, -⟩ := hallows
      have hmem : l.attrs.name ∈ k.links := hname ▸ hlink hheld
      rw [hdel l rfl]
      simp [Kernel.perform, Kernel.linkDel, hmem, Hold.move, hopened, hkept]
  | _ => exact hother (by simp) (by simp)

/-! ## Deleting -/

/-- What `Delete` knows: the link it found, whether it is gone, and whether a request
failed. -/
structure Removal where
  found : Option Link := none
  gone : Bool := false
  lost : Bool := false

namespace Removal

def move (g : Removal) : (c : NlCall) → c.Resp → Removal
  | .linkByName _, .ok l => { g with found := some l }
  | .linkByName _, .error _ => { g with lost := true }
  | .linkDel _, .ok () => { g with gone := true }
  | .linkDel _, .error _ => { g with lost := true }
  | .linkAdd _, _ => g
  | .linkSetUp _, _ => g
  | .linkSetMTU _ _, _ => g
  | .linkList, _ => g
  | .addrAdd _ _, _ => g
  | .addrList _, _ => g
  | .fouAdd _, _ => g
  | .fouDel _, _ => g

def allows (name : String) (g : Removal) : NlCall → Prop
  | .linkByName n => n = name ∧ g.gone = false
  | .linkDel l => g.found = some l ∧ g.gone = false
  | _ => False

def own (name : String) (g : Removal) : List String := if g.gone then [] else [name]

end Removal

def removing (name : String) : Discipline NlCall NlCall.Resp Removal where
  move := Removal.move
  allows := Removal.allows name

/-- `Delete` has deleted the link, or a request failed, or the link it found is of
another type. -/
def DeleteEnds (g : Removal) (_ : Except TunnelErr Unit) : Prop :=
  g.gone = true ∨ g.lost = true ∨ g.gone = false ∧ ∃ l, g.found = some l ∧ l.type ≠ "gre"

theorem follows_delete {name : String} (hname : validateTunnelName name = .ok ()) :
    Follows (removing name) DeleteEnds {} (delete none name) := by
  unfold delete
  simp only [hname, request]
  rw [Prog.perform_bind, follows_call]
  refine ⟨⟨rfl, rfl⟩, fun r => ?_⟩
  cases r with
  | error e => exact Or.inr (Or.inl rfl)
  | ok link =>
      simp only
      split
      · rename_i htype
        exact Or.inr (Or.inr ⟨rfl, link, rfl, htype⟩)
      · rw [Prog.perform_bind, follows_call]
        refine ⟨⟨rfl, rfl⟩, fun r => ?_⟩
        cases r with
        | error e => exact Or.inr (Or.inl rfl)
        | ok u => exact Or.inl rfl

structure Removal.Tracks (name : String) (k : Kernel) (g : Removal) : Prop where
  lost : g.lost = false
  found : ∀ l, g.found = some l → g.gone = false → k.links.lookup name = some l

namespace Inventory

variable {k₀ k : Kernel} {others : List String} {name : String} {g : Removal}

/-- A request of `Delete` that does not fail: it finds the link of the inventory, or it
strikes it out. -/
theorem removal (hinv : Inventory k₀ (g.own name ++ others) k)
    (htracks : g.Tracks name k) {c : NlCall} (hallows : g.allows name c) :
    Inventory k₀ ((g.move c (Kernel.handle none c k).1).own name ++ others)
        (Kernel.handle none c k).2 ∧
      (g.move c (Kernel.handle none c k).1).Tracks name (Kernel.handle none c k).2 ∧
      (Kernel.handle none c k).2.fous = k.fous ∧
      ∀ n ∈ others, (Kernel.handle none c k).2.links.lookup n = k.links.lookup n := by
  rw [Kernel.handle_none]
  cases c with
  | linkByName n =>
      obtain ⟨rfl, hgone⟩ := hallows
      have hinv' := hinv
      rw [Removal.own, hgone] at hinv'
      obtain ⟨-, gre, -, hlookup⟩ := hinv'.mine n List.mem_cons_self
      refine ⟨?_, ⟨?_, ?_⟩, rfl, fun _ _ => rfl⟩
      · simpa [Kernel.perform, hlookup, Removal.move, Removal.own] using hinv
      · simpa [Kernel.perform, hlookup, Removal.move] using htracks.lost
      · intro l hl _
        simp only [Kernel.perform, hlookup, Removal.move, Option.some.injEq] at hl ⊢
        exact hl
  | linkDel l =>
      obtain ⟨hfound, hgone⟩ := hallows
      rw [Removal.own, hgone] at hinv
      obtain ⟨-, gre, hname, hlookup⟩ := hinv.mine name List.mem_cons_self
      obtain rfl : l = .gretun gre :=
        Option.some.inj ((htracks.found l hfound hgone).symm.trans hlookup)
      have hmem : name ∈ k.links := hinv.mem_links List.mem_cons_self
      have hdelete : Kernel.perform (.linkDel (.gretun gre)) k =
          (.ok (), { k with links := k.links.erase name
                            addrs := k.addrs.erase name }) := by
        simp [Kernel.perform, Kernel.linkDel, Link.attrs, hmem, hname]
      have hnot : ∀ n ∈ others, n ≠ name := fun n hn heq =>
        (List.nodup_cons.1 hinv.nodup).1 (heq ▸ hn)
      rw [hdelete]
      refine ⟨hinv.erase rfl, ⟨htracks.lost, fun l _ hgone' => ?_⟩, rfl,
        fun n hn => AList.lookup_erase_ne (hnot n hn)⟩
      cases hgone'
  | _ => exact hallows.elim

end Inventory

end Tunnel

end Gretun
