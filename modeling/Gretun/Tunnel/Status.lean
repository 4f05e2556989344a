import Gretun.Tunnel.Created

/-!
# What `Get` and `List` report

`Get` and `List` turn a link back into a `Status`, each with its own filter on the
type of the link. What they report of a kernel is one function of its links, so that
the two agree, and the tunnel that `Create` has made is reported as it was asked for.
-/

namespace Gretun

namespace Tunnel

open Gretun.Net
open Foundation.Command
open Foundation.Assoc

structure Status where
  name : String
  localIP : String
  remoteIP : String
  key : BitVec 32
  ttl : BitVec 8
  up : Bool
  tunnelIP : String := ""
  encap : String := ""
  encapSport : Port
  encapDport : Port
  mtu : ℤ
  deriving DecidableEq

def ipToString (ip : IP) : String := if ip = [] then "" else ip.string

def encapName (encapType : BitVec 16) : String :=
  if encapType.toNat = fouEncapDirect then "fou"
  else if encapType.toNat = fouEncapGUE then "gue"
  else ""

def statusFromGretun (link : Link) (gre : GretunLink) : Status where
  name := link.attrs.name
  localIP := ipToString gre.localIP
  remoteIP := ipToString gre.remoteIP
  key := gre.iKey
  ttl := gre.ttl
  up := link.attrs.up
  mtu := link.attrs.mtu
  encap := encapName gre.encapType
  encapSport := gre.encapSport
  encapDport := gre.encapDport

def Status.withAddrs (s : Status) : Except NlError (List String) → Status
  | .ok (addr :: _) => { s with tunnelIP := addr }
  | _ => s

def get (ctx : Option CtxError) (name : String) : Netlink (Except TunnelErr Status) :=
  match ctx with
  | some e => pure (.error (.ctx e))
  | none => do
      match ← request (.linkByName name) with
      | .error _ => return .error (.notFound name)
      | .ok link =>
          match link with
          | .other _ type => return .error (.invalidType name type)
          | .gretun gre =>
              let addrs ← request (.addrList link)
              return .ok ((statusFromGretun link gre).withAddrs addrs)

/-- The loop of `List`. -/
def listLinks : List Link → Netlink (List Status)
  | [] => return []
  | link :: links =>
      if link.type ≠ "gre" then listLinks links
      else
        match link with
        | .other _ _ => listLinks links
        | .gretun gre => do
            let addrs ← request (.addrList link)
            let rest ← listLinks links
            return (statusFromGretun link gre).withAddrs addrs :: rest

def list (ctx : Option CtxError) : Netlink (Except TunnelErr (List Status)) :=
  match ctx with
  | some e => pure (.error (.ctx e))
  | none => do
      match ← request .linkList with
      | .error e => return .error (.netlink e)
      | .ok links =>
          let tunnels ← listLinks links
          return .ok tunnels

/-! ## One report for both -/

def Kernel.report (k : Kernel) : Link → Option Status
  | .gretun gre => some ((statusFromGretun (.gretun gre) gre).withAddrs
      (.ok ((k.addrs.lookup gre.attrs.name).getD [])))
  | .other _ _ => none

theorem withAddrs_name (s : Status) (addrs : Except NlError (List String)) :
    (s.withAddrs addrs).name = s.name := by
  unfold Status.withAddrs
  split <;> rfl

theorem report_name {k : Kernel} {l : Link} {s : Status} (h : k.report l = some s) :
    s.name = l.attrs.name := by
  cases l with
  | other attrs type => cases h
  | gretun gre =>
      rw [← Option.some.inj h, withAddrs_name]
      rfl

theorem exec_get (name : String) (k : Kernel) :
    exec (get none name) calm k =
      ((k.links.lookup name).elim (.error (.notFound name)) fun l =>
        (k.report l).elim (.error (.invalidType name l.type)) .ok, k) := by
  simp only [exec, get, request, Prog.perform_bind, Prog.run, calm, Kernel.handle_none,
    Kernel.perform]
  cases k.links.lookup name with
  | none => rfl
  | some l => cases l <;> rfl

theorem toOption_get (name : String) (k : Kernel) :
    (exec (get none name) calm k).1.toOption = (k.links.lookup name).bind k.report := by
  rw [exec_get]
  cases k.links.lookup name with
  | none => rfl
  | some l => cases l <;> rfl

theorem run_listLinks (links : List Link) (k : Kernel) :
    (listLinks links).run Kernel.handle calm k = (links.filterMap k.report, k) := by
  induction links with
  | nil => rfl
  | cons l links ih =>
      cases l with
      | other attrs type =>
          rw [List.filterMap_cons_none rfl, ← ih, listLinks]
          split <;> rfl
      | gretun gre =>
          have hmap := Prog.run_map Kernel.handle (listLinks links)
            (fun rest => (statusFromGretun (.gretun gre) gre).withAddrs
              (.ok ((k.addrs.lookup gre.attrs.name).getD [])) :: rest) calm k
          rw [ih] at hmap
          rw [List.filterMap_cons_some (f := k.report) rfl, listLinks,
            if_neg (by simp [Link.type])]
          exact hmap

theorem exec_list (k : Kernel) :
    exec (list none) calm k = (.ok ((values k.links).filterMap k.report), k) := by
  have hmap := Prog.run_map Kernel.handle (listLinks (values k.links))
    (fun tunnels => (.ok tunnels : Except TunnelErr (List Status))) calm k
  rw [run_listLinks] at hmap
  exact hmap

/-! ## Names -/

def Kernel.WellNamed (k : Kernel) : Prop :=
  ∀ name l, k.links.lookup name = some l → l.attrs.name = name

theorem wellNamed_empty : Kernel.empty.WellNamed := by
  intro name l h
  simp [Kernel.empty] at h

theorem Kernel.WellNamed.insert {k : Kernel} (h : k.WellNamed) {l : Link} {name : String}
    (hl : l.attrs.name = name) :
    Kernel.WellNamed { k with links := k.links.insert name l } := by
  intro n l' hlookup
  rcases lookup_insert_cases hlookup with ⟨rfl, rfl⟩ | ⟨-, hold⟩
  · exact hl
  · exact h n l' hold

theorem Kernel.WellNamed.setAttrs {k : Kernel} (h : k.WellNamed) {name : String}
    {f : LinkAttrs → LinkAttrs} (hf : ∀ a, (f a).name = a.name) :
    (k.setAttrs name f).2.WellNamed := by
  unfold Kernel.setAttrs
  split
  · rename_i l hl
    refine h.insert ?_
    have hattrs : (l.withAttrs (f l.attrs)).attrs = f l.attrs := by cases l <;> rfl
    rw [hattrs, hf, h name l hl]
  · exact h

theorem wellNamed_handle {k : Kernel} (h : k.WellNamed) (f : Fault) (c : NlCall) :
    (Kernel.handle f c k).2.WellNamed := by
  cases f with
  | some e => exact h
  | none =>
      cases c with
      | linkAdd l =>
          simp only [Kernel.handle_none, Kernel.perform, Kernel.linkAdd]
          split
          · exact h
          · exact h.insert rfl
      | linkDel l =>
          simp only [Kernel.handle_none, Kernel.perform, Kernel.linkDel]
          split
          · exact fun n l' hlookup => h n l' (lookup_of_lookup_erase hlookup).2
          · exact h
      | linkSetUp l => exact h.setAttrs fun _ => rfl
      | linkSetMTU l mtu => exact h.setAttrs fun _ => rfl
      | fouAdd fou =>
          simp only [Kernel.handle_none, Kernel.perform, Kernel.fouAdd]
          split <;> exact h
      | fouDel fou =>
          simp only [Kernel.handle_none, Kernel.perform, Kernel.fouDel]
          split <;> exact h
      | addrAdd l a =>
          simp only [Kernel.handle_none, Kernel.perform, Kernel.addrAdd]
          split <;> exact h
      | linkByName n => exact h
      | linkList => exact h
      | addrList l => exact h

/-- The entries of `List` under a name are what `Get` reports under it. -/
theorem filter_report {k : Kernel} (h : k.WellNamed) (name : String) :
    ((values k.links).filterMap k.report).filter (·.name = name) =
      ((k.links.lookup name).bind k.report).toList := by
  have hreport : (fun l => (k.report l).filter (·.name = name)) =
      fun l : Link => if l.attrs.name = name then k.report l else none := by
    funext l
    cases hs : k.report l with
    | none => simp
    | some s => simp [Option.filter, report_name hs]
  rw [List.filter_filterMap, hreport]
  have hvalues : (values k.links).filter (fun l => l.attrs.name = name) =
      (k.links.lookup name).toList := filter_values h name
  have hfuse := List.filterMap_filter (f := k.report) (l := values k.links)
    (p := fun l : Link => decide (l.attrs.name = name))
  rw [hvalues] at hfuse
  simp only [decide_eq_true_eq] at hfuse
  rw [← hfuse]
  cases k.links.lookup name with
  | none => rfl
  | some l => cases hs : k.report l <;> simp [hs]

/-! ## What `Create` has made -/

structure Status.Reports (s : Status) (cfg : Config) : Prop where
  name : s.name = cfg.name
  localIP : ∃ ip4, cfg.localIP.to4 = some ip4 ∧ s.localIP = (IP.addrFromSlice ip4).string
  remoteIP : ∃ ip4, cfg.remoteIP.to4 = some ip4 ∧
    s.remoteIP = (IP.addrFromSlice ip4).string
  key : s.key = cfg.key
  ttl : s.ttl = if cfg.ttl = 0 then 64 else cfg.ttl
  up : s.up = true
  encap : s.encap = if cfg.encap = .none then "" else encapTypeName cfg.encap
  encapSport : s.encapSport = if cfg.encap = .none then 0 else cfg.encapSport
  encapDport : s.encapDport = if cfg.encap = .none then 0 else cfg.encapDport
  mtu : s.mtu = if cfg.mtu = 0 ∧ cfg.encap ≠ .none then 1468 else cfg.mtu

theorem Status.Reports.withAddrs {s : Status} {cfg : Config} (h : s.Reports cfg)
    (addrs : Except NlError (List String)) : (s.withAddrs addrs).Reports cfg := by
  unfold Status.withAddrs
  split
  · exact ⟨h.name, h.localIP, h.remoteIP, h.key, h.ttl, h.up, h.encap, h.encapSport,
      h.encapDport, h.mtu⟩
  · exact h

theorem ipToString_of_validateIP {ip : IP} {field : String}
    (h : validateIP ip field = .ok ()) :
    ∃ ip4, ip.to4 = some ip4 ∧ ipToString ip = (IP.addrFromSlice ip4).string := by
  unfold validateIP at h
  split at h
  · cases h
  · rename_i hne
    cases hto4 : ip.to4 with
    | none =>
        simp only [hto4, if_true] at h
        split_ifs at h
    | some ip4 =>
        refine ⟨ip4, rfl, ?_⟩
        rw [ipToString, if_neg hne, IP.string, if_neg hne, hto4]

theorem encap_of_validateEncap {cfg : Config} (h : (validateEncap cfg).2 = .ok ()) :
    (cfg.encap = .none ∨ cfg.encap = .fou ∨ cfg.encap = .gue) ∧
      validateMTU cfg = .ok () := by
  unfold validateEncap at h
  cases hencap : cfg.encap with
  | none => exact ⟨.inl rfl, by simpa [hencap] using h⟩
  | fou =>
      simp only [hencap] at h
      split at h
      · cases h
      · exact ⟨.inr (.inl rfl), h⟩
  | gue =>
      simp only [hencap] at h
      split at h
      · cases h
      · exact ⟨.inr (.inr rfl), h⟩
  | other n => simp [hencap] at h

theorem mtuOrDefault_of_validateMTU {cfg : Config} (h : validateMTU cfg = .ok ()) :
    mtuOrDefault cfg = if cfg.mtu = 0 ∧ cfg.encap ≠ .none then 1468 else cfg.mtu := by
  unfold validateMTU at h
  split at h
  · cases h
  · rename_i hrange
    have hmtu : cfg.mtu = 0 ∨ 0 < cfg.mtu := by omega
    unfold mtuOrDefault
    rcases hmtu with hzero | hpos
    · simp [hzero, defaultFOUMTU]
    · rw [if_pos hpos, if_neg fun h => hpos.ne' h.1]

/-- The link of a valid configuration is reported as it was asked for. -/
theorem reports_builtLink {cfg : Config} (hvalid : validateConfig cfg = .ok ()) :
    (statusFromGretun (.gretun { gretunFor cfg with attrs := builtAttrs cfg })
      { gretunFor cfg with attrs := builtAttrs cfg }).Reports cfg := by
  have hchecked := checked_of_validateConfig hvalid
  obtain ⟨hencap, hmtu⟩ := encap_of_validateEncap hchecked.encap
  have hfields : (gretunFor cfg).localIP = cfg.localIP ∧
      (gretunFor cfg).remoteIP = cfg.remoteIP ∧ (gretunFor cfg).iKey = cfg.key ∧
      (gretunFor cfg).ttl = if cfg.ttl = 0 then defaultTTL else cfg.ttl := by
    unfold gretunFor applyEncap
    split <;> exact ⟨rfl, rfl, rfl, rfl⟩
  obtain ⟨hlocal, hremote, hkey, httl⟩ := hfields
  have hencapped : encapName (gretunFor cfg).encapType =
        (if cfg.encap = .none then "" else encapTypeName cfg.encap) ∧
      (gretunFor cfg).encapSport = (if cfg.encap = .none then 0 else cfg.encapSport) ∧
      (gretunFor cfg).encapDport = (if cfg.encap = .none then 0 else cfg.encapDport) := by
    unfold gretunFor applyEncap
    rcases hencap with h | h | h <;> simp only [h] <;> exact ⟨rfl, rfl, rfl⟩
  refine ⟨rfl, ?_, ?_, hkey, httl, rfl, hencapped.1, hencapped.2.1, hencapped.2.2,
    mtuOrDefault_of_validateMTU hmtu⟩
  · rw [statusFromGretun, hlocal]
    exact ipToString_of_validateIP hchecked.localIP
  · rw [statusFromGretun, hremote]
    exact ipToString_of_validateIP hchecked.remoteIP

section Made

variable {ok : NlCall → Fault → Prop} {cfg : Config} {k k' : Kernel}

theorem Made.wellNamed (h : Made ok cfg k (.ok ()) k') (hnamed : k.WellNamed) :
    k'.WellNamed := by
  intro n l hl
  rw [h.links rfl] at hl
  exact hnamed.insert (l := .gretun { gretunFor cfg with attrs := builtAttrs cfg })
    rfl n l hl

/-- The report of a link depends on its addresses only, and those stay. -/
theorem Made.report_eq (h : Made ok cfg k (.ok ()) k') : k'.report = k.report := by
  funext l
  cases l with
  | other attrs type => rfl
  | gretun gre => rw [Kernel.report, Kernel.report, h.addrs rfl]

theorem Made.get_eq (h : Made ok cfg k (.ok ()) k') :
    (exec (get none cfg.name) calm k').1 = .ok
      ((statusFromGretun (.gretun { gretunFor cfg with attrs := builtAttrs cfg })
        { gretunFor cfg with attrs := builtAttrs cfg }).withAddrs
          (.ok ((k'.addrs.lookup cfg.name).getD []))) := by
  rw [exec_get, h.lookup]
  rfl

end Made

/-- What `Create` builds is what `Get` and `List` report. When no call fails, a valid
configuration under a free name succeeds; `Get` then reports the tunnel as it was asked
for, and `List` has that report once. Under every other name `Get` answers as before, and
the entries of `List` are what `Get` reports, also as before. -/
theorem get_list_of_create (cfg : Config) (k : Kernel)
    (hvalid : validateConfig cfg = .ok ()) (hfree : cfg.name ∉ k.links)
    (hnamed : k.WellNamed) :
    (exec (create none cfg) calm k).1 = .ok () ∧
      ∃ before after, (exec (list none) calm k).1 = .ok before ∧
        (exec (list none) calm (exec (create none cfg) calm k).2).1 = .ok after ∧
        (∃ s, (exec (get none cfg.name) calm
            (exec (create none cfg) calm k).2).1 = .ok s ∧
          s.Reports cfg ∧ after.count s = 1) ∧
        ∀ name ≠ cfg.name,
          (exec (get none name) calm (exec (create none cfg) calm k).2).1 =
            (exec (get none name) calm k).1 ∧
          after.filter (·.name = name) = before.filter (·.name = name) ∧
          after.filter (·.name = name) =
            (exec (get none name) calm
              (exec (create none cfg) calm k).2).1.toOption.toList := by
  have hmade : Made NoFault cfg k (exec (create none cfg) calm k).1
      (exec (create none cfg) calm k).2 := made_exec cfg k fun _ _ => rfl
  have hok := hmade.succeeds (fun c e h => by cases h) hvalid hfree
  rw [hok] at hmade
  generalize (exec (create none cfg) calm k).2 = k' at hmade ⊢
  have hnamed' := hmade.wellNamed hnamed
  have hreport := hmade.report_eq
  have hget := hmade.get_eq
  refine ⟨hok, _, _, congrArg Prod.fst (exec_list k), congrArg Prod.fst (exec_list k'),
    ?_, fun name hname => ?_⟩
  · refine ⟨_, hget, (reports_builtLink hvalid).withAddrs _, ?_⟩
    have hfilter := filter_report hnamed' cfg.name
    rw [← toOption_get, hget] at hfilter
    rw [← List.count_filter (p := (·.name = cfg.name)), hfilter]
    · exact List.count_singleton_self
    · simp [withAddrs_name, statusFromGretun, Link.attrs, builtAttrs]
  · have hlookup : k'.links.lookup name = k.links.lookup name := by
      rw [hmade.links rfl]
      exact AList.lookup_insert_ne hname
    refine ⟨?_, ?_, ?_⟩
    · rw [exec_get, exec_get, hlookup, hreport]
    · rw [filter_report hnamed', filter_report hnamed, hlookup, hreport]
    · rw [filter_report hnamed', toOption_get]

def linkedKernel : Kernel :=
  { Kernel.empty with
    links := (∅ : AList fun _ : String => Link).insert "gre1"
      (.gretun
        { attrs := { name := "gre1", mtu := 1476, up := true }
          localIP := [10, 0, 0, 1]
          remoteIP := [10, 0, 0, 9]
          iKey := 7
          oKey := 7
          ttl := 64 }) }

/-- A tunnel next to another one: it is reported, and the other one as before. -/
theorem get_list_of_create_linked :
    (∃ s, (exec (get none "tun0") calm
        (exec (create none sampleConfig) calm linkedKernel).2).1 = .ok s ∧
      s.Reports sampleConfig) ∧
    (exec (get none "gre1") calm
        (exec (create none sampleConfig) calm linkedKernel).2).1 =
      (exec (get none "gre1") calm linkedKernel).1 := by
  obtain ⟨-, before, after, -, -, ⟨s, hs, hreports, -⟩, hother⟩ :=
    get_list_of_create sampleConfig linkedKernel (by decide +kernel) (by decide +kernel)
      (wellNamed_empty.insert rfl)
  exact ⟨⟨s, hs, hreports⟩, (hother "gre1" (by decide)).1⟩

end Tunnel

end Gretun
