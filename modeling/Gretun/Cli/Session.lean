import Gretun.Cli.Commands
import Gretun.Foundation.Run
import Gretun.Tunnel.PortMode
import Gretun.Tunnel.Untouched

/-!
# Sessions of commands

A session is a list of commands, each with what the environment decides about its
requests. The kernel as a host of links, ports and addresses goes through the session as
`Host.after` says, one command after the other: the results that the administrator has
seen determine it. What a command does to other links does not depend on that: even when
a roll back fails, the links that a session has not deleted by name are as they were, and
so are all that are no GRE tunnels.
-/

namespace Gretun

namespace Cli

open Gretun.Net
open Gretun.Tunnel
open Foundation.Command
open Foundation.Assoc
open Foundation.Run

def host (k : Kernel) : Host where
  link n := k.links.lookup n
  port key := k.fous.lookup key
  addrs n := (k.addrs.lookup n).getD []

/-- What may fail while a command runs: anything, except that a `create` can undo what it
has done and that a receive port is reported as open only if it is. -/
def Command.Allows : Command → NlCall → Fault → Prop
  | .create _, c, f => RollbackSucceeds c f ∧ ExactFouAdd c f
  | _, _, _ => True

variable {k k' : Kernel}

theorem host_eq_of_sameAt (hsame : ∀ n, Kernel.SameAt n k k') (hfous : k'.fous = k.fous) :
    host k' = host k := by
  refine Host.ext (funext fun n => (hsame n).1) ?_ (funext fun n => ?_)
  · simp only [host, hfous]
  · simp only [host, (hsame n).2]

theorem lookup_portsFor (cfg : Config) (k : Kernel) :
    (fun key => (k.portsFor cfg).lookup key) = ((host k).created cfg).port := by
  unfold Kernel.portsFor Host.created
  by_cases hencap : cfg.encap = .none
  · simp only [hencap, if_true]
    rfl
  · simp only [hencap, if_false]
    funext key
    by_cases hkey : key = (afInet, cfg.encapDport)
    · subst hkey
      rw [Function.update_self]
      exact lookup_fouAdd k (fouFor cfg.encapDport cfg.encap)
    · rw [Function.update_of_ne hkey, Kernel.fouAdd]
      split
      · rfl
      · exact AList.lookup_insert_ne hkey

theorem host_of_made {ok : NlCall → Fault → Prop} {cfg : Config}
    (h : Made ok cfg k (.ok ()) k')
    (hexact : ∀ fou, ¬ ok (.fouAdd fou) (some (.errno .EEXIST))) :
    host k' = (host k).created cfg := by
  refine Host.ext ?_ ?_ ?_
  · change (fun n => k'.links.lookup n) = _
    rw [h.links rfl]
    exact lookup_insert_eq_update _ _ _
  · change (fun key => k'.fous.lookup key) = _
    rw [h.fous rfl hexact, lookup_portsFor]
  · change (fun n => (k'.addrs.lookup n).getD []) = _
    rw [h.addrs rfl]
    rfl

theorem host_linkDel (hk : k.Tidy) {name : String} {l : Link}
    (hl : k.links.lookup name = some l) :
    host (k.linkDel l).2 = (host k).deleted name := by
  have hname : l.attrs.name = name := hk.named name l hl
  have hmem : name ∈ k.links := AList.lookup_isSome.1 (by rw [hl]; rfl)
  rw [Kernel.linkDel, hname, if_pos hmem]
  refine Host.ext (lookup_erase_eq_update _ _) rfl (funext fun n => ?_)
  change ((k.addrs.erase name).lookup n).getD [] = Function.update (host k).addrs name [] n
  by_cases hn : n = name
  · rw [hn, AList.lookup_erase, Function.update_self]
    rfl
  · rw [AList.lookup_erase_ne hn, Function.update_of_ne hn]
    rfl

theorem host_addrAdd (hk : k.Tidy) {name : String} {l : Link}
    (hl : k.links.lookup name = some l) (addr : String) :
    host (k.addrAdd l addr).2 = (host k).assigned name addr := by
  have hname : l.attrs.name = name := hk.named name l hl
  have hmem : name ∈ k.links := AList.lookup_isSome.1 (by rw [hl]; rfl)
  rw [Kernel.addrAdd, hname, if_pos hmem]
  refine Host.ext rfl rfl (funext fun n => ?_)
  change ((k.addrs.insert name _).lookup n).getD [] =
    Function.update (host k).addrs name _ n
  by_cases hn : n = name
  · rw [hn, AList.lookup_insert, Function.update_self]
    rfl
  · rw [AList.lookup_insert_ne hn, Function.update_of_ne hn]
    rfl

def CreateDone (cfg : Config) (k : Kernel) (r : Except TunnelErr Unit) (k' : Kernel) :
    Prop :=
  match r with
  | .ok _ => validateConfig cfg = .ok () ∧ (host k).link cfg.name = none ∧
      host k' = (host k).created cfg
  | .error _ => host k' = host k

theorem wp_create_done (hk : k.Tidy) (flags : CreateFlags) (cfg : Config) :
    Prog.wp Kernel.handle (Command.create flags).Allows (create none cfg)
      (fun r k' => CreateDone cfg k r k' ∧ k'.Tidy) k := by
  have hrestores : Prog.wp Kernel.handle (Command.create flags).Allows (create none cfg)
      (ErrorRestores k) k := Prog.wp_of_imp (fun _ _ h => h.1) (wp_create k none cfg)
  have hsame : Prog.wp Kernel.handle (Command.create flags).Allows (create none cfg)
      (fun _ k' => ∀ n : { n // n ≠ cfg.name ∨ n ∈ k.links }, Kernel.SameAt n k k') k :=
    Prog.wp_forall fun n => wp_create_sameAt none cfg k n.2
  have htidy : Prog.wp Kernel.handle (Command.create flags).Allows (create none cfg)
      (fun _ => Kernel.Tidy) k :=
    Prog.wp_invariant (fun f c _ h => Kernel.Tidy.handle h f c) (create none cfg) hk
  refine Prog.wp_mono ?_ (Prog.wp_and (Prog.wp_and (wp_create_made cfg k) hrestores)
    (Prog.wp_and hsame htidy))
  rintro r k' ⟨⟨hmade, hrestores⟩, hsame, htidy⟩
  refine ⟨?_, htidy⟩
  cases r with
  | ok u =>
      refine ⟨hmade.valid rfl, AList.lookup_eq_none.2 (hmade.free rfl), ?_⟩
      exact host_of_made hmade fun fou h => h.2 rfl
  | error e =>
      obtain ⟨hlinks, hfous⟩ := hrestores e rfl
      refine host_eq_of_sameAt (fun n => ?_) hfous
      by_cases hn : n ≠ cfg.name ∨ n ∈ k.links
      · exact hsame ⟨n, hn⟩
      · have hfree : k.links.lookup n = none :=
          AList.lookup_eq_none.2 (not_or.1 hn).2
        refine ⟨by rw [hlinks], ?_⟩
        rw [hk.addrs_eq_none hfree, htidy.addrs_eq_none (by rw [hlinks, hfree])]

theorem permits_createConfig (parse : Parsers) {flags : CreateFlags} {e : CommandErr}
    (he : createConfig flags = .error e) (h : Host) :
    h.Permits (.create flags, .error e) ∧ h.after parse (.create flags, .error e) = h := by
  have hno : ∀ err, e ≠ .tunnel err ∧ e ≠ .assign err := by
    intro err
    unfold createConfig parseEncap at he
    constructor <;> rintro rfl <;> split at he <;> simp at he <;> grind
  cases e with
  | tunnel err => exact absurd rfl (hno err).1
  | assign err => exact absurd rfl (hno err).2
  | invalidLocal text => exact ⟨he, rfl⟩
  | invalidRemote text => exact ⟨he, rfl⟩
  | unknownEncap text => exact ⟨he, rfl⟩
  | encap err => exact ⟨he, rfl⟩

theorem createConfig_name {flags : CreateFlags} {cfg : Config}
    (h : createConfig flags = .ok cfg) : cfg.name = flags.name := by
  unfold createConfig at h
  split at h
  · cases h
  · cases h
  · cases h
  · simp only at h
    split at h
    · cases h
    · rw [← Except.ok.inj h]

/-- The result of a command is one that the host permits, and says what the host is
afterwards. -/
structure Refines (parse : Parsers) (cmd : Command) (k : Kernel) (r : Result)
    (k' : Kernel) : Prop where
  permits : (host k).Permits (cmd, r)
  after : host k' = (host k).after parse (cmd, r)

theorem wp_runCreate (parse : Parsers) (hk : k.Tidy) (flags : CreateFlags) :
    Prog.wp Kernel.handle (Command.create flags).Allows
      ((Command.create flags).run parse) (Refines parse (.create flags) k) k := by
  rw [Command.run, Prog.wp_bind, runCreate]
  cases hcfg : createConfig flags with
  | error e =>
      obtain ⟨hpermits, hafter⟩ := permits_createConfig parse hcfg (host k)
      exact ⟨hpermits, hafter.symm⟩
  | ok cfg =>
      simp only
      rw [Prog.wp_bind]
      refine Prog.wp_mono ?_ (wp_create_done hk flags cfg)
      rintro r k₁ ⟨hdone, htidy⟩
      cases r with
      | error e => exact ⟨⟨cfg, hcfg⟩, hdone⟩
      | ok u =>
          obtain ⟨hvalid, hfree, hcreated⟩ := hdone
          simp only
          split
          · rename_i hempty
            refine ⟨⟨cfg, hcfg, hvalid, hfree⟩, ?_⟩
            rw [hcreated, Host.after, Host.afterCreate, hcfg]
            simp only [hempty, if_true]
            split <;> simp_all
          · rename_i hset
            rw [Prog.wp_bind]
            refine Prog.wp_mono ?_ (wp_assignIP parse none flags.name flags.tunnelIP k₁)
            rintro r k₂ ⟨hassigned, hsame⟩
            cases r with
            | error e =>
                refine ⟨⟨cfg, hcfg, hvalid, hfree, hset⟩, ?_⟩
                rw [hsame e rfl, hcreated, Host.after, Host.afterCreate, hcfg]
            | ok u =>
                obtain ⟨l, addr, hl, haddr, rfl⟩ := hassigned rfl
                refine ⟨⟨cfg, hcfg, hvalid, hfree⟩, ?_⟩
                rw [host_addrAdd htidy hl, hcreated, Host.after, Host.afterCreate, hcfg,
                  haddr]
                simp only [if_neg hset]

theorem wp_runDelete (parse : Parsers) (hk : k.Tidy) (name : String) :
    Prog.wp Kernel.handle (Command.delete name).Allows ((Command.delete name).run parse)
      (Refines parse (.delete name) k) k := by
  rw [Command.run, Prog.wp_bind, runDelete, Prog.wp_bind]
  refine Prog.wp_mono ?_ (wp_delete none name k)
  rintro r k' ⟨hdeleted, hsame⟩
  cases r with
  | error e => exact ⟨trivial, by rw [hsame e rfl]; rfl⟩
  | ok u =>
      obtain ⟨l, hl, htype, rfl⟩ := hdeleted rfl
      exact ⟨⟨l, hl, htype⟩, host_linkDel hk hl⟩

theorem reports_addrList (hk : k.Tidy) {name : String} {g : GretunLink}
    (hg : k.links.lookup name = some (.gretun g)) (f : Fault) :
    (Kernel.handle f (.addrList (.gretun g)) k).2 = k ∧
      (host k).Reports name ((statusFromGretun (.gretun g) g).withAddrs
        (Kernel.handle f (.addrList (.gretun g)) k).1) := by
  cases f with
  | some e => exact ⟨rfl, g, hg, Or.inl rfl⟩
  | none =>
      refine ⟨rfl, g, hg, Or.inr ?_⟩
      have hname : g.attrs.name = name := hk.named name _ hg
      rw [Kernel.handle_none, Kernel.perform, Link.attrs, hname]
      rfl

theorem wp_runStatus (parse : Parsers) (hk : k.Tidy) (name : String) :
    Prog.wp Kernel.handle (Command.status name).Allows ((Command.status name).run parse)
      (Refines parse (.status name) k) k := by
  rw [Command.run, runStatus, Prog.wp_bind, Tunnel.get]
  simp only [request]
  rw [Prog.perform_bind, Prog.wp_call]
  rintro (- | e) -
  · rw [Kernel.handle_none, Kernel.perform]
    cases hl : k.links.lookup name with
    | none => exact ⟨trivial, rfl⟩
    | some l =>
        cases l with
        | other attrs type => exact ⟨trivial, rfl⟩
        | gretun g =>
            simp only
            rw [Prog.perform_bind, Prog.wp_call]
            intro f _
            obtain ⟨hsame, hreports⟩ := reports_addrList hk hl f
            rw [hsame]
            exact ⟨hreports, rfl⟩
  · exact ⟨trivial, rfl⟩

def tunnelsOf (links : List Link) : List GretunLink :=
  links.filterMap fun
    | .gretun g => some g
    | .other _ _ => none

theorem mem_tunnelsOf {links : List Link} {g : GretunLink} :
    g ∈ tunnelsOf links ↔ Link.gretun g ∈ links := by
  rw [tunnelsOf, List.mem_filterMap]
  constructor
  · rintro ⟨l, hl, hg⟩
    cases l with
    | other attrs type => cases hg
    | gretun g' => rwa [← Option.some.inj hg]
  · exact fun hg => ⟨_, hg, rfl⟩

theorem wp_listLinks {ok : NlCall → Fault → Prop} (hk : k.Tidy) (links : List Link)
    (hlinks : ∀ l ∈ links, k.links.lookup l.attrs.name = some l) :
    Prog.wp Kernel.handle ok (listLinks links)
      (fun ts k' => k' = k ∧ ts.map (·.name) = (tunnelsOf links).map (·.attrs.name) ∧
        ∀ s ∈ ts, (host k).Reports s.name s) k := by
  induction links with
  | nil => exact ⟨rfl, rfl, by simp⟩
  | cons l links ih =>
      have ih := ih fun l' hl' => hlinks l' (List.mem_cons_of_mem l hl')
      cases l with
      | other attrs type =>
          rw [listLinks]
          split <;> exact ih
      | gretun g =>
          rw [listLinks, if_neg (by simp [Link.type])]
          simp only [request]
          rw [Prog.perform_bind, Prog.wp_call]
          intro f _
          obtain ⟨hsame, hreports⟩ :=
            reports_addrList hk (hlinks _ List.mem_cons_self) f
          rw [hsame, Prog.wp_bind]
          refine Prog.wp_mono ?_ ih
          rintro ts k' ⟨rfl, hnames, hall⟩
          have hname : ((statusFromGretun (.gretun g) g).withAddrs
              (Kernel.handle f (.addrList (.gretun g)) k').1).name = g.attrs.name :=
            withAddrs_name _ _
          refine ⟨rfl, ?_, ?_⟩
          · rw [List.map_cons, hnames, hname]
            rfl
          · rintro s (- | ⟨-, hs⟩)
            · rw [hname]
              exact hreports
            · exact hall s hs

theorem lookup_of_mem_values (hk : k.Tidy) {l : Link} (hl : l ∈ values k.links) :
    k.links.lookup l.attrs.name = some l := by
  obtain ⟨name, hname⟩ := mem_values.1 hl
  rwa [hk.named name l hname]

theorem nodup_names (hk : k.Tidy) :
    ((tunnelsOf (values k.links)).map (·.attrs.name)).Nodup := by
  have hpairwise : (values k.links).Pairwise fun l l' => l.attrs.name ≠ l'.attrs.name := by
    refine pairwise_values fun a a' l l' hl hl' hne => ?_
    rwa [hk.named a l hl, hk.named a' l' hl']
  rw [List.Nodup, List.pairwise_map]
  refine List.Pairwise.filterMap _ ?_ hpairwise
  intro l l' hne g hg g' hg'
  cases l with
  | other attrs type => cases hg
  | gretun _ =>
      cases l' with
      | other attrs type => cases hg'
      | gretun _ =>
          cases hg
          cases hg'
          exact hne

theorem wp_list {ok : NlCall → Fault → Prop} (hk : k.Tidy) :
    Prog.wp Kernel.handle ok (Tunnel.list none)
      (fun r k' => k' = k ∧ ∀ ts, r = .ok ts → (host k).Lists ts) k := by
  rw [Tunnel.list]
  simp only [request]
  rw [Prog.perform_bind, Prog.wp_call]
  rintro (- | e) -
  · simp only [Kernel.handle_none, Kernel.perform]
    rw [Prog.wp_bind]
    refine Prog.wp_mono ?_ (wp_listLinks hk (values k.links)
      fun l hl => lookup_of_mem_values hk hl)
    rintro ts k' ⟨rfl, hnames, hall⟩
    refine ⟨rfl, fun _ hts => ?_⟩
    obtain rfl := Except.ok.inj hts
    refine ⟨by rw [hnames]; exact nodup_names hk, hall, fun name g hg => ?_⟩
    have hmem : g.attrs.name ∈ ts.map (·.name) := by
      rw [hnames]
      exact List.mem_map_of_mem (mem_tunnelsOf.2 (mem_values.2 ⟨name, hg⟩))
    obtain ⟨s, hs, hname⟩ := List.mem_map.1 hmem
    exact ⟨s, hs, hname.trans (hk.named name _ hg)⟩
  · exact ⟨rfl, fun _ hts => (by cases hts)⟩

theorem wp_runList (parse : Parsers) (hk : k.Tidy) :
    Prog.wp Kernel.handle Command.list.Allows (Command.list.run parse)
      (Refines parse .list k) k := by
  rw [Command.run, runList, Prog.wp_bind]
  refine Prog.wp_mono ?_ (wp_list hk)
  rintro r k' ⟨rfl, hlists⟩
  cases r with
  | error e => exact ⟨trivial, rfl⟩
  | ok ts => exact ⟨hlists ts rfl, rfl⟩

theorem wp_run (parse : Parsers) (hk : k.Tidy) (cmd : Command) :
    Prog.wp Kernel.handle cmd.Allows (cmd.run parse) (Refines parse cmd k) k := by
  cases cmd with
  | create flags => exact wp_runCreate parse hk flags
  | delete name => exact wp_runDelete parse hk name
  | status name => exact wp_runStatus parse hk name
  | list => exact wp_runList parse hk

/-! ## Runs -/

/-- A command and what the environment decides about its requests. -/
structure Invocation where
  command : Command
  faults : ℕ → NlCall → Fault

namespace Invocation

def Allowed (i : Invocation) : Prop := ∀ n c, i.command.Allows c (i.faults n c)

def result (parse : Parsers) (k : Kernel) (i : Invocation) : Result :=
  (exec (i.command.run parse) i.faults k).1

def step (parse : Parsers) (k : Kernel) (i : Invocation) : Kernel :=
  (exec (i.command.run parse) i.faults k).2

end Invocation

def transcript (parse : Parsers) (k : Kernel) (is : List Invocation) :
    List (Command × Result) :=
  outputs (Invocation.step parse) (fun k i => some (i.command, i.result parse k)) k is

theorem tidy_step (parse : Parsers) (hk : k.Tidy) (i : Invocation) :
    (i.step parse k).Tidy := by
  have hwp : Prog.wp Kernel.handle AnyFault (i.command.run parse) (fun _ => Kernel.Tidy) k :=
    Prog.wp_invariant (fun f c _ h => Kernel.Tidy.handle h f c) _ hk
  exact Prog.run_of_wp (fun _ _ => trivial) hwp

/-- The results of a session say what has become of the host. Whatever requests fail, as
long as each `create` can undo what it has done and receive ports are reported as open
only when they are, the host goes from command to command as the results say, and every
result is one the host permits at that point. -/
theorem host_follows_transcript (parse : Parsers) {k : Kernel} (hk : k.Tidy)
    (is : List Invocation) (his : ∀ i ∈ is, i.Allowed) :
    (host k).Follows parse (transcript parse k is)
      (host (is.foldl (Invocation.step parse) k)) := by
  induction is generalizing k with
  | nil => rfl
  | cons i is ih =>
      have hrefines : Refines parse i.command k (i.result parse k) (i.step parse k) :=
        Prog.run_of_wp (his i List.mem_cons_self) (wp_run parse hk i.command)
      refine ⟨hrefines.permits, ?_⟩
      rw [← hrefines.after]
      exact ih (tidy_step parse hk i) fun j hj => his j (List.mem_cons_of_mem i hj)

def withLink (k : Kernel) (l : Link) : Kernel :=
  { k with links := k.links.insert l.attrs.name l }

theorem tidy_empty : Kernel.empty.Tidy :=
  ⟨wellNamed_empty, fun n hn => absurd hn (AList.notMem_empty n)⟩

theorem tidy_withLink {k : Kernel} (hk : k.Tidy) (l : Link) : (withLink k l).Tidy := by
  refine ⟨fun n l' hl => ?_, fun n hn => (AList.mem_insert _).2 (Or.inr (hk.housed n hn))⟩
  rcases lookup_insert_cases hl with ⟨rfl, rfl⟩ | ⟨-, hold⟩
  · rfl
  · exact hk.named n l' hold

def deviceKernel : Kernel :=
  withLink Kernel.empty (.other { name := "eth0", up := true } "device")

def sampleParsers : Parsers where
  cidr := parseCIDR parseIPv6
  nlAddr := .ok

def sampleFlags : CreateFlags where
  name := "tun0"
  localIP := "10.0.0.1"
  remoteIP := "10.0.0.2"
  tunnelIP := "192.168.1.1/30"
  encap := "fou"
  encapDport := 7777

/-- A tunnel cannot be created at first, then it is, and in the end it is deleted. -/
def sampleSession : List Invocation :=
  [⟨.create sampleFlags, mtuRefused⟩, ⟨.create sampleFlags, calm⟩, ⟨.list, calm⟩,
    ⟨.delete "eth0", calm⟩, ⟨.delete "tun0", calm⟩]

theorem allowed_sampleSession : ∀ i ∈ sampleSession, i.Allowed := by
  simp only [sampleSession, List.mem_cons, List.not_mem_nil, or_false]
  rintro i (rfl | rfl | rfl | rfl | rfl) n c
  · cases c <;> exact ⟨by trivial, by simp [ExactFouAdd, mtuRefused]⟩
  · cases c <;> exact ⟨by trivial, by simp [ExactFouAdd, calm]⟩
  · trivial
  · trivial
  · trivial

theorem host_follows_sampleSession :
    (transcript sampleParsers deviceKernel sampleSession).map (·.2.isOk) =
        [false, true, true, false, true] ∧
      (host deviceKernel).Follows sampleParsers
        (transcript sampleParsers deviceKernel sampleSession)
        (host (sampleSession.foldl (Invocation.step sampleParsers) deviceKernel)) :=
  ⟨by decide +kernel, host_follows_transcript sampleParsers (tidy_withLink tidy_empty _)
    sampleSession allowed_sampleSession⟩

/-! ## Other links -/

/-- The commands leave a link alone that is no GRE tunnel, and a tunnel that they are not
asked to delete. -/
def Spares (cmd : Command) (n : String) (l : Link) : Prop :=
  l.type ≠ "gre" ∨ ∀ name, cmd = .delete name → name ≠ n

theorem wp_runCreate_sameAt {ok : NlCall → Fault → Prop} (parse : Parsers) (hk : k.Tidy)
    (flags : CreateFlags) {n : String} (hn : n ∈ k.links) :
    Prog.wp Kernel.handle ok (runCreate parse flags)
      (fun _ k' => Kernel.SameAt n k k') k := by
  rw [runCreate]
  cases hcfg : createConfig flags with
  | error e => exact Kernel.SameAt.refl n k
  | ok cfg =>
      simp only
      rw [Prog.wp_bind]
      have htidy : Prog.wp Kernel.handle ok (create none cfg) (fun _ => Kernel.Tidy) k :=
        Prog.wp_invariant (fun f c _ h => Kernel.Tidy.handle h f c) _ hk
      refine Prog.wp_mono ?_ (Prog.wp_and (Prog.wp_and (wp_create_made cfg k) htidy)
        (wp_create_sameAt none cfg k (Or.inr hn)))
      rintro r k₁ ⟨⟨hmade, htidy⟩, hsame⟩
      cases r with
      | error e => exact hsame
      | ok u =>
          simp only
          split
          · exact hsame
          · rw [Prog.wp_bind]
            refine Prog.wp_mono ?_ (wp_assignIP parse none flags.name flags.tunnelIP k₁)
            rintro r k₂ ⟨hassigned, hnothing⟩
            cases r with
            | error e =>
                rw [hnothing e rfl]
                exact hsame
            | ok u =>
                obtain ⟨l, addr, hl, -, rfl⟩ := hassigned rfl
                -- the address goes to the new link, and that name was free
                have hne : l.attrs.name ≠ n := by
                  rw [htidy.named _ l hl, ← createConfig_name hcfg]
                  rintro rfl
                  exact hmade.free rfl hn
                exact hsame.trans (Kernel.sameAt_handle (c := .addrAdd l addr)
                  (fun h => hne (Option.some.inj h)) none k₁)

theorem allCalls_runStatus {P : NlCall → Prop} (name : String) (hlink : P (.linkByName name))
    (haddrs : ∀ l, P (.addrList l)) : Prog.AllCalls P (runStatus name) := by
  refine Prog.AllCalls.bind ⟨hlink, fun r => ?_⟩ fun r => ?_
  · cases r with
    | error e => exact trivial
    | ok l =>
        cases l with
        | other attrs type => exact trivial
        | gretun g => exact ⟨haddrs _, fun _ => trivial⟩
  · cases r <;> exact trivial

theorem allCalls_runList {P : NlCall → Prop} (hlinks : P .linkList)
    (haddrs : ∀ l, P (.addrList l)) : Prog.AllCalls P runList := by
  have hloop : ∀ links, Prog.AllCalls P (listLinks links) := by
    intro links
    induction links with
    | nil => exact trivial
    | cons l links ih =>
        unfold listLinks
        split
        · exact ih
        · cases l with
          | other attrs type => exact ih
          | gretun g => exact ⟨haddrs _, fun _ => ih.bind fun _ => trivial⟩
  refine Prog.AllCalls.bind ⟨hlinks, fun r => ?_⟩ fun r => ?_
  · cases r with
    | error e => exact trivial
    | ok links => exact (hloop links).bind fun _ => trivial
  · cases r <;> exact trivial

theorem wp_run_sameAt {ok : NlCall → Fault → Prop} (parse : Parsers) (hk : k.Tidy)
    (cmd : Command) {n : String} {l : Link} (hl : k.links.lookup n = some l)
    (hspares : Spares cmd n l) :
    Prog.wp Kernel.handle ok (cmd.run parse) (fun _ k' => Kernel.SameAt n k k') k := by
  cases cmd with
  | create flags =>
      rw [Command.run, Prog.wp_bind]
      refine Prog.wp_mono ?_ (wp_runCreate_sameAt parse hk flags
        (AList.lookup_isSome.1 (by rw [hl]; rfl)))
      intro r k' hsame
      cases r <;> exact hsame
  | delete name =>
      rw [Command.run, Prog.wp_bind, runDelete, Prog.wp_bind]
      refine Prog.wp_mono ?_ (wp_delete none name k)
      rintro r k' ⟨hdeleted, hnothing⟩
      cases r with
      | error e =>
          rw [hnothing e rfl]
          exact Kernel.SameAt.refl n k
      | ok u =>
          obtain ⟨l', hl', htype, rfl⟩ := hdeleted rfl
          have hne : l'.attrs.name ≠ n := by
            rw [hk.named _ l' hl']
            rintro rfl
            obtain rfl := Option.some.inj (hl.symm.trans hl')
            exact hspares.elim (· htype) fun h => h _ rfl rfl
          exact Kernel.sameAt_handle (c := .linkDel l')
            (fun h => hne (Option.some.inj h)) none k
  | status name =>
      exact wp_sameAt (allCalls_runStatus name (by simp [NlCall.target])
        (by simp [NlCall.target])) k k (Kernel.SameAt.refl n k)
  | list =>
      exact wp_sameAt (allCalls_runList (by simp [NlCall.target])
        (by simp [NlCall.target])) k k (Kernel.SameAt.refl n k)

/-- A session leaves other links alone. Whatever requests fail, those that undo a failed
`create` included, a link that is no GRE tunnel, and a tunnel that is not deleted by its
name, are there at the end as they were, with their addresses. -/
theorem links_kept_in_session (parse : Parsers) {k : Kernel} (hk : k.Tidy)
    (is : List Invocation) {n : String} {l : Link} (hl : k.links.lookup n = some l)
    (his : ∀ i ∈ is, Spares i.command n l) :
    Kernel.SameAt n k (is.foldl (Invocation.step parse) k) := by
  induction is generalizing k with
  | nil => exact Kernel.SameAt.refl n k
  | cons i is ih =>
      have hwp : Prog.wp Kernel.handle AnyFault (i.command.run parse)
          (fun _ k' => Kernel.SameAt n k k') k :=
        wp_run_sameAt parse hk i.command hl (his i List.mem_cons_self)
      have hsame : Kernel.SameAt n k (i.step parse k) :=
        Prog.run_of_wp (fun _ _ => trivial) hwp
      refine hsame.trans (ih (tidy_step parse hk i) ?_ fun j hj =>
        his j (List.mem_cons_of_mem i hj))
      rw [hsame.1, hl]

theorem device_kept_in_sampleSession :
    Kernel.SameAt "eth0" deviceKernel
      (sampleSession.foldl (Invocation.step sampleParsers) deviceKernel) :=
  links_kept_in_session sampleParsers (tidy_withLink tidy_empty _) sampleSession
    (AList.lookup_insert _) fun _ _ => Or.inl (by decide)

end Cli

end Gretun
