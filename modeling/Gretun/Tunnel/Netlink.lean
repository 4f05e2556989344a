import Gretun.Foundation.Command
import Gretun.Tunnel.Config
import Mathlib.Data.List.AList

/-!
# The kernel behind netlink

`Kernel` is the part of the kernel the tunnel code talks to: the links by name,
the FOU receive ports by family and number, and the addresses of the links.
`NlCall` are the requests of the `Netlinker` interface and `Kernel.handle`
answers one of them. What the environment decides about a call is a `Fault`: an
error with which the call fails, in which case nothing changes. Without one the
call succeeds, except that a name or a port that is taken answers `EEXIST` and a
missing one `ENODEV` or `ENOENT`.
-/

namespace Gretun

namespace Tunnel

open Gretun.Net
open Foundation.Command

inductive Errno where
  | EPERM
  | ENOENT
  | EAGAIN
  | EACCES
  | EBUSY
  | EEXIST
  | ENODEV
  | EINVAL
  | EOPNOTSUPP
  | EADDRINUSE
  | ENETDOWN
  | ETIMEDOUT
  | other (n : ℕ)
  deriving DecidableEq

/-- An error of a netlink call: an error number, or an error of the library that
carries none. -/
inductive NlError where
  | errno (e : Errno)
  | other (text : String)
  deriving DecidableEq

structure LinkAttrs where
  name : String
  mtu : ℤ := 0
  up : Bool := false
  deriving DecidableEq

structure GretunLink where
  attrs : LinkAttrs
  localIP : IP
  remoteIP : IP
  iKey : BitVec 32
  oKey : BitVec 32
  ttl : BitVec 8
  encapType : BitVec 16 := 0
  encapFlags : BitVec 16 := 0
  encapSport : Port := 0
  encapDport : Port := 0
  deriving DecidableEq

inductive Link where
  | gretun (g : GretunLink)
  | other (attrs : LinkAttrs) (type : String)
  deriving DecidableEq

namespace Link

def attrs : Link → LinkAttrs
  | gretun g => g.attrs
  | other a _ => a

/-- `Type()`. For a tunnel without an IPv4 local address netlink says `ip6gre`; there are no
such tunnels here. -/
def type : Link → String
  | gretun _ => "gre"
  | other _ t => t

def withAttrs : Link → LinkAttrs → Link
  | gretun g, a => gretun { g with attrs := a }
  | other _ t, a => other a t

end Link

structure Fou where
  family : ℕ
  port : Port
  protocol : ℕ := 0
  encapType : ℕ := 0
  deriving DecidableEq

/-- The kernel identifies a receive port by its family and number. -/
def Fou.key (f : Fou) : ℕ × Port := (f.family, f.port)

structure Kernel where
  links : AList fun _ : String => Link
  fous : AList fun _ : ℕ × Port => Fou
  addrs : AList fun _ : String => List String

/-- The requests the tunnel code makes. A link is addressed by its name. -/
inductive NlCall where
  | linkAdd (link : Link)
  | linkDel (link : Link)
  | linkByName (name : String)
  | linkSetUp (link : Link)
  | linkSetMTU (link : Link) (mtu : ℤ)
  | linkList
  | addrAdd (link : Link) (addr : String)
  | addrList (link : Link)
  | fouAdd (fou : Fou)
  | fouDel (fou : Fou)
  deriving DecidableEq

@[reducible] def NlCall.Resp : NlCall → Type
  | linkByName _ => Except NlError Link
  | linkList => Except NlError (List Link)
  | addrList _ => Except NlError (List String)
  | _ => Except NlError Unit

abbrev Netlink := Prog NlCall NlCall.Resp

/-- What the environment decides about one call: the error it fails with, or
nothing. -/
abbrev Fault := Option NlError

namespace Kernel

def empty : Kernel := ⟨∅, ∅, ∅⟩

def setAttrs (k : Kernel) (name : String) (f : LinkAttrs → LinkAttrs) :
    Except NlError Unit × Kernel :=
  match k.links.lookup name with
  | some l =>
      (.ok (), { k with links := k.links.insert name (l.withAttrs (f l.attrs)) })
  | none => (.error (.errno .ENODEV), k)

def linkAdd (k : Kernel) (l : Link) : Except NlError Unit × Kernel :=
  if l.attrs.name ∈ k.links then (.error (.errno .EEXIST), k)
  else (.ok (), { k with links := k.links.insert l.attrs.name l })

def linkDel (k : Kernel) (l : Link) : Except NlError Unit × Kernel :=
  if l.attrs.name ∈ k.links then
    (.ok (), { k with links := k.links.erase l.attrs.name
                      addrs := k.addrs.erase l.attrs.name })
  else (.error (.errno .ENODEV), k)

def fouAdd (k : Kernel) (f : Fou) : Except NlError Unit × Kernel :=
  if f.key ∈ k.fous then (.error (.errno .EEXIST), k)
  else (.ok (), { k with fous := k.fous.insert f.key f })

def fouDel (k : Kernel) (f : Fou) : Except NlError Unit × Kernel :=
  if f.key ∈ k.fous then (.ok (), { k with fous := k.fous.erase f.key })
  else (.error (.errno .ENOENT), k)

def addrAdd (k : Kernel) (l : Link) (addr : String) :
    Except NlError Unit × Kernel :=
  if l.attrs.name ∈ k.links then
    (.ok (), { k with addrs := k.addrs.insert l.attrs.name
                        ((k.addrs.lookup l.attrs.name).getD [] ++ [addr]) })
  else (.error (.errno .ENODEV), k)

def perform : (c : NlCall) → Kernel → c.Resp × Kernel
  | .linkAdd l, k => k.linkAdd l
  | .linkDel l, k => k.linkDel l
  | .linkByName n, k =>
      ((match k.links.lookup n with
        | some l => .ok l
        | none => .error (.other "Link not found")), k)
  | .linkSetUp l, k => k.setAttrs l.attrs.name fun a => { a with up := true }
  | .linkSetMTU l mtu, k => k.setAttrs l.attrs.name fun a => { a with mtu := mtu }
  | .linkList, k => (.ok (k.links.entries.map Sigma.snd), k)
  | .addrAdd l a, k => k.addrAdd l a
  | .addrList l, k => (.ok ((k.addrs.lookup l.attrs.name).getD []), k)
  | .fouAdd f, k => k.fouAdd f
  | .fouDel f, k => k.fouDel f

def failResp (e : NlError) : (c : NlCall) → c.Resp
  | .linkAdd _ => .error e
  | .linkDel _ => .error e
  | .linkByName _ => .error e
  | .linkSetUp _ => .error e
  | .linkSetMTU _ _ => .error e
  | .linkList => .error e
  | .addrAdd _ _ => .error e
  | .addrList _ => .error e
  | .fouAdd _ => .error e
  | .fouDel _ => .error e

/-- The kernel's answer to a call: a failing call has no effect. -/
def handle (f : Fault) (c : NlCall) (k : Kernel) : c.Resp × Kernel :=
  match f with
  | some e => (failResp e c, k)
  | none => perform c k

@[simp] theorem handle_some (e : NlError) (c : NlCall) (k : Kernel) :
    handle (some e) c k = (failResp e c, k) := rfl

@[simp] theorem handle_none (c : NlCall) (k : Kernel) :
    handle none c k = perform c k := rfl

end Kernel

def request (c : NlCall) : Netlink c.Resp := Prog.perform c

/-- Run a netlink program against the kernel. `ω n c` decides about the call `c`
when it is the `n`-th of the program. -/
def exec {α : Type} (m : Netlink α) (ω : ℕ → NlCall → Fault) (k : Kernel) :
    α × Kernel :=
  m.run Kernel.handle ω k

end Tunnel

end Gretun
