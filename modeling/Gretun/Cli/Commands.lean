import Gretun.Net.ParseIPv6
import Gretun.Tunnel.Cidr
import Gretun.Tunnel.Created
import Gretun.Tunnel.Status

/-!
# The commands that manage tunnels

The commands `create`, `delete`, `status` and `list` as programs of netlink requests,
and what they are for: `Host` is a host as an administrator sees it, and `Host.after`
says what a command that came back with a certain result has done to it. The result
alone decides that. A `create` that reports any error except that of the address has
done nothing, whatever requests it had made before; a receive port that a `create` opened
stays open when its tunnel is deleted. `Host.Permits` says which results a command can
come back with.
-/

namespace Gretun

namespace Cli

open Gretun.Net
open Gretun.Tunnel
open Foundation.Command
open Foundation.Assoc

def parseIP (s : String) : Option IP :=
  match parseAddr parseIPv6 s.toList with
  | some ip => if ip.zone = "" then some (as16 ip) else none
  | none => none

structure CreateFlags where
  name : String
  localIP : String
  remoteIP : String
  key : BitVec 32 := 0
  ttl : BitVec 8 := 64
  tunnelIP : String := ""
  encap : String := "none"
  encapSport : Port := 0
  encapDport : Port := 0
  encapCSum : Bool := true
  mtu : ℤ := 0

/-- The errors of the commands. `assign` is the one that says that the tunnel was created
but failed to get its address. -/
inductive CommandErr where
  | invalidLocal (text : String)
  | invalidRemote (text : String)
  | unknownEncap (text : String)
  | encap (err : ConfigError)
  | tunnel (err : TunnelErr)
  | assign (err : TunnelErr)
  deriving DecidableEq

def parseEncap (s : String) : Except CommandErr EncapType :=
  match s with
  | "none" | "" => .ok .none
  | "fou" => .ok .fou
  | "gue" => .ok .gue
  | _ => .error (.unknownEncap s)

/-- `runCreate` up to the check of the encapsulation. -/
def createConfig (flags : CreateFlags) : Except CommandErr Config :=
  match parseIP flags.localIP, parseIP flags.remoteIP, parseEncap flags.encap with
  | none, _, _ => .error (.invalidLocal flags.localIP)
  | some _, none, _ => .error (.invalidRemote flags.remoteIP)
  | some _, some _, .error e => .error e
  | some localIP, some remoteIP, .ok encap =>
      let cfg : Config :=
        { name := flags.name
          localIP := localIP
          remoteIP := remoteIP
          key := flags.key
          ttl := flags.ttl
          mtu := flags.mtu
          encap := encap
          encapSport := flags.encapSport
          encapDport := flags.encapDport
          encapChecksum := flags.encapCSum }
      match (validateEncap cfg).2 with
      | .error e => .error (.encap e)
      | .ok () => .ok cfg

def runCreate (parse : Parsers) (flags : CreateFlags) :
    Netlink (Except CommandErr Unit) :=
  match createConfig flags with
  | .error e => pure (.error e)
  | .ok cfg => do
      match ← create none cfg with
      | .error e => return .error (.tunnel e)
      | .ok () =>
          if flags.tunnelIP = "" then return .ok ()
          match ← assignIP parse none flags.name flags.tunnelIP with
          | .error e => return .error (.assign e)
          | .ok () => return .ok ()

inductive Command where
  | create (flags : CreateFlags)
  | delete (name : String)
  | status (name : String)
  | list

inductive Output where
  | done
  | status (s : Status)
  | tunnels (ts : List Status)

abbrev Result := Except CommandErr Output

def runDelete (name : String) : Netlink (Except CommandErr Unit) := do
  match ← delete none name with
  | .error e => return .error (.tunnel e)
  | .ok () => return .ok ()

def runStatus (name : String) : Netlink Result := do
  match ← get none name with
  | .error e => return .error (.tunnel e)
  | .ok s => return .ok (.status s)

def runList : Netlink Result := do
  match ← list none with
  | .error e => return .error (.tunnel e)
  | .ok ts => return .ok (.tunnels ts)

def Command.run (parse : Parsers) : Command → Netlink Result
  | .create flags => do
      match ← runCreate parse flags with
      | .error e => return .error e
      | .ok () => return .ok .done
  | .delete name => do
      match ← runDelete name with
      | .error e => return .error e
      | .ok () => return .ok .done
  | .status name => runStatus name
  | .list => runList

/-! ## The host of an administrator -/

@[ext] structure Host where
  link : String → Option Link
  port : ℕ × Port → Option Fou
  addrs : String → List String

namespace Host

def created (h : Host) (cfg : Config) : Host where
  link := Function.update h.link cfg.name
    (some (.gretun { gretunFor cfg with attrs := builtAttrs cfg }))
  port := if cfg.encap = .none then h.port
    else Function.update h.port (afInet, cfg.encapDport)
      (some ((h.port (afInet, cfg.encapDport)).getD (fouFor cfg.encapDport cfg.encap)))
  addrs := h.addrs

def assigned (h : Host) (name addr : String) : Host :=
  { h with addrs := Function.update h.addrs name (h.addrs name ++ [addr]) }

def deleted (h : Host) (name : String) : Host :=
  { h with link := Function.update h.link name none
           addrs := Function.update h.addrs name [] }

def afterCreate (parse : Parsers) (h : Host) (flags : CreateFlags) : Result → Host
  | .ok _ =>
      match createConfig flags, parse.nlAddr flags.tunnelIP with
      | .ok cfg, .ok addr =>
          if flags.tunnelIP = "" then h.created cfg
          else (h.created cfg).assigned flags.name addr
      | .ok cfg, .error _ => h.created cfg
      | .error _, _ => h
  | .error (.assign _) =>
      match createConfig flags with
      | .ok cfg => h.created cfg
      | .error _ => h
  | .error _ => h

def after (parse : Parsers) (h : Host) : Command × Result → Host
  | (.create flags, r) => h.afterCreate parse flags r
  | (.delete name, .ok _) => h.deleted name
  | _ => h

/-- What is reported of a link: what it is, with its first address or, if that could not
be read, without one. -/
def Reports (h : Host) (name : String) (s : Status) : Prop :=
  ∃ g, h.link name = some (.gretun g) ∧
    (s = statusFromGretun (.gretun g) g ∨
      s = (statusFromGretun (.gretun g) g).withAddrs (.ok (h.addrs name)))

structure Lists (h : Host) (ts : List Status) : Prop where
  nodup : (ts.map (·.name)).Nodup
  reports : ∀ s ∈ ts, h.Reports s.name s
  complete : ∀ name g, h.link name = some (.gretun g) → ∃ s ∈ ts, s.name = name

def Permits (h : Host) : Command × Result → Prop
  | (.create flags, .ok .done) => ∃ cfg, createConfig flags = .ok cfg ∧
      validateConfig cfg = .ok () ∧ h.link cfg.name = none
  | (.create flags, .error (.assign _)) => ∃ cfg, createConfig flags = .ok cfg ∧
      validateConfig cfg = .ok () ∧ h.link cfg.name = none ∧ flags.tunnelIP ≠ ""
  | (.create flags, .error (.tunnel _)) => ∃ cfg, createConfig flags = .ok cfg
  | (.create flags, .error e) => createConfig flags = .error e
  | (.delete name, .ok .done) => ∃ l, h.link name = some l ∧ l.type = "gre"
  | (.status name, .ok (.status s)) => h.Reports name s
  | (.list, .ok (.tunnels ts)) => h.Lists ts
  | (_, .error (.tunnel _)) => True
  | _ => False

/-- The host goes through the commands of a transcript, each with a result that it can
have there. -/
def Follows (parse : Parsers) (h : Host) : List (Command × Result) → Host → Prop
  | [], h' => h' = h
  | x :: xs, h' => h.Permits x ∧ (h.after parse x).Follows parse xs h'

end Host

end Cli

end Gretun
