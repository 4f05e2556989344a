import Gretun.Tunnel.Netlink

/-!
# Creating and removing GRE tunnels

The operations of the tunnel package as programs of netlink requests. `create`
undoes what it has done when a later request fails: the link it added, and the
FOU receive port when this very call opened it.
-/

namespace Gretun

namespace Tunnel

open Gretun.Net
open Foundation.Command

inductive TunnelErr where
  | ctx (e : CtxError)
  | config (e : ConfigError)
  | exists (name : String)
  | notFound (name : String)
  | permission (op name message : String)
  | tunnel (op name message : String) (err : NlError)
  | invalidType (name actualType : String)
  | netlink (err : NlError)
  | cidr (cidr err : String)
  deriving DecidableEq

def translateNetlinkError (err : NlError) (op name : String) : TunnelErr :=
  match err with
  | .errno .EEXIST => .exists name
  | .errno .ENODEV => .notFound name
  | .errno .EPERM | .errno .EACCES =>
      .permission op name "requires CAP_NET_ADMIN capability or root privileges"
  | .errno .EINVAL =>
      .tunnel op name "invalid configuration (check IP addresses, key, TTL)" err
  | .errno .EOPNOTSUPP =>
      .tunnel op name ("operation not supported (load kernel modules: " ++
        "modprobe ip_gre; for FOU/GUE: modprobe fou, CONFIG_NET_FOU=y)") err
  | .errno .EBUSY =>
      .tunnel op name "device busy (tunnel may be in use)" err
  | .errno .ENETDOWN => .tunnel op name "network is down" err
  | .errno .EADDRINUSE => .tunnel op name "address already in use" err
  | _ => .tunnel op name "operation failed" err

def afInet : ℕ := 2
def ipprotoGRE : ℕ := 47
def fouEncapDirect : ℕ := 1
def fouEncapGUE : ℕ := 2
def defaultTTL : BitVec 8 := 64
def tunnelEncapFlagCSum : BitVec 16 := 1

def fouEncapConst : EncapType → ℕ
  | .gue => fouEncapGUE
  | _ => fouEncapDirect

def netlinkEncapConst : EncapType → ℕ
  | .gue => fouEncapGUE
  | _ => fouEncapDirect

def fouFor (port : Port) (encap : EncapType) : Fou where
  family := afInet
  port := port
  protocol := if encap = .gue then 0 else ipprotoGRE
  encapType := fouEncapConst encap

/-- Open a receive port, tolerating one that is already open. The answer says
whether this call opened it. -/
def ensureFOU (port : Port) (encap : EncapType) :
    Netlink (Except NlError Bool) := do
  match ← request (.fouAdd (fouFor port encap)) with
  | .ok () => return .ok true
  | .error e => return if e = .errno .EEXIST then .ok false else .error e

/-- Drop a receive port. A failure is logged and otherwise ignored. -/
def rollbackFOU (port : Port) : Netlink Unit := do
  let _ ← request (.fouDel { family := afInet, port := port })
  return ()

def removeFOU (port : Port) : Netlink Unit := rollbackFOU port

def applyEncap (g : GretunLink) (cfg : Config) : GretunLink :=
  if cfg.encap = .none then g
  else
    { g with
      encapType := BitVec.ofNat 16 (netlinkEncapConst cfg.encap)
      encapSport := cfg.encapSport
      encapDport := cfg.encapDport
      encapFlags := if cfg.encapChecksum then tunnelEncapFlagCSum
        else g.encapFlags }

def mtuOrDefault (cfg : Config) : ℤ :=
  if 0 < cfg.mtu then cfg.mtu
  else if cfg.encap ≠ .none then defaultFOUMTU
  else 0

def gretunFor (cfg : Config) : GretunLink :=
  applyEncap
    { attrs := { name := cfg.name }
      localIP := cfg.localIP
      remoteIP := cfg.remoteIP
      iKey := cfg.key
      oKey := cfg.key
      ttl := if cfg.ttl = 0 then defaultTTL else cfg.ttl }
    cfg

/-- The receive port of an encapsulated tunnel; none is needed otherwise. -/
def createFOU (cfg : Config) : Netlink (Except NlError Bool) :=
  if cfg.encap = .none then pure (.ok false)
  else ensureFOU cfg.encapDport cfg.encap

def undoFOU (cfg : Config) (createdFou : Bool) : Netlink Unit :=
  if createdFou then rollbackFOU cfg.encapDport else pure ()

/-- The clean-up of the error paths after the link was added. -/
def undoLink (cfg : Config) (createdFou : Bool) : Netlink Unit := do
  let _ ← request (.linkDel (.gretun (gretunFor cfg)))
  undoFOU cfg createdFou

def setMTU (cfg : Config) : Netlink (Except NlError Unit) :=
  if 0 < mtuOrDefault cfg then
    request (.linkSetMTU (.gretun (gretunFor cfg)) (mtuOrDefault cfg))
  else pure (.ok ())

/-- `Create` from the point where the receive port is there. -/
def createLink (cfg : Config) (createdFou : Bool) :
    Netlink (Except TunnelErr Unit) := do
  match ← request (.linkAdd (.gretun (gretunFor cfg))) with
  | .error e =>
      undoFOU cfg createdFou
      return .error (translateNetlinkError e "create" cfg.name)
  | .ok () =>
      match ← setMTU cfg with
      | .error e =>
          undoLink cfg createdFou
          return .error (translateNetlinkError e "create" cfg.name)
      | .ok () =>
          match ← request (.linkSetUp (.gretun (gretunFor cfg))) with
          | .error e =>
              undoLink cfg createdFou
              return .error (translateNetlinkError e "create" cfg.name)
          | .ok () => return .ok ()

/-- `Create`. `ctx` is the error of the context, if it is already done. -/
def create (ctx : Option CtxError) (cfg : Config) :
    Netlink (Except TunnelErr Unit) :=
  match ctx with
  | some e => pure (.error (.ctx e))
  | none =>
      match validateConfig cfg with
      | .error e => pure (.error (.config e))
      | .ok () => do
          match ← request (.linkByName cfg.name) with
          | .ok _ => return .error (.exists cfg.name)
          | .error _ =>
              match ← createFOU cfg with
              | .error e =>
                  return .error (translateNetlinkError e "create" cfg.name)
              | .ok createdFou => createLink cfg createdFou

def delete (ctx : Option CtxError) (name : String) :
    Netlink (Except TunnelErr Unit) :=
  match ctx with
  | some e => pure (.error (.ctx e))
  | none =>
      match validateTunnelName name with
      | .error e => pure (.error (.config e))
      | .ok () => do
          match ← request (.linkByName name) with
          | .error _ => return .error (.notFound name)
          | .ok link =>
              if link.type ≠ "gre" then
                return .error (.invalidType name link.type)
              match ← request (.linkDel link) with
              | .error e =>
                  return .error (translateNetlinkError e "delete" name)
              | .ok () => return .ok ()

structure Parsers where
  cidr : String → Except String CIDR
  nlAddr : String → Except String String

def assignIP (parse : Parsers) (ctx : Option CtxError) (name cidr : String) :
    Netlink (Except TunnelErr Unit) :=
  match ctx with
  | some e => pure (.error (.ctx e))
  | none =>
      match validateTunnelName name, validateCIDR parse.cidr cidr with
      | .error e, _ => pure (.error (.config e))
      | .ok (), .error e => pure (.error (.config e))
      | .ok (), .ok () => do
          match ← request (.linkByName name) with
          | .error _ => return .error (.notFound name)
          | .ok link =>
              match parse.nlAddr cidr with
              | .error e => return .error (.cidr cidr e)
              | .ok addr =>
                  match ← request (.addrAdd link addr) with
                  | .error e =>
                      return .error (translateNetlinkError e "assign-ip" name)
                  | .ok () => return .ok ()

end Tunnel

end Gretun
