import Gretun.Foundation.Checks
import Gretun.Net.Ip

/-!
# Tunnel configurations and their checks

`Config` is the configuration of one GRE tunnel and `validateConfig` the check
that `Create` runs before it touches the kernel. An error carries the data its
text is made of; `ConfigError.text` is that text, with `quote` for the `%q` verb.
-/

namespace Gretun

namespace Tunnel

open Gretun.Net
open Foundation.Checks

/-- The outer encapsulation of a tunnel. In the source it is an integer with
three named values. -/
inductive EncapType where
  | none
  | fou
  | gue
  | other (n : ℤ)
  deriving DecidableEq

def defaultFOUMTU : ℤ := 1468

structure Config where
  name : String
  localIP : IP
  remoteIP : IP
  key : BitVec 32 := 0
  ttl : BitVec 8 := 0
  mtu : ℤ := 0
  encap : EncapType := .none
  encapSport : Port := 0
  encapDport : Port := 0
  encapChecksum : Bool := false
  deriving DecidableEq

def encapTypeName : EncapType → String
  | .fou => "fou"
  | .gue => "gue"
  | _ => "none"

inductive ConfigError where
  | nameEmpty
  | nameTooLong (name : String) (got : ℕ)
  | nameInvalidChars (name : String)
  | reservedName (name reserved : String)
  | ipRequired (field : String)
  | ipUnspecified (field : String)
  | ipLoopback (field : String) (ip : IP)
  | ipNotV4 (field : String) (ip : IP)
  | ipMulticast (field : String) (ip : IP)
  | sameIP (ip : IP)
  | ttlRange (ttl : ℕ)
  | dportRequired (encap : EncapType)
  | unknownEncap (n : ℤ)
  | mtuRange (mtu : ℤ)
  | cidrEmpty
  | cidrInvalid (cidr err : String)
  | cidrNotV4 (cidr : String)
  | cidrNetwork (cidr : String)
  | cidrBroadcast (cidr : String)
  deriving DecidableEq

def maxInterfaceNameLength : ℕ := 15

def ConfigError.text (quote : String → String) : ConfigError → String
  | nameEmpty => "tunnel name cannot be empty"
  | nameTooLong name got =>
      s!"tunnel name {quote name} exceeds maximum length of " ++
        s!"{maxInterfaceNameLength} characters (got {got})"
  | nameInvalidChars name =>
      s!"tunnel name {quote name} contains invalid characters " ++
        "(only alphanumeric, hyphens, and underscores allowed)"
  | reservedName name reserved =>
      s!"tunnel name {quote name} uses reserved prefix {quote reserved} " ++
        "which may conflict with system interfaces"
  | ipRequired field => s!"{field} is required"
  | ipUnspecified field => s!"{field} cannot be unspecified (0.0.0.0)"
  | ipLoopback field ip =>
      s!"{field} cannot be loopback address ({IP.string ip})"
  | ipNotV4 field ip =>
      s!"{field} must be an IPv4 address (got {IP.string ip})"
  | ipMulticast field ip =>
      s!"{field} cannot be a multicast address ({IP.string ip})"
  | sameIP ip =>
      s!"local IP and remote IP cannot be the same ({IP.string ip})"
  | ttlRange ttl => s!"TTL must be 0 (default) or between 1-255 (got {ttl})"
  | dportRequired encap =>
      s!"encap-dport is required when encap={encapTypeName encap}"
  | unknownEncap n => s!"unknown encap type {n}"
  | mtuRange mtu =>
      s!"MTU must be 0 (default) or between 576 and 9000 (got {mtu})"
  | cidrEmpty => "CIDR cannot be empty"
  | cidrInvalid cidr err => s!"invalid CIDR notation {quote cidr}: {err}"
  | cidrNotV4 cidr => s!"CIDR {quote cidr} is not an IPv4 address"
  | cidrNetwork cidr =>
      s!"CIDR {quote cidr} uses network address (first address in subnet), " ++
        "which is typically reserved"
  | cidrBroadcast cidr =>
      s!"CIDR {quote cidr} uses broadcast address (last address in subnet), " ++
        "which is reserved"

def validNameChar (c : Char) : Bool :=
  c.isAlphanum || c = '_' || c = '-'

def validateTunnelName (name : String) : Except ConfigError Unit :=
  if name = "" then .error .nameEmpty
  else if maxInterfaceNameLength < name.utf8ByteSize then
    .error (.nameTooLong name name.utf8ByteSize)
  else if !name.toList.all validNameChar then .error (.nameInvalidChars name)
  else .ok ()

/-- Names that start like one of these may clash with system interfaces. -/
def reservedPrefixes : List String :=
  ["lo", "eth", "wlan", "docker", "veth", "br-", "virbr"]

def validateReserved (name : String) : Except ConfigError Unit :=
  match reservedPrefixes.find? fun r => r.toList.isPrefixOf name.toList with
  | some r => .error (.reservedName name r)
  | none => .ok ()

def validateIP (ip : IP) (fieldName : String) : Except ConfigError Unit :=
  if ip = [] then .error (.ipRequired fieldName)
  else if ip.isUnspecified then .error (.ipUnspecified fieldName)
  else if ip.isLoopback then .error (.ipLoopback fieldName ip)
  else if ip.to4 = none then .error (.ipNotV4 fieldName ip)
  else if ip.isMulticast then .error (.ipMulticast fieldName ip)
  else .ok ()

/-- The second test of the source cannot fail: a byte that is not zero is at
least one. -/
def validateTTL (ttl : BitVec 8) : Except ConfigError Unit :=
  if ttl = 0 then .ok ()
  else if ttl.toNat < 1 then .error (.ttlRange ttl.toNat)
  else .ok ()

/-- Ports whose reuse is legal but usually a mistake. -/
def warnPortsNonFatal : List (Port × String) :=
  [(53, "DNS"), (67, "DHCP server"), (68, "DHCP client"), (123, "NTP"),
    (443, "HTTPS/QUIC"), (500, "IKE"), (4500, "IPsec NAT-T")]

def encapWarning (cfg : Config) : String :=
  match warnPortsNonFatal.lookup cfg.encapDport with
  | some svc =>
      s!"encap-dport {cfg.encapDport.toNat} collides with well-known {svc}; " ++
        "continuing"
  | none => ""

def validateMTU (cfg : Config) : Except ConfigError Unit :=
  if cfg.mtu ≠ 0 ∧ (cfg.mtu < 576 ∨ 9000 < cfg.mtu) then
    .error (.mtuRange cfg.mtu)
  else .ok ()

def validateEncap (cfg : Config) : String × Except ConfigError Unit :=
  match cfg.encap with
  | .none => ("", validateMTU cfg)
  | .fou | .gue =>
      if cfg.encapDport = 0 then ("", .error (.dportRequired cfg.encap))
      else (encapWarning cfg, validateMTU cfg)
  | .other n => ("", .error (.unknownEncap n))

def validateConfig (cfg : Config) : Except ConfigError Unit := do
  validateTunnelName cfg.name
  validateReserved cfg.name
  validateIP cfg.localIP "local IP"
  validateIP cfg.remoteIP "remote IP"
  if cfg.localIP.equal cfg.remoteIP then throw (.sameIP cfg.localIP)
  validateTTL cfg.ttl
  (validateEncap cfg).2

structure Checked (cfg : Config) : Prop where
  name : validateTunnelName cfg.name = .ok ()
  reserved : validateReserved cfg.name = .ok ()
  localIP : validateIP cfg.localIP "local IP" = .ok ()
  remoteIP : validateIP cfg.remoteIP "remote IP" = .ok ()
  ne : cfg.localIP.equal cfg.remoteIP = false
  ttl : validateTTL cfg.ttl = .ok ()
  encap : (validateEncap cfg).2 = .ok ()

theorem checked_of_validateConfig {cfg : Config} (h : validateConfig cfg = .ok ()) :
    Checked cfg := by
  simp only [validateConfig, bind_eq_ok, ite_throw_eq_ok, Bool.not_eq_true] at h
  obtain ⟨⟨⟩, hname, ⟨⟩, hreserved, ⟨⟩, hlocal, ⟨⟩, hremote, hne, ⟨⟩, httl, hencap⟩ := h
  exact ⟨hname, hreserved, hlocal, hremote, hne, httl, hencap⟩

/-- What `net.ParseCIDR` returns: the address, and the network with its mask. -/
structure CIDR where
  ip : IP
  netIP : IP
  mask : List UInt8
  ones : ℕ

def CIDR.broadcast (c : CIDR) : IP :=
  List.zipWith (fun b m => b ||| ~~~m) c.netIP c.mask

def validateCIDR (parseCIDR : String → Except String CIDR) (cidr : String) :
    Except ConfigError Unit :=
  if cidr = "" then .error .cidrEmpty
  else match parseCIDR cidr with
    | .error e => .error (.cidrInvalid cidr e)
    | .ok c =>
        if c.ip.to4 = none then .error (.cidrNotV4 cidr)
        else if c.ones = 32 then .ok ()
        else if c.ip.equal c.netIP then .error (.cidrNetwork cidr)
        else if c.ip.equal c.broadcast then .error (.cidrBroadcast cidr)
        else .ok ()

end Tunnel

end Gretun
