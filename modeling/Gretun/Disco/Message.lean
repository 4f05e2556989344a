import Gretun.Basic
import Gretun.Net.Addr

/-!
# Disco messages and remote peers

The body of a disco envelope and what a daemon knows about another node. The
type of a message is a text on the wire; a text that is none of the three known
ones is ignored by every receiver.
-/

namespace Gretun

namespace Disco

open Gretun.Net

inductive MessageType where
  | ping
  | pong
  | callMeMaybe
  | other (text : String)
  deriving DecidableEq

/-- `disco.Body`. A field that a message does not use is empty. -/
structure Body where
  type : MessageType
  tx : String := ""
  nodeKey : String := ""
  src : String := ""
  endpoints : List String := []
  deriving DecidableEq

structure RemoteEndpoint where
  addr : AddrPort
  source : String
  deriving DecidableEq

structure RemotePeer where
  nodeKey : Bytes
  discoKey : Key
  name : String
  tunnelIP : Addr
  endpoints : List RemoteEndpoint
  updatedAt : Time
  deriving DecidableEq

end Disco

end Gretun
