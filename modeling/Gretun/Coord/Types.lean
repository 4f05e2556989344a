import Gretun.Basic
import Gretun.Net.Addr

/-!
# The records of the coordinator

What the registry keeps about a node, and the sealed envelopes that the relay
forwards without looking inside.
-/

namespace Gretun

namespace Coord

open Gretun.Net

structure Endpoint where
  addr : AddrPort
  source : String
  deriving DecidableEq

structure Peer where
  nodeKey : Bytes
  discoKey : Key
  name : String
  tunnelIP : Addr := .zero
  endpoints : List Endpoint := []
  updatedAt : Time := 0
  deriving DecidableEq

/-- `Envelope`; `sender` is its `From` field. -/
structure Envelope where
  sender : Key
  «sealed» : Bytes
  enqueue : Time
  deriving DecidableEq

/-- The zero value. -/
instance : Inhabited Envelope := ⟨⟨Vector.replicate 32 0, [], 0⟩⟩

end Coord

end Gretun
