import Gretun.Coord.Server
import Gretun.Net.Json

/-!
# The messages of the coordinator

The JSON of the types of the coordinator, with the tags of its struct
declarations: the requests as the handlers decode them and the responses as
`writeJSON` encodes them. `ServerEnv.overJson` is the server whose decoders are
these.
-/

namespace Gretun

namespace Coord

open Foundation.Tagged
open Foundation.Tagged.Doc
open Gretun.Net

/-! ## Requests -/

def Endpoint.ofJson (v : JsonValue) : Option Endpoint := do
  let fs ← v.fields
  let addr ← readField fs "addr" .zero JsonValue.readAddrPort
  let source ← readField fs "source" "" JsonValue.readText
  return { addr := addr, source := source }

def RegisterReq.ofJson (v : JsonValue) : Option RegisterReq := do
  let fs ← v.fields
  let nodePubkey ← readField fs "node_pubkey" [] JsonValue.readBytes
  let discoPubkey ← readField fs "disco_pubkey" (Vector.replicate 32 0) JsonValue.readKey
  let nodeName ← readField fs "node_name" "" JsonValue.readText
  return { nodePubkey := nodePubkey, discoPubkey := discoPubkey, nodeName := nodeName }

def endpointsOfJson (v : JsonValue) : Option (List Endpoint) := do
  let fs ← v.fields
  readField fs "endpoints" [] (readList Endpoint.ofJson)

def SignalReq.ofJson (v : JsonValue) : Option SignalReq := do
  let fs ← v.fields
  let dst ← readField fs "to" (Vector.replicate 32 0) JsonValue.readKey
  let «sealed» ← readField fs "sealed" [] JsonValue.readBytes
  return { dst := dst, «sealed» := «sealed» }

/-! ## Responses -/

def Endpoint.toJson (e : Endpoint) : JsonValue :=
  obj [("addr", JsonValue.addrPort e.addr), ("source", JsonValue.text e.source)]

def Peer.toJson (p : Peer) : JsonValue :=
  obj [("node_pubkey", JsonValue.bytes p.nodeKey),
    ("disco_pubkey", JsonValue.key p.discoKey),
    ("node_name", JsonValue.text p.name),
    ("tunnel_ip", JsonValue.addr p.tunnelIP),
    ("endpoints", list (p.endpoints.map Endpoint.toJson)),
    ("updated_at", JsonValue.time p.updatedAt)]

def Envelope.toJson (e : Envelope) : JsonValue :=
  obj [("from", JsonValue.key e.sender),
    ("sealed", JsonValue.bytes e.sealed),
    ("enqueue", JsonValue.time e.enqueue)]

def ResponseBody.toBytes (json : JsonLibrary) : ResponseBody → Bytes
  | .text s => utf8 s
  | .register tunnelIP etag =>
      json.marshal
        (obj [("tunnel_ip", JsonValue.text tunnelIP), ("peers_etag", JsonValue.text etag)])
  | .ok => json.marshal (obj [("ok", JsonValue.bool true)])
  | .peers etag ps =>
      json.marshal
        (obj [("etag", JsonValue.text etag), ("peers", list (ps.map Peer.toJson))])
  | .queued => json.marshal (obj [("queued", JsonValue.bool true)])
  | .signals envelopes =>
      json.marshal (obj [("envelopes", list (envelopes.map Envelope.toJson))])

def ServerEnv.overJson (env : ServerEnv) (json : JsonLibrary) : ServerEnv :=
  { env with
    decodeRegister := fun body _ => (json.unmarshal body).bind RegisterReq.ofJson
    decodeEndpoints := fun body => (json.unmarshal body).bind endpointsOfJson
    decodeSignal := fun body => (json.unmarshal body).bind SignalReq.ofJson }

end Coord

end Gretun
