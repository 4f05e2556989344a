import Gretun.Coord.Signing
import Gretun.Net.Url

/-!
# The coordinator's client

`CoordClient` signs every request but the registration. It signs the path it asks
for without the query, and the server checks the signature against the path it
parses out of the request line. Both are the route, whatever the query is, so the
server accepts what the client signs as long as their clocks agree.
-/

namespace Gretun

namespace Disco

open Foundation
open Foundation.Checks
open Gretun.Net
open Gretun.Coord

/-- `disco.NodeKey`; the size of the public half is checked when keys are
loaded. -/
structure NodeKey where
  priv : Bytes
  pub : Bytes
  size : pub.length = publicKeySize

structure CoordClient where
  base : Bytes
  nk : NodeKey

structure ClientEnv where
  sha256 : Bytes → Bytes
  /-- `ed25519.Sign`: private key, message. -/
  sign : Bytes → Bytes → Bytes
  /-- `ed25519.Verify`: public key, message, signature. -/
  verify : Bytes → Bytes → Bytes → Bool
  parseAuthority : Bytes → Except String Bytes

/-- The position of the question mark. It is ASCII, so it is not part of a longer
character. -/
def indexQuery (p : Bytes) : Option ℕ := p.findIdx? (· = 63)

def normalisePath (p : Bytes) : Bytes :=
  match indexQuery p with
  | some i => p.take i
  | none => p

def signingMaterial (sha256 : Bytes → Bytes) (ts method : String)
    (path body : Bytes) : Bytes :=
  utf8 ts ++ [10] ++ utf8 method ++ [10] ++ path ++ [10] ++ sha256 body

structure Wire where
  method : String
  uri : Bytes
  timestamp : String
  node : String
  authorization : String
  body : Bytes
  deriving DecidableEq

/-- `signedDo`, up to the sending of the request, when the clock reads `now`. -/
def signedDo (env : ClientEnv) (c : CoordClient) (now : Time) (method : String)
    (path body : Bytes) : Except UrlError Wire := do
  let u ← URL.parse env.parseAuthority (c.base ++ path)
  let ts := formatInt (unix now)
  let digest := signingMaterial env.sha256 ts method (normalisePath path) body
  let sig := env.sign c.nk.priv digest
  return {
    method := method
    uri := u.requestURI
    timestamp := ts
    node := encodeToString c.nk.pub
    authorization := "Gretun " ++ encodeToString sig
    body := body }

/-- The signed requests of the client; the bodies are the JSON texts it posts. -/
inductive ClientCall where
  | postEndpoints (body : Bytes)
  | peers (since : Bytes)
  | sendSignal (body : Bytes)
  | pullSignals
  deriving DecidableEq

namespace ClientCall

def method : ClientCall → String
  | postEndpoints _ => "POST"
  | peers _ => "GET"
  | sendSignal _ => "POST"
  | pullSignals => "GET"

def path : ClientCall → Bytes
  | postEndpoints _ => utf8 "/v1/endpoints"
  | peers since =>
      if since ≠ [] then utf8 "/v1/peers" ++ (utf8 "?since=" ++ since)
      else utf8 "/v1/peers"
  | sendSignal _ => utf8 "/v1/signal"
  | pullSignals => utf8 "/v1/signal"

def body : ClientCall → Bytes
  | postEndpoints body => body
  | peers _ => []
  | sendSignal body => body
  | pullSignals => []

def send (env : ClientEnv) (c : CoordClient) (now : Time) (call : ClientCall) :
    Except UrlError Wire :=
  signedDo env c now call.method call.path call.body

def route : ClientCall → Bytes
  | postEndpoints _ => utf8 "/v1/endpoints"
  | peers _ => utf8 "/v1/peers"
  | sendSignal _ => utf8 "/v1/signal"
  | pullSignals => utf8 "/v1/signal"

def query : ClientCall → Bytes
  | peers since => if since ≠ [] then utf8 "since=" ++ since else []
  | _ => []

theorem path_eq (call : ClientCall) :
    call.path = URL.withQuery call.route call.query := by
  cases call with
  | peers since =>
      by_cases hsince : since = []
      · simp [path, route, query, URL.withQuery, hsince]
      · have hmark : utf8 "?since=" = 63 :: utf8 "since=" := by decide +kernel
        have hne : utf8 "since=" ++ since ≠ [] := by simp [hsince]
        simp [path, route, query, URL.withQuery, hsince, hmark]
  | _ => rfl

theorem plain_routes :
    ∀ s ∈ ["/v1/endpoints", "/v1/peers", "/v1/signal"], URL.Plain (utf8 s) := by
  decide +kernel

theorem plain_route (call : ClientCall) : URL.Plain call.route := by
  cases call <;> exact plain_routes _ (by simp)

theorem head_query (call : ClientCall) : call.query.head? ≠ some 35 := by
  cases call with
  | peers since =>
      have hs : utf8 "since=" = 115 :: utf8 "ince=" := by decide +kernel
      by_cases hsince : since = []
      · simp [query, hsince]
      · simp [query, hsince, hs]
  | _ => simp [query]

end ClientCall

theorem normalisePath_eq_cut (p : Bytes) : normalisePath p = (Cut.cut 63 p).1 := by
  unfold normalisePath indexQuery
  induction p with
  | nil => rfl
  | cons c p ih =>
      by_cases hc : c = 63
      · simp [List.findIdx?_cons, Cut.cut, hc]
      · rw [List.findIdx?_cons, Cut.cut, if_neg hc, ← ih]
        cases p.findIdx? (· = 63) <;> simp [hc]

theorem normalisePath_withQuery {route : Bytes} (h : 63 ∉ route) (query : Bytes) :
    normalisePath (URL.withQuery route query) = route := by
  rw [normalisePath_eq_cut, URL.withQuery]
  split
  · rw [Cut.cut_of_notMem h]
  · rw [Cut.cut_append h]

/-! ## What the headers say -/

theorem parseInt_formatInt (quote : String → String) (i : BitVec 64) :
    parseInt quote (formatInt i) = .ok i := by
  have hlow : -2 ^ (64 - 1) ≤ i.toInt := by simpa using i.le_toInt
  have hhigh : i.toInt < 2 ^ (64 - 1) := by simpa using i.toInt_lt
  rw [parseInt, formatInt, Decimal.parseInt_formatInt (by omega) hlow hhigh]
  change Except.ok (BitVec.ofInt 64 i.toInt) = _
  rw [BitVec.ofInt_toInt]

theorem formatInt_ne_empty (i : BitVec 64) : formatInt i ≠ "" := by
  intro h
  have hparse := parseInt_formatInt (fun s => s) i
  rw [h] at hparse
  cases hparse

theorem decodeString_encodeToString (b : Bytes) :
    decodeString (encodeToString b) = .ok b := by
  rw [decodeString, encodeToString, String.toList_ofList, Base64.decode_encode]
  rfl

theorem encodeToString_ne_empty {b : Bytes} (h : b ≠ []) :
    encodeToString b ≠ "" := by
  intro heq
  have hchars := congrArg String.toList heq
  rw [encodeToString, String.toList_ofList] at hchars
  exact Base64.encode_ne_nil h hchars

theorem trimScheme_append (s : String) : trimScheme ("Gretun " ++ s) = some s := by
  have hscheme : (authScheme ++ " ").toList = "Gretun ".toList := by decide
  rw [trimScheme, hscheme, String.toList_append, if_pos (List.prefix_append _ _)]
  simp

theorem toInt_sub_of_close {a b : BitVec 64} (h : |a.toInt - b.toInt| ≤ 60) :
    (a - b).toInt = a.toInt - b.toInt := by
  rw [abs_le] at h
  rw [BitVec.toInt_sub]
  exact Int.bmod_eq_of_le (by omega) (by omega)

theorem stale_eq_false {a b : BitVec 64} (h : |a.toInt - b.toInt| ≤ 60) :
    stale a b = false := by
  have hskew : maxClockSkew / Time.second = 60 := by decide
  have h' : |b.toInt - a.toInt| ≤ 60 := by rwa [abs_sub_comm]
  rw [stale, hskew, toInt_sub_of_close h, toInt_sub_of_close h']
  rw [abs_le] at h
  simp only [Bool.or_eq_false_iff, decide_eq_false_iff_not, not_lt, gt_iff_lt]
  omega

/-! ## The server accepts what the client signs -/

/-- The transport hands the request over as it was sent; the server takes the path
out of the request line. It cuts that line at spaces, so a request whose target has one
does not get through. -/
structure Received (env : ClientEnv) (w : Wire) (r : HttpRequest) : Prop where
  line : (32 : UInt8) ∉ w.uri
  method : r.method = w.method
  path : ∃ u, URL.parseRequestURI env.parseAuthority w.uri = .ok u ∧
    r.path = u.path
  timestamp : r.timestamp = w.timestamp
  node : r.node = w.node
  authorization : r.authorization = w.authorization
  body : r.body = w.body
  bodyErr : r.bodyErr = none

def signature (env : ClientEnv) (c : CoordClient) (now : Time) (call : ClientCall) :
    Bytes :=
  env.sign c.nk.priv (signingMaterial env.sha256 (formatInt (unix now)) call.method
    (normalisePath call.path) call.body)

theorem send_eq_ok {env : ClientEnv} {c : CoordClient} {now : Time}
    {call : ClientCall} {w : Wire} (h : call.send env c now = .ok w) :
    ∃ u, URL.parse env.parseAuthority (c.base ++ call.path) = .ok u ∧
      w =
        { method := call.method
          uri := u.requestURI
          timestamp := formatInt (unix now)
          node := encodeToString c.nk.pub
          authorization := "Gretun " ++ encodeToString (signature env c now call)
          body := call.body } := by
  unfold ClientCall.send signedDo at h
  obtain ⟨u, hu, hw⟩ := bind_eq_ok.1 h
  exact ⟨u, hu, (Except.ok.inj hw).symm⟩

/-- A request with the headers of a call passes the checks of the server. -/
theorem passes_of_headers {env : ClientEnv} {c : CoordClient}
    (hsign : ∀ msg, env.verify c.nk.pub msg (env.sign c.nk.priv msg) = true)
    (quote : String → String) {call : ClientCall} {now now' : Time}
    (hclock : |(unix now').toInt - (unix now).toInt| ≤ 60) {r : HttpRequest}
    (hmethod : r.method = call.method) (hpath : r.path = normalisePath call.path)
    (hts : r.timestamp = formatInt (unix now))
    (hnode : r.node = encodeToString c.nk.pub)
    (hauth : r.authorization =
      "Gretun " ++ encodeToString (signature env c now call))
    (hbody : r.body = call.body) (hread : r.bodyErr = none) :
    Passes (standard quote env.sha256 env.verify) now' r c.nk.pub call.body
      (signature env c now call) (unix now) := by
  have hpub : c.nk.pub ≠ [] := by
    intro hnil
    have hsize := c.nk.size
    rw [hnil] at hsize
    cases hsize
  constructor
  · rw [hts, hnode, hauth]
    rintro (h | h | h)
    · exact formatInt_ne_empty _ h
    · exact encodeToString_ne_empty hpub h
    · have hchars := congrArg String.toList h
      simp at hchars
  · refine ⟨_, by rw [hauth, trimScheme_append], decodeString_encodeToString _⟩
  · rw [hnode]
    exact decodeString_encodeToString _
  · exact c.nk.size
  · rw [hts]
    exact parseInt_formatInt quote _
  · exact stale_eq_false hclock
  · exact hread
  · exact hbody
  · rw [hmethod, hpath, hts]
    exact hsign _

/-- Client and server build the same material to sign. Every request the client sends to a
base URL without a path reaches the server with the signed path, and is accepted there,
with the client's key and its body, when the server's clock is within a minute of the
client's. -/
theorem verifyRequest_of_send {env : ClientEnv} {c : CoordClient}
    (hbase : URL.IsBase c.base)
    (hsign : ∀ msg, env.verify c.nk.pub msg (env.sign c.nk.priv msg) = true)
    (quote : String → String) (call : ClientCall) {now now' : Time} {w : Wire}
    (hsent : call.send env c now = .ok w)
    (hclock : |(unix now').toInt - (unix now).toInt| ≤ 60) :
    (∀ ts method path body, signingMaterial env.sha256 ts method path body =
      Coord.signingMaterial (standard quote env.sha256 env.verify) ts method path body) ∧
    (∃ u, URL.parseRequestURI env.parseAuthority w.uri = .ok u ∧
      u.path = normalisePath call.path) ∧
    ∀ r, Received env w r →
      verifyRequest (standard quote env.sha256 env.verify) now' r =
        .ok (c.nk.pub, call.body) := by
  have hnormal : normalisePath call.path = call.route := by
    rw [call.path_eq, normalisePath_withQuery call.plain_route.query]
  obtain ⟨u, hparse, rfl⟩ := send_eq_ok hsent
  rw [call.path_eq] at hparse
  obtain ⟨u', huri, hroute⟩ := URL.path_of_request env.parseAuthority hbase
    call.plain_route call.head_query hparse
  refine ⟨fun _ _ _ _ => rfl, ⟨u', huri, hroute.trans hnormal.symm⟩, fun r hr => ?_⟩
  obtain ⟨u'', huri', hpath⟩ := hr.path
  obtain rfl := Except.ok.inj (huri.symm.trans huri')
  refine verifyRequest_eq_ok_iff.2 ⟨_, _, passes_of_headers hsign quote hclock
    hr.method ?_ hr.timestamp hr.node hr.authorization hr.body hr.bodyErr⟩
  rw [hpath, hroute, hnormal]

/-! ## A request that is sent -/

/-- The signature of the one message below; nothing else is signed. -/
def sampleSign (_priv msg : Bytes) : Bytes :=
  if msg = utf8 "0\nPOST\n/v1/endpoints\n" ++ Server.endpointsDigest then
    Server.sampleSig
  else []

def sampleClientEnv : ClientEnv where
  sha256 := sampleSha256
  sign := sampleSign
  verify pub msg sig := pub = Server.sampleNode ∧ sig = sampleSign [] msg
  parseAuthority := .ok

def sampleClient : CoordClient where
  base := utf8 "http://coord:8443"
  nk := { priv := [], pub := Server.sampleNode, size := by decide }

def sampleWire : Wire where
  method := "POST"
  uri := utf8 "/v1/endpoints"
  timestamp := "0"
  node := Server.sampleNodeText
  authorization := "Gretun " ++ Server.sampleSigText
  body := Server.endpointsBody

theorem isBase_sampleClient : URL.IsBase sampleClient.base :=
  ⟨utf8 "http", utf8 "coord:8443", by decide +kernel,
    ⟨by decide +kernel, by decide +kernel, by decide +kernel⟩, by decide +kernel,
    by decide +kernel, by decide +kernel⟩

theorem received_sampleWire :
    Received sampleClientEnv sampleWire Server.endpointsRequest :=
  ⟨by decide +kernel, rfl, ⟨{ path := utf8 "/v1/endpoints" }, by decide +kernel, rfl⟩,
    rfl, rfl, rfl, rfl, rfl⟩

/-- The server accepts the request, a minute later too. -/
theorem verifyRequest_of_sampleWire :
    verifyRequest (standard (fun s => s) sampleSha256 sampleClientEnv.verify)
        (Server.sampleNow + 60 * Time.second) Server.endpointsRequest =
      .ok (Server.sampleNode, Server.endpointsBody) :=
  (verifyRequest_of_send isBase_sampleClient (by simp [sampleClientEnv,
    sampleClient, sampleSign]) (fun s => s) (.postEndpoints Server.endpointsBody)
    (by decide +kernel : _ = Except.ok sampleWire)
    (by decide +kernel : |(unix (Server.sampleNow + 60 * Time.second)).toInt -
      (unix Server.sampleNow).toInt| ≤ 60)).2.2 _ received_sampleWire

end Disco

end Gretun
