import Gretun.Coord.Registry

/-!
# Signed requests

What the coordinator reads of an HTTP request, and `VerifyRequest`. Decoding,
hashing and signature checks are the functions of `Crypto`, about which nothing
is assumed.
-/

namespace Gretun

namespace Coord

/-- A request as the handlers see it. `path` is `r.URL.Path`, which may hold any
byte; `segments` are the segments of the escaped path, each one unescaped, which
is what the multiplexer compares. An absent header reads as the empty text.
`body` is what can be read of the body before its end or before `bodyErr`. -/
structure HttpRequest where
  method : String
  path : Bytes
  segments : List String
  since : String := ""
  timestamp : String := ""
  node : String := ""
  authorization : String := ""
  body : Bytes := []
  bodyErr : Option String := none
  deriving DecidableEq

structure Crypto where
  /-- `base64.StdEncoding.DecodeString`. -/
  base64Decode : String → Except String Bytes
  /-- `strconv.ParseInt(s, 10, 64)`. -/
  parseInt : String → Except String (BitVec 64)
  sha256 : Bytes → Bytes
  /-- `ed25519.Verify`: public key, message, signature. -/
  verify : Bytes → Bytes → Bytes → Bool

inductive AuthError where
  | missingHeaders
  | badScheme
  | decodeSig (err : String)
  | decodeNodePub (err : String)
  | pubkeyLength (n : ℕ)
  | badTimestamp (err : String)
  | staleTimestamp
  | readBody (err : String)
  | signature
  deriving DecidableEq

def AuthError.text : AuthError → String
  | missingHeaders => "missing auth headers"
  | badScheme => "bad auth scheme"
  | decodeSig err => "decode sig: " ++ err
  | decodeNodePub err => "decode node pub: " ++ err
  | pubkeyLength n => s!"bad pubkey length {n}"
  | badTimestamp err => "bad timestamp: " ++ err
  | staleTimestamp => "stale timestamp"
  | readBody err => "read body: " ++ err
  | signature => "signature verify failed"

def authScheme : String := "Gretun"

def maxClockSkew : Duration := 60 * Time.second

/-- `time.Now().UTC().Unix()`, for a clock reading. -/
def unix (t : Time) : BitVec 64 := BitVec.ofInt 64 (t / Time.second - 62135596800)

def utf8 (s : String) : Bytes := s.toUTF8.data.toList

/-- What is left of the `Authorization` header after the scheme. -/
def trimScheme (auth : String) : Option String :=
  let scheme := (authScheme ++ " ").toList
  if scheme <+: auth.toList then some (String.ofList (auth.toList.drop scheme.length))
  else none

def signingMaterial (c : Crypto) (ts method : String) (path body : Bytes) : Bytes :=
  utf8 ts ++ [10] ++ utf8 method ++ [10] ++ path ++ [10] ++ c.sha256 body

/-- The check of the timestamp, in 64-bit arithmetic. -/
def stale (now ts : BitVec 64) : Bool :=
  (now - ts).toInt > maxClockSkew / Time.second ||
    (ts - now).toInt > maxClockSkew / Time.second

/-- `VerifyRequest`, when the clock reads `now`: the public key of the requester
and the body. -/
def verifyRequest (c : Crypto) (now : Time) (r : HttpRequest) :
    Except AuthError (Bytes × Bytes) := do
  if r.timestamp = "" ∨ r.node = "" ∨ r.authorization = "" then
    throw .missingHeaders
  let sigText ← (trimScheme r.authorization).elim (throw .badScheme) pure
  let sig ← (c.base64Decode sigText).mapError .decodeSig
  let pub ← (c.base64Decode r.node).mapError .decodeNodePub
  if pub.length ≠ publicKeySize then throw (.pubkeyLength pub.length)
  let ts ← (c.parseInt r.timestamp).mapError .badTimestamp
  if stale (unix now) ts then throw .staleTimestamp
  let body ← r.bodyErr.elim (pure r.body) (throw ∘ .readBody)
  if !c.verify pub (signingMaterial c r.timestamp r.method r.path body) sig then
    throw .signature
  return (pub, body)

def SignedBy (c : Crypto) (now : Time) (k : Bytes) (r : HttpRequest) : Prop :=
  ∃ body, verifyRequest c now r = .ok (k, body)

instance (c : Crypto) (now : Time) (k : Bytes) (r : HttpRequest) :
    Decidable (SignedBy c now k r) :=
  match h : verifyRequest c now r with
  | .error e => .isFalse (by
      rintro ⟨body, hok⟩
      rw [h] at hok
      cases hok)
  | .ok (k', body) =>
      if hk : k' = k then .isTrue ⟨body, by rw [h, hk]⟩
      else .isFalse (by
        rintro ⟨body', hok⟩
        rw [h] at hok
        cases hok
        exact hk rfl)

end Coord

end Gretun
