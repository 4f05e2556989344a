import Gretun.Coord.Integrity
import Gretun.Foundation.Base64
import Gretun.Foundation.Checks
import Gretun.Foundation.Cut
import Gretun.Foundation.Decimal
import Mathlib.Data.Set.Function

/-!
# What a signature covers

The signed material joins the timestamp, the method and the path with line ends
and closes with the digest of the body. The path may hold line ends and so may
the digest, but the timestamp and the method do not, and the digest has a fixed
length, so the material determines its parts.

The texts of the headers are read by `strconv.ParseInt` and by base64 decoding;
`standard` is `Crypto` with these two as the library has them. Hashing and
signatures stay open. A hash of fixed length is not injective on all byte
strings; what is assumed is that the bodies in question do not collide.
-/

namespace Gretun

namespace Coord

open Foundation
open Foundation.Checks
open Foundation.Cut

/-! ## The standard library -/

/-- `base64.StdEncoding.DecodeString`. -/
def decodeString (s : String) : Except String Bytes :=
  (Base64.decode s.toList).mapError fun pos =>
    "illegal base64 data at input byte " ++ toString pos

def encodeToString (b : Bytes) : String := String.ofList (Base64.encode b)

/-- What `strconv` says about a text it cannot read; `quote` is
`strconv.Quote`. -/
def numErrorText (quote : String → String) (s : String) :
    Decimal.NumError → String
  | .malformed => "strconv.ParseInt: parsing " ++ quote s ++ ": invalid syntax"
  | .outOfRange =>
      "strconv.ParseInt: parsing " ++ quote s ++ ": value out of range"

/-- `strconv.ParseInt(s, 10, 64)`. -/
def parseInt (quote : String → String) (s : String) :
    Except String (BitVec 64) :=
  ((Decimal.parseInt 64 s.toList).mapError (numErrorText quote s)).map
    (BitVec.ofInt 64)

def formatInt (i : BitVec 64) : String := Decimal.formatInt i.toInt

def standard (quote : String → String) (sha256 : Bytes → Bytes)
    (verify : Bytes → Bytes → Bytes → Bool) : Crypto where
  base64Decode := decodeString
  parseInt := parseInt quote
  sha256 := sha256
  verify := verify

/-! ## Line ends -/

theorem utf8_eq (s : String) :
    utf8 s = s.toList.flatMap String.utf8EncodeChar := by
  have hs : s = String.ofList s.toList := String.ofList_toList.symm
  rw [utf8, String.toUTF8_eq_toByteArray]
  nth_rewrite 1 [hs]
  rw [String.toByteArray_ofList, List.utf8Encode, List.toList_data_toByteArray]

theorem utf8_injective : Function.Injective utf8 := by
  intro s t h
  refine String.toByteArray_inj.1 (ByteArray.ext (Array.toList_inj.1 ?_))
  exact h

/-- A byte of the encoding of a character is that character, or not ASCII. -/
theorem ascii_of_mem_utf8EncodeChar {c : Char} {b : UInt8}
    (h : b ∈ String.utf8EncodeChar c) : b.toNat = c.toNat ∨ 128 ≤ b.toNat := by
  rw [String.utf8EncodeChar] at h
  split at h
  · rename_i hv
    rw [List.mem_singleton.1 h, UInt8.toNat_ofNat']
    exact Or.inl (Nat.mod_eq_of_lt (by omega))
  · -- every byte of a longer encoding has its top bit set
    right
    split at h
    · simp only [List.mem_cons, List.not_mem_nil, or_false] at h
      rcases h with rfl | rfl <;> rw [UInt8.toNat_ofNat'] <;> omega
    · split at h
      · simp only [List.mem_cons, List.not_mem_nil, or_false] at h
        rcases h with rfl | rfl | rfl <;> rw [UInt8.toNat_ofNat'] <;> omega
      · simp only [List.mem_cons, List.not_mem_nil, or_false] at h
        rcases h with rfl | rfl | rfl | rfl <;> rw [UInt8.toNat_ofNat'] <;> omega

theorem newline_mem_of_utf8 {s : String} (h : (10 : UInt8) ∈ utf8 s) :
    '\n' ∈ s.toList := by
  rw [utf8_eq] at h
  obtain ⟨c, hc, hmem⟩ := List.mem_flatMap.1 h
  rcases ascii_of_mem_utf8EncodeChar hmem with heq | hlarge
  · have hnewline : c.toNat = ('\n').toNat := heq.symm
    rwa [Char.toNat_inj.1 hnewline] at hc
  · exact absurd hlarge (by decide)

theorem parseInt_ok {quote : String → String} {s : String} {n : BitVec 64}
    (h : parseInt quote s = .ok n) :
    ∃ z, Decimal.parseInt 64 s.toList = .ok z ∧ n = BitVec.ofInt 64 z := by
  unfold parseInt at h
  cases hz : Decimal.parseInt 64 s.toList with
  | error err =>
      rw [hz] at h
      cases h
  | ok z =>
      rw [hz] at h
      exact ⟨z, rfl, (Except.ok.inj h).symm⟩

theorem newline_notMem_of_parseInt {quote : String → String} {s : String}
    {n : BitVec 64} (h : parseInt quote s = .ok n) : (10 : UInt8) ∉ utf8 s := by
  intro hmem
  obtain ⟨z, hz, -⟩ := parseInt_ok h
  have hchar := Decimal.char_of_parseInt hz (newline_mem_of_utf8 hmem)
  exact absurd hchar (by decide)

/-! ## The parts of the material -/

structure SignedParts where
  timestamp : String
  method : String
  path : Bytes
  body : Bytes

namespace SignedParts

def material (c : Crypto) (x : SignedParts) : Bytes :=
  signingMaterial c x.timestamp x.method x.path x.body

structure Valid (c : Crypto) (bodies : Set Bytes) (x : SignedParts) : Prop where
  timestamp : ∃ n, c.parseInt x.timestamp = .ok n
  method : '\n' ∉ x.method.toList
  body : x.body ∈ bodies

theorem eq_of_material_eq {quote : String → String} {sha256 : Bytes → Bytes}
    {verify : Bytes → Bytes → Bytes → Bool} {size : ℕ}
    (hsize : ∀ b, (sha256 b).length = size) {bodies : Set Bytes}
    (hinj : Set.InjOn sha256 bodies) {x y : SignedParts}
    (hx : x.Valid (standard quote sha256 verify) bodies)
    (hy : y.Valid (standard quote sha256 verify) bodies)
    (h : x.material (standard quote sha256 verify) =
      y.material (standard quote sha256 verify)) : x = y := by
  have hassoc : ∀ z : SignedParts,
      z.material (standard quote sha256 verify) = utf8 z.timestamp ++
        10 :: (utf8 z.method ++ 10 :: (z.path ++ 10 :: sha256 z.body)) := by
    intro z
    simp [material, signingMaterial, standard]
  have hline : ∀ z : SignedParts, z.Valid (standard quote sha256 verify) bodies →
      (10 : UInt8) ∉ utf8 z.timestamp ∧ (10 : UInt8) ∉ utf8 z.method := by
    intro z hz
    obtain ⟨n, hn⟩ := hz.timestamp
    exact ⟨newline_notMem_of_parseInt hn,
      fun hmem => hz.method (newline_mem_of_utf8 hmem)⟩
  rw [hassoc, hassoc] at h
  obtain ⟨hts, hrest⟩ := append_sep_inj (hline x hx).1 (hline y hy).1 h
  obtain ⟨hmethod, hrest⟩ := append_sep_inj (hline x hx).2 (hline y hy).2 hrest
  -- the path may hold line ends, but the digest has a fixed length
  obtain ⟨hpath, hdigest⟩ := List.append_inj' hrest (by simp [hsize])
  have hbody := hinj hx.body hy.body (List.cons.inj hdigest).2
  cases x
  cases y
  simp_all [utf8_injective.eq_iff]

end SignedParts

/-! ## Accepted requests -/

structure Passes (c : Crypto) (now : Time) (r : HttpRequest) (k body sig : Bytes)
    (ts : BitVec 64) : Prop where
  headers : ¬ (r.timestamp = "" ∨ r.node = "" ∨ r.authorization = "")
  signature : ∃ text, trimScheme r.authorization = some text ∧
    c.base64Decode text = .ok sig
  node : c.base64Decode r.node = .ok k
  size : k.length = publicKeySize
  timestamp : c.parseInt r.timestamp = .ok ts
  fresh : stale (unix now) ts = false
  read : r.bodyErr = none
  whole : r.body = body
  verified : c.verify k (signingMaterial c r.timestamp r.method r.path body) sig =
    true

/-- A request is accepted when it passes every check. -/
theorem verifyRequest_eq_ok_iff {c : Crypto} {now : Time} {r : HttpRequest}
    {k body : Bytes} :
    verifyRequest c now r = .ok (k, body) ↔
      ∃ sig ts, Passes c now r k body sig ts := by
  simp only [verifyRequest, ite_throw_eq_ok, bind_eq_ok, mapError_eq_ok,
    elim_eq_ok, elim_throw_eq_ok, ne_eq, not_not]
  constructor
  · rintro ⟨hheaders, text, htext, sig, hsig, pub, hpub, hsize, ts, hts, hfresh,
      body', ⟨hread, hbody⟩, hverify, hpair⟩
    obtain ⟨rfl, rfl⟩ := Prod.mk.inj (Except.ok.inj hpair)
    exact ⟨sig, ts, hheaders, ⟨text, htext, hsig⟩, hpub, hsize, hts,
      by simpa using hfresh, hread, hbody, by simpa using hverify⟩
  · rintro ⟨sig, ts, h⟩
    obtain ⟨text, htext, hsig⟩ := h.signature
    exact ⟨h.headers, text, htext, sig, hsig, k, h.node, h.size, ts, h.timestamp,
      by simp [h.fresh], body, ⟨h.read, h.whole⟩, by simp [h.verified], rfl⟩

/-- The signature that the request presents is not forged: if it verifies for the parts of
the request, then the holder of the key has signed their material. -/
def NotForged (c : Crypto) (signed : Set SignedParts) (k : Bytes) (r : HttpRequest) :
    Prop :=
  ∀ text sig, trimScheme r.authorization = some text → c.base64Decode text = .ok sig →
    c.verify k (signingMaterial c r.timestamp r.method r.path r.body) sig = true →
    ∃ x ∈ signed, x.material c = signingMaterial c r.timestamp r.method r.path r.body

/-- Assume a hash of fixed length without collisions among the bodies in question. Then
the signed material determines timestamp, method, path and body; and when `VerifyRequest`
accepts a request for a key, and the signature is not forged, then the holder of the key
signed the timestamp, method, path and body of this request. -/
theorem accepted_was_signed (quote : String → String) {sha256 : Bytes → Bytes}
    (verify : Bytes → Bytes → Bytes → Bool)
    (hsize : ∀ b, (sha256 b).length = 32) {bodies : Set Bytes}
    (hinj : Set.InjOn sha256 bodies) :
    (∀ x y : SignedParts, x.Valid (standard quote sha256 verify) bodies →
      y.Valid (standard quote sha256 verify) bodies →
      x.material (standard quote sha256 verify) =
        y.material (standard quote sha256 verify) → x = y) ∧
    ∀ (now : Time) (r : HttpRequest) (k body : Bytes) (signed : Set SignedParts),
      (∀ x ∈ signed, x.Valid (standard quote sha256 verify) bodies) →
      NotForged (standard quote sha256 verify) signed k r →
      '\n' ∉ r.method.toList → body ∈ bodies →
      verifyRequest (standard quote sha256 verify) now r = .ok (k, body) →
      ⟨r.timestamp, r.method, r.path, body⟩ ∈ signed := by
  refine ⟨fun x y hx hy h => SignedParts.eq_of_material_eq hsize hinj hx hy h, ?_⟩
  intro now r k body signed hvalid hforged hmethod hbody hok
  obtain ⟨sig, ts, hpasses⟩ := verifyRequest_eq_ok_iff.1 hok
  obtain ⟨text, htext, hsig⟩ := hpasses.signature
  obtain rfl : r.body = body := hpasses.whole
  obtain ⟨x, hx, hmaterial⟩ := hforged text sig htext hsig hpasses.verified
  have hsame : x = ⟨r.timestamp, r.method, r.path, r.body⟩ :=
    SignedParts.eq_of_material_eq hsize hinj (hvalid x hx)
      ⟨⟨ts, hpasses.timestamp⟩, hmethod, hbody⟩ hmaterial
  rwa [← hsame]

/-! ## The window of the clock -/

theorem parseInt_of_decimal (quote : String → String) {s : String} {z : ℤ}
    (h : Decimal.parseInt 64 s.toList = .ok z) :
    parseInt quote s = .ok (BitVec.ofInt 64 z) := by
  rw [parseInt, h]
  rfl

theorem toInt_ofInt_of_decimal {cs : List Char} {z : ℤ}
    (h : Decimal.parseInt 64 cs = .ok z) : (BitVec.ofInt 64 z).toInt = z := by
  obtain ⟨hlow, hhigh⟩ := Decimal.range_of_parseInt h
  rw [BitVec.toInt_ofInt]
  exact Int.bmod_eq_of_le (by omega) (by omega)

/-- The request passes the checks before that of the clock, up to reading its
timestamp. -/
structure ReachesClock (c : Crypto) (r : HttpRequest) : Prop where
  headers : ¬ (r.timestamp = "" ∨ r.node = "" ∨ r.authorization = "")
  signature : ∃ text sig, trimScheme r.authorization = some text ∧
    c.base64Decode text = .ok sig
  node : ∃ k, c.base64Decode r.node = .ok k ∧ k.length = publicKeySize

/-- A request that reaches the check of the clock is refused as stale exactly when
the check says so. -/
theorem verifyRequest_ne_stale_iff {c : Crypto} {now : Time} {r : HttpRequest}
    {ts : BitVec 64} (h : ReachesClock c r)
    (hts : c.parseInt r.timestamp = .ok ts) :
    verifyRequest c now r ≠ .error .staleTimestamp ↔
      stale (unix now) ts = false := by
  obtain ⟨text, sig, htext, hsig⟩ := h.signature
  obtain ⟨k, hk, hsize⟩ := h.node
  simp only [verifyRequest, if_neg h.headers, htext, Option.elim_some, pure,
    Except.pure, hsig, hk, mapError_ok, bind, Except.bind, hsize, ne_eq,
    not_true_eq_false, if_false, hts]
  cases stale (unix now) ts with
  | true => simp [throw, throwThe, MonadExceptOf.throw]
  | false =>
      -- the checks that follow have errors of their own
      cases r.bodyErr with
      | some err => simp [throw, throwThe, MonadExceptOf.throw]
      | none =>
          simp only [Option.elim_none, Bool.false_eq_true, if_false]
          split <;> simp [throw, throwThe, MonadExceptOf.throw]

/-- A clock that reads a time in the lower half of its range lets a timestamp
through when it is within a minute, and also when it lies `2 ^ 63` seconds in the
past: both differences are then the least number, which is below every bound. -/
theorem stale_eq_false_iff {now ts : BitVec 64} (hpos : 0 ≤ now.toInt)
    (hmax : now.toInt < 2 ^ 62) :
    stale now ts = false ↔
      |now.toInt - ts.toInt| ≤ 60 ∨ ts.toInt = now.toInt - 2 ^ 63 := by
  have hskew : maxClockSkew / Time.second = 60 := by decide
  have hlo := BitVec.le_toInt ts
  have hhi := BitVec.toInt_lt (x := ts)
  rw [stale, hskew, BitVec.toInt_sub, BitVec.toInt_sub, abs_le]
  simp only [Bool.or_eq_false_iff, decide_eq_false_iff_not, not_lt, gt_iff_lt,
    Int.bmod_def]
  omega

/-! ## A signed request -/

def sampleSha256 (b : Bytes) : Bytes :=
  if b = Server.endpointsBody then Server.endpointsDigest
  else List.replicate 32 0

def sampleVerify (pub msg sig : Bytes) : Bool :=
  pub = Server.sampleNode ∧ sig = Server.sampleSig ∧
    msg = utf8 "0\nPOST\n/v1/endpoints\n" ++ Server.endpointsDigest

def sampleCrypto : Crypto := standard (fun s => s) sampleSha256 sampleVerify

def sampleParts : SignedParts where
  timestamp := "0"
  method := "POST"
  path := utf8 "/v1/endpoints"
  body := Server.endpointsBody

theorem length_sampleSha256 (b : Bytes) : (sampleSha256 b).length = 32 := by
  unfold sampleSha256
  split <;> decide +kernel

theorem notForged_endpointsRequest :
    NotForged sampleCrypto {sampleParts} Server.sampleNode Server.endpointsRequest := by
  rintro text sig - - hverify
  refine ⟨sampleParts, rfl, ?_⟩
  obtain ⟨-, -, hmsg⟩ := of_decide_eq_true hverify
  rw [hmsg]
  decide +kernel

/-- The request is accepted, so its parts are those that were signed. -/
theorem accepted_endpointsRequest :
    verifyRequest sampleCrypto Server.sampleNow Server.endpointsRequest =
        .ok (Server.sampleNode, Server.endpointsBody) ∧
      (⟨"0", "POST", utf8 "/v1/endpoints", Server.endpointsBody⟩ : SignedParts) ∈
        ({sampleParts} : Set SignedParts) := by
  have hok : verifyRequest sampleCrypto Server.sampleNow Server.endpointsRequest =
      .ok (Server.sampleNode, Server.endpointsBody) := by decide +kernel
  have hvalid : ∀ x ∈ ({sampleParts} : Set SignedParts),
      x.Valid sampleCrypto {Server.endpointsBody} := by
    rintro x rfl
    exact ⟨⟨0, by decide +kernel⟩, by decide +kernel, rfl⟩
  exact ⟨hok, (accepted_was_signed (fun s => s) sampleVerify length_sampleSha256
    (Set.injOn_singleton _ Server.endpointsBody)).2 Server.sampleNow
    Server.endpointsRequest Server.sampleNode Server.endpointsBody {sampleParts} hvalid
    notForged_endpointsRequest (by decide +kernel) rfl hok⟩

/-! ## A request from the far past -/

def lateNow : Time := (62135596800 + 1700000000) * Time.second

/-- Signed for a time `2 ^ 63` seconds before. -/
def farPastRequest : HttpRequest :=
  { Server.endpointsRequest with timestamp := "-9223372035154775808" }

def farPastVerify (pub msg sig : Bytes) : Bool :=
  pub = Server.sampleNode ∧ sig = Server.sampleSig ∧
    msg = utf8 "-9223372035154775808\nPOST\n/v1/endpoints\n" ++
      Server.endpointsDigest

/-- The window is exact but for one timestamp: for a server time between zero and
`2 ^ 62` seconds and a header that reads as the number `z`, the check lets the
request through if and only if the two are within a minute, precisely when `z` does
not lie `2 ^ 63` seconds before the server time. A request that reaches the check is
refused as stale exactly when it is not let through. -/
theorem window_exact_iff (quote : String → String) (sha256 : Bytes → Bytes)
    (verify : Bytes → Bytes → Bytes → Bool) (now : Time)
    (hpos : 0 ≤ (unix now).toInt) (hmax : (unix now).toInt < 2 ^ 62)
    (header : String) (z : ℤ) (hz : Decimal.parseInt 64 header.toList = .ok z) :
    ((stale (unix now) (BitVec.ofInt 64 z) = false ↔ |(unix now).toInt - z| ≤ 60) ↔
      z ≠ (unix now).toInt - 2 ^ 63) ∧
    ∀ r : HttpRequest, r.timestamp = header →
      ReachesClock (standard quote sha256 verify) r →
      (verifyRequest (standard quote sha256 verify) now r ≠
        .error .staleTimestamp ↔ stale (unix now) (BitVec.ofInt 64 z) = false) := by
  constructor
  · rw [stale_eq_false_iff hpos hmax, toInt_ofInt_of_decimal hz, abs_le]
    omega
  · rintro r rfl hr
    exact verifyRequest_ne_stale_iff hr (parseInt_of_decimal quote hz)

theorem sampleCrypto_reachesClock :
    ReachesClock sampleCrypto Server.endpointsRequest :=
  ⟨by decide +kernel, ⟨Server.sampleSigText, Server.sampleSig, by decide +kernel⟩,
    ⟨Server.sampleNode, by decide +kernel⟩⟩

/-- At the epoch a request with the timestamp `0` is in time. -/
theorem window_exact_at_epoch :
    (unix Server.sampleNow).toInt = 0 ∧
      ((stale (unix Server.sampleNow) (BitVec.ofInt 64 0) = false ↔
        |(unix Server.sampleNow).toInt - 0| ≤ 60) ↔
          (0 : ℤ) ≠ (unix Server.sampleNow).toInt - 2 ^ 63) ∧
      (verifyRequest sampleCrypto Server.sampleNow Server.endpointsRequest ≠
        .error .staleTimestamp ↔
          stale (unix Server.sampleNow) (BitVec.ofInt 64 0) = false) := by
  have h := window_exact_iff (fun s => s) sampleSha256 sampleVerify Server.sampleNow
    (by decide) (by decide) "0" 0 (by decide +kernel)
  exact ⟨by decide, h.1, h.2 Server.endpointsRequest rfl sampleCrypto_reachesClock⟩

/-- A request signed for a time `2 ^ 63` seconds before the server's is accepted. -/
theorem farPast_accepted :
    verifyRequest (standard (fun s => s) sampleSha256 farPastVerify) lateNow
        farPastRequest = .ok (Server.sampleNode, Server.endpointsBody) ∧
      Decimal.parseInt 64 farPastRequest.timestamp.toList =
        .ok (-9223372035154775808) ∧
      (unix lateNow).toInt = 1700000000 ∧
      ¬ |(unix lateNow).toInt - -9223372035154775808| ≤ 60 := by
  decide +kernel

end Coord

end Gretun
