import Gretun.Disco.Message

/-!
# Disco envelopes

On the wire an envelope is six bytes of magic, the public key of the sender in the
clear, a nonce, and the box that holds the body. Slices and array conversions that
Go checks at run time give `none` here when they are out of range, so a function
that never gives `none` never panics.

`nacl/box` and JSON are parameters. A box is sealed under a key that both sides
compute beforehand, each from its own private and the other's public key.
-/

namespace Gretun

namespace Disco

abbrev Nonce := Vector UInt8 24

structure DiscoKey where
  priv : Key
  pub : Key
  deriving DecidableEq

structure Box where
  Shared : Type
  /-- The public half of a private key. -/
  publicKey : Key → Key
  /-- `Precompute`: the other side's public key, the own private key. -/
  precompute : Key → Key → Shared
  sealAfterPrecomputation : Bytes → Nonce → Shared → Bytes
  openAfterPrecomputation : Bytes → Nonce → Shared → Option Bytes

structure Json where
  marshal : Body → Except String Bytes
  unmarshal : Bytes → Except String Body

/-! ## Slices -/

def slice (buf : Bytes) (lo hi : ℕ) : Option Bytes :=
  if lo ≤ hi ∧ hi ≤ buf.length then some ((buf.take hi).drop lo) else none

/-- `[n]byte(b)`. -/
def toArray (n : ℕ) (b : Bytes) : Option (Vector UInt8 n) :=
  if h : n ≤ b.length then some ⟨(b.take n).toArray, by simpa using h⟩ else none

/-- `copy(dst[:], b)` into a zero array. -/
def copyArray (n : ℕ) (b : Bytes) : Vector UInt8 n :=
  Vector.ofFn fun i => b.getD i 0

/-! ## Sealing -/

def Box.sealTo (x : Box) (out message : Bytes) (nonce : Nonce)
    (peersPublicKey privateKey : Key) : Bytes :=
  out ++ x.sealAfterPrecomputation message nonce
    (x.precompute peersPublicKey privateKey)

def Box.openBox (x : Box) (box : Bytes) (nonce : Nonce)
    (peersPublicKey privateKey : Key) : Option Bytes :=
  x.openAfterPrecomputation box nonce (x.precompute peersPublicKey privateKey)

/-- `Seal`; `rand` is what the random source gives. -/
def sealBody (x : Box) (rand : Except String Nonce) (plaintext : Bytes)
    (recipient : Key) (sender : DiscoKey) : Except String Bytes := do
  let nonce ← rand
  return x.sealTo nonce.toList plaintext nonce recipient sender.priv

def openBody (x : Box) (sealedBody : Bytes) (sender : Key) (recipient : DiscoKey) :
    Option (Option Bytes) :=
  if sealedBody.length < 24 then some none
  else do
    let nonce ← slice sealedBody 0 24
    let box ← slice sealedBody 24 sealedBody.length
    return x.openBox box (copyArray 24 nonce) sender recipient.priv

/-! ## Envelopes -/

def magic : Vector UInt8 6 := #v[84, 83, 0xf0, 0x9f, 0x92, 0xac]

def magicLen : ℕ := 6

def pubkeyLen : ℕ := 32

def envelopeMin : ℕ := magicLen + pubkeyLen + 24

inductive EnvelopeError where
  | tooShort (n : ℕ)
  | badMagic
  | decryptFailed
  | json (err : String)
  deriving DecidableEq

def EnvelopeError.text : EnvelopeError → String
  | tooShort n => s!"envelope too short ({n} bytes)"
  | badMagic => "envelope: bad magic"
  | decryptFailed => "envelope: decrypt failed"
  | json err => err

def zeroKey : Key := Vector.replicate 32 0

def zeroBody : Body := { type := .other "" }

def buildEnvelope (x : Box) (j : Json) (rand : Except String Nonce)
    (sender : DiscoKey) (recipient : Key) (body : Body) : Except String Bytes := do
  let plaintext ← j.marshal body
  let sealedBody ← sealBody x rand plaintext recipient sender
  return magic.toList ++ sender.pub.toList ++ sealedBody

/-- `ParseEnvelope`: sender, sealed body and error. -/
def parseEnvelope (buf : Bytes) : Option (Key × Bytes × Option EnvelopeError) :=
  if buf.length < envelopeMin then
    some (zeroKey, [], some (.tooShort buf.length))
  else do
    let m ← slice buf 0 magicLen
    let m ← toArray 6 m
    if m ≠ magic then return (zeroKey, [], some .badMagic)
    let sender ← slice buf magicLen (magicLen + pubkeyLen)
    let sealedBody ← slice buf (magicLen + pubkeyLen) buf.length
    return (copyArray 32 sender, sealedBody, none)

/-- `UnmarshalBody`: a body that cannot be decoded is the zero one. -/
def unmarshalBody (j : Json) (raw : Bytes) : Body × Option EnvelopeError :=
  match j.unmarshal raw with
  | .ok body => (body, none)
  | .error err => (zeroBody, some (.json err))

def openEnvelope (x : Box) (j : Json) (buf : Bytes) (recipient : DiscoKey) :
    Option (Key × Body × Option EnvelopeError) := do
  let (sender, sealedBody, err) ← parseEnvelope buf
  match err with
  | some err => return (sender, zeroBody, some err)
  | none =>
      match ← openBody x sealedBody sender recipient with
      | none => return (sender, zeroBody, some .decryptFailed)
      | some plain => return (sender, unmarshalBody j plain)

/-! ## What the slices are -/

theorem slice_eq_some {buf : Bytes} {lo hi : ℕ} (hlo : lo ≤ hi)
    (hhi : hi ≤ buf.length) :
    slice buf lo hi = some ((buf.take hi).drop lo) := if_pos ⟨hlo, hhi⟩

theorem toArray_toList {n : ℕ} (v : Vector UInt8 n) :
    toArray n v.toList = some v := by
  have h : n ≤ v.toList.length := by simp
  rw [toArray, dif_pos h, Option.some_inj, ← Vector.toList_inj]
  simp

theorem toList_copyArray {n : ℕ} {b : Bytes} (h : b.length = n) :
    (copyArray n b).toList = b := by
  subst h
  refine List.ext_getElem (by simp) fun i hi hi' => ?_
  simp [copyArray]

theorem copyArray_toList {n : ℕ} (v : Vector UInt8 n) :
    copyArray n v.toList = v :=
  Vector.toList_inj.1 (toList_copyArray (by simp))

/-! ## What is parsed and opened -/

theorem openBody_append (x : Box) (nonce : Nonce) (box : Bytes) (sender : Key)
    (recipient : DiscoKey) :
    openBody x (nonce.toList ++ box) sender recipient =
      some (x.openBox box nonce sender recipient.priv) := by
  have hlen : (nonce.toList ++ box).length = 24 + box.length := by simp
  have hnonce : slice (nonce.toList ++ box) 0 24 = some nonce.toList := by
    rw [slice_eq_some (by omega) (by omega)]
    simp
  have hbox :
      slice (nonce.toList ++ box) 24 (nonce.toList ++ box).length = some box := by
    rw [slice_eq_some (by omega) le_rfl, List.take_length]
    simp
  unfold openBody
  rw [if_neg (by omega), hnonce, hbox]
  simp [copyArray_toList]

theorem openBody_of_short (x : Box) {sealedBody : Bytes} (sender : Key)
    (recipient : DiscoKey) (h : sealedBody.length < 24) :
    openBody x sealedBody sender recipient = some none := if_pos h

/-- What is long enough to be sealed is a nonce and a box. -/
theorem exists_nonce {sealedBody : Bytes} (h : 24 ≤ sealedBody.length) :
    ∃ (nonce : Nonce) (box : Bytes), sealedBody = nonce.toList ++ box := by
  refine ⟨copyArray 24 (sealedBody.take 24), sealedBody.drop 24, ?_⟩
  rw [toList_copyArray (by simpa using h), List.take_append_drop]

theorem isSome_openBody (x : Box) (sealedBody : Bytes) (sender : Key)
    (recipient : DiscoKey) : (openBody x sealedBody sender recipient).isSome := by
  rcases Nat.lt_or_ge sealedBody.length 24 with h | h
  · rw [openBody_of_short x sender recipient h]
    rfl
  · obtain ⟨nonce, box, rfl⟩ := exists_nonce h
    rw [openBody_append]
    rfl

theorem exists_fields {buf : Bytes} (h : envelopeMin ≤ buf.length) :
    ∃ (m : Vector UInt8 6) (sender : Key) (sealedBody : Bytes),
      buf = m.toList ++ sender.toList ++ sealedBody ∧ 24 ≤ sealedBody.length := by
  have hmin : envelopeMin = 62 := rfl
  refine ⟨copyArray 6 (buf.take 6), copyArray 32 ((buf.drop 6).take 32),
    buf.drop 38, ?_, by rw [List.length_drop]; omega⟩
  have hm : (buf.take 6).length = 6 := by rw [List.length_take]; omega
  have hsender : ((buf.drop 6).take 32).length = 32 := by
    rw [List.length_take, List.length_drop]
    omega
  rw [toList_copyArray hm, toList_copyArray hsender, List.append_assoc]
  have hdrop : buf.drop 38 = (buf.drop 6).drop 32 := by rw [List.drop_drop]
  rw [hdrop, List.take_append_drop, List.take_append_drop]

theorem parseEnvelope_of_short {buf : Bytes} (h : buf.length < envelopeMin) :
    parseEnvelope buf = some (zeroKey, [], some (.tooShort buf.length)) := if_pos h

theorem parseEnvelope_append (m : Vector UInt8 6) (sender : Key)
    {sealedBody : Bytes} (h : 24 ≤ sealedBody.length) :
    parseEnvelope (m.toList ++ sender.toList ++ sealedBody) =
      some (if m ≠ magic then (zeroKey, [], some .badMagic)
        else (sender, sealedBody, none)) := by
  have hlen : (m.toList ++ sender.toList ++ sealedBody).length =
      38 + sealedBody.length := by
    simp only [List.length_append, Vector.length_toList]
  have hmin : envelopeMin = 62 := rfl
  have hm : slice (m.toList ++ sender.toList ++ sealedBody) 0 magicLen =
      some m.toList := by
    rw [slice_eq_some (Nat.zero_le _) (by rw [hlen, magicLen]; omega)]
    simp [magicLen]
  have hsender : slice (m.toList ++ sender.toList ++ sealedBody) magicLen
      (magicLen + pubkeyLen) = some sender.toList := by
    rw [slice_eq_some (by simp)
      (by rw [hlen, magicLen, pubkeyLen]; omega)]
    simp [magicLen, pubkeyLen, List.take_append]
  have hsealed : slice (m.toList ++ sender.toList ++ sealedBody)
      (magicLen + pubkeyLen) (m.toList ++ sender.toList ++ sealedBody).length =
      some sealedBody := by
    rw [slice_eq_some (by rw [hlen, magicLen, pubkeyLen]; omega) le_rfl,
      List.take_length, List.drop_left' (by simp [magicLen, pubkeyLen])]
  unfold parseEnvelope
  rw [if_neg (by omega), hm, hsender, hsealed]
  by_cases hne : m ≠ magic
  · simp [toArray_toList, hne]
  · simp [toArray_toList, not_not.1 hne, copyArray_toList]

theorem parseEnvelope_eq {buf : Bytes} {sender : Key} {sealedBody : Bytes} :
    parseEnvelope buf = some (sender, sealedBody, none) ↔
      magic.toList ++ sender.toList ++ sealedBody = buf ∧
        24 ≤ sealedBody.length := by
  constructor
  · intro h
    rcases Nat.lt_or_ge buf.length envelopeMin with hlen | hlen
    · rw [parseEnvelope_of_short hlen] at h
      simp at h
    · obtain ⟨m, key, rest, rfl, hrest⟩ := exists_fields hlen
      rw [parseEnvelope_append m key hrest] at h
      by_cases hm : m = magic
      · simp only [hm, ne_eq, not_true_eq_false, if_false, Option.some_inj,
          Prod.mk.injEq, and_true] at h
        obtain ⟨rfl, rfl⟩ := h
        exact ⟨by rw [hm], hrest⟩
      · simp [hm] at h
  · rintro ⟨rfl, hlen⟩
    rw [parseEnvelope_append magic sender hlen, if_neg (by simp)]

theorem isSome_parseEnvelope (buf : Bytes) : (parseEnvelope buf).isSome := by
  rcases Nat.lt_or_ge buf.length envelopeMin with hlen | hlen
  · rw [parseEnvelope_of_short hlen]
    rfl
  · obtain ⟨m, key, rest, rfl, hrest⟩ := exists_fields hlen
    rw [parseEnvelope_append m key hrest]
    rfl

theorem exists_parseEnvelope_iff (buf : Bytes) :
    (∃ sender sealedBody, parseEnvelope buf = some (sender, sealedBody, none)) ↔
      62 ≤ buf.length ∧ buf.take 6 = magic.toList := by
  constructor
  · rintro ⟨sender, sealedBody, h⟩
    obtain ⟨rfl, hlen⟩ := parseEnvelope_eq.1 h
    constructor
    · simp only [List.length_append, Vector.length_toList]
      omega
    · rw [List.append_assoc, List.take_left' (by simp)]
  · rintro ⟨hlen, hmagic⟩
    have hmin : envelopeMin ≤ buf.length := hlen
    obtain ⟨m, key, rest, rfl, hrest⟩ := exists_fields hmin
    rw [List.append_assoc, List.take_left' (by simp)] at hmagic
    exact ⟨key, rest, parseEnvelope_eq.2 ⟨by rw [hmagic], hrest⟩⟩

/-- Whether a box opens, and what is then decoded, decides what is returned. -/
theorem openEnvelope_append (x : Box) (j : Json) (sender : Key) (nonce : Nonce)
    (box : Bytes) (recipient : DiscoKey) :
    openEnvelope x j (magic.toList ++ sender.toList ++ (nonce.toList ++ box))
        recipient =
      some ((x.openBox box nonce sender recipient.priv).elim
        (sender, zeroBody, some .decryptFailed)
        fun plain => (sender, unmarshalBody j plain)) := by
  have hlen : 24 ≤ (nonce.toList ++ box).length := by simp
  have hparse := parseEnvelope_eq.2 ⟨Eq.refl (magic.toList ++ sender.toList ++ _), hlen⟩
  simp only [openEnvelope, hparse, Option.bind_eq_bind, Option.bind_some,
    openBody_append]
  cases x.openBox box nonce sender recipient.priv <;> rfl

/-- What is opened without an error is a header with the sender, a box that opens for
it and the text of a body. -/
theorem openEnvelope_eq {x : Box} {j : Json} {buf : Bytes} {recipient : DiscoKey}
    {sender : Key} {body : Body} :
    openEnvelope x j buf recipient = some (sender, body, none) ↔
      ∃ (nonce : Nonce) (box plain : Bytes),
        buf = magic.toList ++ sender.toList ++ (nonce.toList ++ box) ∧
        x.openBox box nonce sender recipient.priv = some plain ∧
        j.unmarshal plain = .ok body := by
  constructor
  · intro h
    have hparse : ∃ sealedBody, parseEnvelope buf = some (sender, sealedBody, none) := by
      obtain ⟨⟨key, sealedBody, err⟩, hparse⟩ :=
        Option.isSome_iff_exists.1 (isSome_parseEnvelope buf)
      cases err with
      | some err => simp [openEnvelope, hparse] at h
      | none =>
          obtain ⟨plain, hplain⟩ :=
            Option.isSome_iff_exists.1 (isSome_openBody x sealedBody key recipient)
          cases plain <;> simp [openEnvelope, hparse, hplain] at h
          exact ⟨sealedBody, by rw [hparse, h.1]⟩
    obtain ⟨sealedBody, hparse⟩ := hparse
    obtain ⟨rfl, hlen⟩ := parseEnvelope_eq.1 hparse
    obtain ⟨nonce, box, rfl⟩ := exists_nonce hlen
    rw [openEnvelope_append] at h
    cases hopen : x.openBox box nonce sender recipient.priv with
    | none => simp [hopen] at h
    | some plain =>
        cases hbody : j.unmarshal plain <;> simp [hopen, unmarshalBody, hbody] at h
        exact ⟨nonce, box, plain, rfl, hopen, by rw [hbody, h]⟩
  · rintro ⟨nonce, box, plain, rfl, hopen, hbody⟩
    rw [openEnvelope_append, hopen]
    simp [unmarshalBody, hbody]

theorem isSome_openEnvelope (x : Box) (j : Json) (buf : Bytes)
    (recipient : DiscoKey) : (openEnvelope x j buf recipient).isSome := by
  obtain ⟨⟨sender, sealedBody, err⟩, hparse⟩ :=
    Option.isSome_iff_exists.1 (isSome_parseEnvelope buf)
  obtain ⟨plain, hplain⟩ :=
    Option.isSome_iff_exists.1 (isSome_openBody x sealedBody sender recipient)
  simp only [openEnvelope, hparse, Option.bind_eq_bind, Option.bind_some]
  cases err with
  | some err => rfl
  | none =>
      simp only [hplain, Option.bind_some]
      cases plain <;> rfl

/-! ## Round trip -/

/-- A key pair, as `GenerateDiscoKey` makes it. -/
def Box.IsPair (x : Box) (k : DiscoKey) : Prop :=
  k.pub = x.publicKey k.priv

def Box.Inverts (x : Box) : Prop :=
  ∀ (sender recipient : DiscoKey) (message : Bytes) (nonce : Nonce),
    x.IsPair sender → x.IsPair recipient →
      x.openBox (x.sealTo [] message nonce recipient.pub sender.priv) nonce
        sender.pub recipient.priv = some message

def Json.Inverts (j : Json) (body : Body) : Prop :=
  ∃ raw, j.marshal body = .ok raw ∧ j.unmarshal raw = .ok body

theorem buildEnvelope_ok (x : Box) {j : Json} {body : Body} {raw : Bytes}
    (hraw : j.marshal body = .ok raw) (nonce : Nonce) (sender : DiscoKey)
    (recipient : Key) :
    buildEnvelope x j (.ok nonce) sender recipient body =
      .ok (magic.toList ++ sender.pub.toList ++
        (nonce.toList ++ x.sealTo [] raw nonce recipient sender.priv)) := by
  simp [buildEnvelope, hraw, sealBody, Box.sealTo, bind, Except.bind, pure,
    Except.pure]

theorem openEnvelope_buildEnvelope {x : Box} {j : Json} (hbox : x.Inverts)
    {sender recipient : DiscoKey} (hsender : x.IsPair sender)
    (hrecipient : x.IsPair recipient) (nonce : Nonce) {body : Body}
    (hjson : j.Inverts body) :
    ∃ env, buildEnvelope x j (.ok nonce) sender recipient.pub body = .ok env ∧
      openEnvelope x j env recipient = some (sender.pub, body, none) := by
  obtain ⟨raw, hraw, hbody⟩ := hjson
  refine ⟨_, buildEnvelope_ok x hraw nonce sender recipient.pub, ?_⟩
  rw [openEnvelope_append, hbox sender recipient raw nonce hsender hrecipient]
  simp [unmarshalBody, hbody]

/-- The codec, both ways. What is built is opened again. A buffer is parsed exactly
when it is long enough and starts with the magic, and is then the fields in order.
No buffer makes parsing or opening panic, and what is parsed is long enough for
`Open`. -/
theorem envelope_codec (x : Box) (j : Json) (hbox : x.Inverts) :
    (∀ (sender recipient : DiscoKey) (nonce : Nonce) (body : Body),
      x.IsPair sender → x.IsPair recipient → j.Inverts body →
        ∃ env, buildEnvelope x j (.ok nonce) sender recipient.pub body = .ok env ∧
          openEnvelope x j env recipient = some (sender.pub, body, none)) ∧
    (∀ buf, (∃ sender sealedBody,
        parseEnvelope buf = some (sender, sealedBody, none)) ↔
      62 ≤ buf.length ∧ buf.take 6 = magic.toList) ∧
    (∀ buf sender sealedBody, parseEnvelope buf = some (sender, sealedBody, none) →
      magic.toList ++ sender.toList ++ sealedBody = buf ∧
        ¬ sealedBody.length < 24) ∧
    (∀ buf recipient, (openEnvelope x j buf recipient).isSome) ∧
    ∀ sealedBody sender recipient,
      (openBody x sealedBody sender recipient).isSome := by
  refine ⟨?_, exists_parseEnvelope_iff, ?_, isSome_openEnvelope x j,
    isSome_openBody x⟩
  · intro sender recipient nonce body hsender hrecipient hjson
    exact openEnvelope_buildEnvelope hbox hsender hrecipient nonce hjson
  · intro buf sender sealedBody h
    obtain ⟨hbuf, hlen⟩ := parseEnvelope_eq.1 h
    exact ⟨hbuf, hlen.not_gt⟩

/-! ## A symbolic box -/

/-- What `nacl/box` is assumed to do: a box opens exactly under the nonce and the key
it was sealed with, both sides of a pair compute the same key, and different pairs
different ones. -/
structure Box.Symbolic (x : Box) : Prop where
  open_seal : ∀ message nonce k,
    x.openAfterPrecomputation (x.sealAfterPrecomputation message nonce k) nonce k =
      some message
  eq_of_open : ∀ message nonce k plain nonce' k',
    x.openAfterPrecomputation (x.sealAfterPrecomputation message nonce k) nonce' k' =
      some plain → nonce' = nonce ∧ k' = k
  precompute_comm : ∀ a b,
    x.precompute (x.publicKey a) b = x.precompute (x.publicKey b) a
  pair_of_precompute : ∀ p a q b, x.precompute p a = x.precompute q b →
    (p = q ∧ x.publicKey a = x.publicKey b) ∨ (p = x.publicKey b ∧ x.publicKey a = q)

theorem Box.Symbolic.inverts {x : Box} (hx : x.Symbolic) : x.Inverts := by
  intro sender recipient message nonce hsender hrecipient
  rw [Box.openBox, Box.sealTo, List.nil_append, hsender, hrecipient,
    hx.precompute_comm, hx.open_seal]

theorem Box.Symbolic.openBox_eq_some_iff {x : Box} (hx : x.Symbolic)
    {recipient sender a n : Key} {nonce : Nonce} {raw plain : Bytes} :
    x.openBox (x.sealTo [] raw nonce recipient a) nonce sender n = some plain ↔
      plain = raw ∧ x.precompute sender n = x.precompute recipient a := by
  rw [Box.openBox, Box.sealTo, List.nil_append]
  constructor
  · intro h
    obtain ⟨-, hkey⟩ := hx.eq_of_open _ _ _ _ _ _ h
    rw [hkey, hx.open_seal] at h
    exact ⟨(Option.some_inj.1 h).symm, hkey⟩
  · rintro ⟨rfl, hkey⟩
    rw [hkey, hx.open_seal]

def orderedPair (p q : Key) : Key × Key :=
  if p.toList ≤ q.toList then (p, q) else (q, p)

theorem orderedPair_comm (p q : Key) : orderedPair p q = orderedPair q p := by
  rcases List.le_total p.toList q.toList with h | h
  · by_cases h' : q.toList ≤ p.toList
    · rw [Vector.toList_inj.1 (List.le_antisymm h h')]
    · rw [orderedPair, if_pos h, orderedPair, if_neg h']
  · by_cases h' : p.toList ≤ q.toList
    · rw [Vector.toList_inj.1 (List.le_antisymm h h')]
    · rw [orderedPair, if_neg h', orderedPair, if_pos h]

theorem orderedPair_eq {p q p' q' : Key} (h : orderedPair p q = orderedPair p' q') :
    (p = p' ∧ q = q') ∨ (p = q' ∧ q = p') := by
  unfold orderedPair at h
  split at h <;> split at h <;> simp only [Prod.mk.injEq] at h <;> tauto

def sampleHeader (nonce : Nonce) (k : Key × Key) : Bytes :=
  nonce.toList ++ k.1.toList ++ k.2.toList

theorem sampleHeader_inj {nonce nonce' : Nonce} {k k' : Key × Key}
    (h : sampleHeader nonce k = sampleHeader nonce' k') : nonce = nonce' ∧ k = k' := by
  obtain ⟨h, hsnd⟩ := List.append_inj h (by simp)
  obtain ⟨hnonce, hfst⟩ := List.append_inj h (by simp)
  exact ⟨Vector.toList_inj.1 hnonce,
    Prod.ext (Vector.toList_inj.1 hfst) (Vector.toList_inj.1 hsnd)⟩

/-- A box in the clear, labelled with the nonce and the pair it is for. -/
def sampleBox : Box where
  Shared := Key × Key
  publicKey k := k
  precompute p a := orderedPair p a
  sealAfterPrecomputation message nonce k := sampleHeader nonce k ++ message
  openAfterPrecomputation box nonce k :=
    if box.take 88 = sampleHeader nonce k then some (box.drop 88) else none

theorem sampleBox_symbolic : sampleBox.Symbolic where
  open_seal message nonce k := by
    have hlen : (sampleHeader nonce k).length = 88 := by simp [sampleHeader]
    simp [sampleBox, List.take_left' hlen, List.drop_left' hlen]
  eq_of_open message nonce k plain nonce' k' h := by
    have hlen : (sampleHeader nonce k).length = 88 := by simp [sampleHeader]
    by_cases heq : sampleHeader nonce k = sampleHeader nonce' k'
    · obtain ⟨rfl, rfl⟩ := sampleHeader_inj heq
      exact ⟨rfl, rfl⟩
    · simp [sampleBox, List.take_left' hlen, heq] at h
  precompute_comm a b := orderedPair_comm a b
  pair_of_precompute p a q b h := orderedPair_eq h

def sampleBody : Body := { type := .pong, tx := "x" }

def sampleText : Bytes := "\x7b\"type\":\"pong\",\"tx\":\"x\"\x7d".toUTF8.toList

def sampleJson : Json where
  marshal body := if body = sampleBody then .ok sampleText else .error "unsupported"
  unmarshal raw := if raw = sampleText then .ok sampleBody else .error "unsupported"

theorem marshal_sampleBody : sampleJson.marshal sampleBody = .ok sampleText := by
  simp [sampleJson]

theorem sampleJson_inverts : sampleJson.Inverts sampleBody :=
  ⟨sampleText, marshal_sampleBody, by simp [sampleJson]⟩

def sampleKey (b : UInt8) : DiscoKey where
  priv := Vector.replicate 32 b
  pub := Vector.replicate 32 b

theorem isPair_sampleKey (b : UInt8) : sampleBox.IsPair (sampleKey b) := rfl

/-- One node's pong to another is built, parsed and opened. -/
theorem envelope_codec_of_pong :
    sampleBox.Inverts ∧
      ∃ env, buildEnvelope sampleBox sampleJson (.ok (Vector.replicate 24 7))
          (sampleKey 1) (sampleKey 2).pub sampleBody = .ok env ∧
        openEnvelope sampleBox sampleJson env (sampleKey 2) =
          some ((sampleKey 1).pub, sampleBody, none) :=
  ⟨sampleBox_symbolic.inverts,
    (envelope_codec sampleBox sampleJson sampleBox_symbolic.inverts).1 (sampleKey 1)
      (sampleKey 2) (Vector.replicate 24 7) sampleBody (isPair_sampleKey 1)
      (isPair_sampleKey 2) sampleJson_inverts⟩

end Disco

end Gretun
