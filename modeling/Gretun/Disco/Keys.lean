import Gretun.Coord.Serve
import Gretun.Disco.Client
import Gretun.Disco.Envelope
import Gretun.Foundation.Command
import Gretun.Foundation.Run
import Gretun.Net.Json

/-!
# The keys of a node

`LoadOrCreateKeys` as a program of system calls on the file `keys.json`. A start of the
node reads the file, or makes keys and writes them. Any call may fail, and a write that
fails may leave the beginning of the text behind. The file is written at most once: what
a start returns is what the file says from then on, so that all starts that succeed
return the same keys, and the coordinator gives the node the same address each time.
-/

namespace Gretun

namespace Disco

open Foundation.Command
open Foundation.Run
open Foundation.Tagged
open Foundation.Tagged.Doc
open Gretun.Net
open Gretun.Coord

/-! ## The file -/

def privateKeySize : ℕ := 64

structure Persisted where
  nodePriv : String
  nodePub : String
  discoPriv : String
  discoPub : String
  deriving DecidableEq

namespace Persisted

def toJson (p : Persisted) : JsonValue :=
  obj [("node_priv", JsonValue.text p.nodePriv), ("node_pub", JsonValue.text p.nodePub),
    ("disco_priv", JsonValue.text p.discoPriv), ("disco_pub", JsonValue.text p.discoPub)]

def ofJson (v : JsonValue) : Option Persisted := do
  let fs ← v.fields
  let nodePriv ← readField fs "node_priv" "" JsonValue.readText
  let nodePub ← readField fs "node_pub" "" JsonValue.readText
  let discoPriv ← readField fs "disco_priv" "" JsonValue.readText
  let discoPub ← readField fs "disco_pub" "" JsonValue.readText
  return {
    nodePriv := nodePriv
    nodePub := nodePub
    discoPriv := discoPriv
    discoPub := discoPub }

theorem ofJson_toJson (p : Persisted) : ofJson p.toJson = some p := by
  simp [ofJson, toJson, readField, List.lookup_cons]

end Persisted

inductive KeyError where
  | os (err : String)
  | generate (err : String)
  | decode (path : String)
  | nodePriv (err : String)
  | nodePub (err : String)
  | nodeSizes
  | discoPriv (err : String)
  | discoPub (err : String)
  | discoSizes
  deriving DecidableEq

def nodeKeyFromPersisted (p : Persisted) : Except KeyError NodeKey := do
  let priv ← (decodeString p.nodePriv).mapError .nodePriv
  let pub ← (decodeString p.nodePub).mapError .nodePub
  if h : priv.length ≠ privateKeySize ∨ pub.length ≠ publicKeySize then
    throw .nodeSizes
  else
    return { priv := priv, pub := pub, size := not_not.1 (not_or.1 h).2 }

def discoKeyFromPersisted (p : Persisted) : Except KeyError DiscoKey := do
  let priv ← (decodeString p.discoPriv).mapError .discoPriv
  let pub ← (decodeString p.discoPub).mapError .discoPub
  if priv.length ≠ 32 ∨ pub.length ≠ 32 then throw .discoSizes
  else return { priv := copyArray 32 priv, pub := copyArray 32 pub }

/-- What `LoadOrCreateKeys` makes of the file that it read. -/
def load (json : JsonLibrary) (path : String) (b : Bytes) :
    Except KeyError (NodeKey × DiscoKey) := do
  let p ← ((json.unmarshal b).bind Persisted.ofJson).elim (throw (.decode path)) pure
  let nk ← nodeKeyFromPersisted p
  let dk ← discoKeyFromPersisted p
  return (nk, dk)

def persist (nk : NodeKey) (dk : DiscoKey) : Persisted where
  nodePriv := encodeToString nk.priv
  nodePub := encodeToString nk.pub
  discoPriv := encodeToString dk.priv.toList
  discoPub := encodeToString dk.pub.toList

theorem load_persist (json : JsonLibrary) (path : String) {nk : NodeKey}
    (hpriv : nk.priv.length = privateKeySize) (dk : DiscoKey) :
    load json path (json.marshal (persist nk dk).toJson) = .ok (nk, dk) := by
  have hnode : nodeKeyFromPersisted (persist nk dk) = .ok nk := by
    simp [nodeKeyFromPersisted, persist, decodeString_encodeToString, Except.mapError,
      bind, Except.bind, hpriv, nk.size, pure, Except.pure]
  have hdisco : discoKeyFromPersisted (persist nk dk) = .ok dk := by
    simp [discoKeyFromPersisted, persist, decodeString_encodeToString, Except.mapError,
      bind, Except.bind, copyArray_toList, pure, Except.pure]
  simp [load, json.unmarshal_marshal, Persisted.ofJson_toJson, hnode, hdisco, bind,
    Except.bind, pure, Except.pure]

/-! ## A start -/

inductive KeyCall where
  | mkdirAll
  | readFile
  | generateNodeKey
  | generateDiscoKey
  | writeFile (buf : Bytes)

/-- What `os.ReadFile` fails with, as far as `os.IsNotExist` tells. -/
inductive ReadError where
  | notExist
  | other (err : String)

abbrev FreshNodeKey := { nk : NodeKey // nk.priv.length = privateKeySize }

abbrev KeyCall.Resp : KeyCall → Type
  | mkdirAll => Except String Unit
  | readFile => Except ReadError Bytes
  | generateNodeKey => Except String FreshNodeKey
  | generateDiscoKey => Except String DiscoKey
  | writeFile _ => Except String Unit

/-- `LoadOrCreateKeys`; `json.marshal` is `json.MarshalIndent`. -/
def loadOrCreateKeys (json : JsonLibrary) (path : String) :
    Prog KeyCall KeyCall.Resp (Except KeyError (NodeKey × DiscoKey)) := do
  match ← Prog.perform KeyCall.mkdirAll with
  | .error e => return .error (.os e)
  | .ok () => match ← Prog.perform KeyCall.readFile with
    | .ok b => return load json path b
    | .error (.other e) => return .error (.os e)
    | .error .notExist => match ← Prog.perform KeyCall.generateNodeKey with
      | .error e => return .error (.generate e)
      | .ok nk => match ← Prog.perform KeyCall.generateDiscoKey with
        | .error e => return .error (.generate e)
        | .ok dk =>
            let buf := json.marshal (persist nk dk).toJson
            match ← Prog.perform (KeyCall.writeFile buf) with
            | .error e => return .error (.os e)
            | .ok () => return .ok (nk, dk)

/-- What the environment decides about a call: the error it fails with, the bytes that
a failing write leaves in the file, if it got to open it, and the keys that are made. -/
structure KeyDecision where
  err : Option String := none
  torn : Option ℕ := none
  node : FreshNodeKey
  disco : DiscoKey

def keyHandle (d : KeyDecision) : (c : KeyCall) → Option Bytes → c.Resp × Option Bytes
  | .mkdirAll, file => (d.err.elim (.ok ()) .error, file)
  | .readFile, file =>
      (match d.err, file with
        | some e, _ => .error (.other e)
        | none, none => .error .notExist
        | none, some b => .ok b, file)
  | .generateNodeKey, file => (d.err.elim (.ok d.node) .error, file)
  | .generateDiscoKey, file => (d.err.elim (.ok d.disco) .error, file)
  | .writeFile buf, file => match d.err with
    | none => (.ok (), some buf)
    | some e => (.error e, d.torn.elim file fun n => some (buf.take n))

abbrev Start := ℕ → KeyCall → KeyDecision

section Starts

variable (json : JsonLibrary) (path : String)

def returns (file : Option Bytes) (ω : Start) : Except KeyError (NodeKey × DiscoKey) :=
  ((loadOrCreateKeys json path).run keyHandle ω file).1

def leaves (file : Option Bytes) (ω : Start) : Option Bytes :=
  ((loadOrCreateKeys json path).run keyHandle ω file).2

def unreadable (ω : Start) : Option String :=
  (ω 0 .mkdirAll).err <|> (ω 1 .readFile).err

/-- A file that exists is read, and not touched. -/
theorem start_of_file (b : Bytes) (ω : Start) :
    returns json path (some b) ω =
        (unreadable ω).elim (load json path b) (fun e => .error (.os e)) ∧
      leaves json path (some b) ω = some b := by
  simp only [returns, leaves, loadOrCreateKeys, Prog.perform_bind, Prog.run, keyHandle,
    unreadable]
  cases (ω 0 .mkdirAll).err with
  | some e => exact ⟨rfl, rfl⟩
  | none =>
      simp only [Option.elim_none, Prog.run, keyHandle, Nat.zero_add]
      cases (ω 1 .readFile).err with
      | some e => exact ⟨rfl, rfl⟩
      | none => exact ⟨rfl, rfl⟩

/-- A result is backed by the file when the file says the same. -/
def Backed (r : Except KeyError (NodeKey × DiscoKey)) (file : Option Bytes) : Prop :=
  ∀ keys, r = .ok keys → ∃ b, file = some b ∧ load json path b = .ok keys

theorem backed_error (e : KeyError) (file : Option Bytes) :
    Backed json path (.error e) file := by
  intro keys h
  cases h

/-- Without a file, a start that returns keys has written them. -/
theorem wp_loadOrCreateKeys :
    Prog.wp keyHandle (fun _ _ => True) (loadOrCreateKeys json path) (Backed json path)
      none := by
  rw [loadOrCreateKeys, Prog.perform_bind, Prog.wp_call]
  intro mkdir _
  simp only [keyHandle]
  cases mkdir.err with
  | some e => exact backed_error json path _ _
  | none =>
      simp only [Option.elim_none, Prog.perform_bind, Prog.wp_call, keyHandle]
      intro read _
      cases read.err with
      | some e => exact backed_error json path _ _
      | none =>
          simp only [Prog.wp_call, keyHandle]
          intro node _
          cases node.err with
          | some e => exact backed_error json path _ _
          | none =>
              simp only [Option.elim_none, Prog.wp_call, keyHandle]
              intro disco _
              cases disco.err with
              | some e => exact backed_error json path _ _
              | none =>
                  simp only [Option.elim_none, Prog.wp_call, keyHandle]
                  intro write _
                  cases write.err with
                  | some e => exact backed_error json path _ _
                  | none =>
                      rintro _ ⟨⟩
                      exact ⟨_, rfl, load_persist json path node.node.2 disco.disco⟩

/-- What a start returns is what the file says when it is over. -/
theorem backed_start (file : Option Bytes) (ω : Start) :
    Backed json path (returns json path file ω) (leaves json path file ω) := by
  cases file with
  | none =>
      exact Prog.run_of_wp (fun _ _ => trivial) (wp_loadOrCreateKeys json path)
  | some b =>
      obtain ⟨hreturns, hleaves⟩ := start_of_file json path b ω
      intro keys h
      rw [hreturns] at h
      refine ⟨b, hleaves, ?_⟩
      cases hblocked : unreadable ω with
      | some e => simp [hblocked] at h
      | none => simpa [hblocked] using h

theorem leaves_foldl (b : Bytes) (ωs : List Start) :
    ωs.foldl (leaves json path) (some b) = some b :=
  invariant_foldl (I := (· = some b))
    (fun _ ω h => by rw [h]; exact (start_of_file json path b ω).2) rfl ωs

end Starts

/-- The keys of a node are stable. A start that returns keys leaves a file from which every
later start that can read it returns the same keys, whatever starts, complete or
interrupted, came in between. A file that cannot be loaded is not replaced either: no
later start succeeds. -/
theorem loadOrCreateKeys_stable (json : JsonLibrary) (path : String) (file : Option Bytes)
    (ω : Start) (ωs : List Start) (ω' : Start) :
    (∀ keys, returns json path file ω = .ok keys →
      returns json path (ωs.foldl (leaves json path) (leaves json path file ω)) ω' =
        (unreadable ω').elim (.ok keys) fun e => .error (.os e)) ∧
    ∀ b e, load json path b = .error e → ∀ keys,
      returns json path (ωs.foldl (leaves json path) (some b)) ω' ≠ .ok keys := by
  refine ⟨fun keys hkeys => ?_, fun b e hload keys h => ?_⟩
  · obtain ⟨b, hb, hload⟩ := backed_start json path file ω keys hkeys
    rw [hb, leaves_foldl, (start_of_file json path b ω').1, hload]
  · rw [leaves_foldl, (start_of_file json path b ω').1, hload] at h
    cases hblocked : unreadable ω' <;> simp [hblocked] at h

/-! ## The address of a node -/

structure Home where
  file : Option Bytes
  registry : Registry

/-- A start of the node, up to its registration, or a call that somebody else makes. -/
inductive HomeInput where
  | start (ω : Start) (ctx : Option CtxError) (now : Time) (name : String)
  | other (op : RegistryOp)

namespace Home

def peerOf (keys : NodeKey × DiscoKey) (name : String) : Peer where
  nodeKey := keys.1.pub
  discoKey := keys.2.pub
  name := name

def step (json : JsonLibrary) (path : String) (newEtag : ℕ → String) (s : Home) :
    HomeInput → Home
  | .start ω ctx now name =>
      { file := leaves json path s.file ω
        registry := match returns json path s.file ω with
          | .error _ => s.registry
          | .ok keys => s.registry.call newEtag (.register ctx now (peerOf keys name)) }
  | .other op => { s with registry := s.registry.call newEtag op }

def given (json : JsonLibrary) (path : String) (newEtag : ℕ → String) (s : Home) :
    HomeInput → Option Addr
  | .start ω ctx now name => match returns json path s.file ω with
    | .error _ => none
    | .ok keys => (s.registry.register newEtag ctx now (peerOf keys name)).1.toOption
  | .other _ => none

variable {json : JsonLibrary} {path : String} {newEtag : ℕ → String}

def Settled (json : JsonLibrary) (path : String) (ip : Addr) (s : Home) : Prop :=
  ∃ b keys q, s.file = some b ∧ load json path b = .ok keys ∧
    s.registry.peers.lookup (base64Encode keys.1.pub) = some q ∧ q.tunnelIP = ip

theorem lookup_call (newEtag : ℕ → String) {r : Registry} {key : String} {q : Peer}
    (h : r.peers.lookup key = some q) (op : RegistryOp) :
    ∃ q', (r.call newEtag op).peers.lookup key = some q' ∧ q'.tunnelIP = q.tunnelIP := by
  rcases r.call_cases newEtag op with
    heq | ⟨key', p, p', hp, -, hip, heq⟩ | ⟨p, ip, -, hnew, -, -, heq⟩
  · exact ⟨q, by rw [heq, h], rfl⟩
  · rw [heq]
    change ∃ q', (r.peers.insert key' p').lookup key = some q' ∧ _
    by_cases hkey : key = key'
    · subst hkey
      obtain rfl := Option.some.inj (hp.symm.trans h)
      exact ⟨p', AList.lookup_insert _, hip⟩
    · exact ⟨q, by rw [AList.lookup_insert_ne hkey, h], rfl⟩
  · rw [heq]
    change ∃ q', (r.peers.insert (base64Encode p.nodeKey) p).lookup key = some q' ∧ _
    have hkey : key ≠ base64Encode p.nodeKey := by
      rintro rfl
      rw [h] at hnew
      cases hnew
    exact ⟨q, by rw [AList.lookup_insert_ne hkey, h], rfl⟩

theorem Settled.call {ip : Addr} {s : Home} (h : s.Settled json path ip)
    (op : RegistryOp) :
    Settled json path ip { s with registry := s.registry.call newEtag op } := by
  obtain ⟨b, keys, q, hfile, hload, hq, hip⟩ := h
  obtain ⟨q', hq', hip'⟩ := lookup_call newEtag hq op
  exact ⟨b, keys, q', hfile, hload, hq', hip'.trans hip⟩

theorem Settled.step {ip : Addr} {s : Home} (h : s.Settled json path ip)
    (i : HomeInput) : (s.step json path newEtag i).Settled json path ip := by
  cases i with
  | other op => exact h.call op
  | start ω ctx now name =>
      have hfile : leaves json path s.file ω = s.file := by
        obtain ⟨b, -, -, hb, -⟩ := h
        rw [hb]
        exact (start_of_file json path b ω).2
      rw [Home.step, hfile]
      cases returns json path s.file ω with
      | error e => exact h
      | ok keys => exact h.call _

theorem register_toOption {r : Registry} {ctx : Option CtxError} {now : Time} {p : Peer}
    {ip : Addr} (h : (r.register newEtag ctx now p).1.toOption = some ip) :
    r.register newEtag ctx now p = (.ok ip, r.call newEtag (.register ctx now p)) := by
  rw [Registry.call]
  generalize r.register newEtag ctx now p = out at h
  obtain ⟨out, r'⟩ := out
  cases out with
  | error e => cases h
  | ok ip' => cases h; rfl

theorem settled_of_given {ip : Addr} {s : Home} {i : HomeInput}
    (h : s.given json path newEtag i = some ip) :
    (s.step json path newEtag i).Settled json path ip := by
  cases i with
  | other op => cases h
  | start ω ctx now name =>
      cases hkeys : returns json path s.file ω with
      | error e => simp [given, hkeys] at h
      | ok keys =>
          simp only [given, hkeys] at h
          obtain ⟨b, hb, hload⟩ := backed_start json path s.file ω keys hkeys
          have hregister := register_toOption h
          simp only [Home.step, hkeys]
          rcases Registry.register_eq_ok hregister with
            ⟨q, -, hip, hpeers⟩ | ⟨-, hpeers⟩
          · exact ⟨b, keys, { q with
                discoKey := keys.2.pub, name := name, updatedAt := now }, hb, hload,
              hpeers ▸ AList.lookup_insert _, hip⟩
          · exact ⟨b, keys, { peerOf keys name with tunnelIP := ip, updatedAt := now }, hb,
              hload, hpeers ▸ AList.lookup_insert _, rfl⟩

/-- A settled node is given the address it has. -/
theorem Settled.given_eq {ip ip' : Addr} {s : Home} (h : s.Settled json path ip)
    {i : HomeInput} (hi : s.given json path newEtag i = some ip') : ip' = ip := by
  cases i with
  | other op => cases hi
  | start ω ctx now name =>
      obtain ⟨b, keys, q, hfile, hload, hq, hip⟩ := h
      cases hkeys : returns json path s.file ω with
      | error e => simp [given, hkeys] at hi
      | ok keys' =>
          simp only [given, hkeys] at hi
          obtain ⟨b', hb', hload'⟩ := backed_start json path s.file ω keys' hkeys
          rw [hfile, (start_of_file json path b ω).2] at hb'
          obtain rfl := Option.some.inj hb'
          obtain rfl := Except.ok.inj (hload'.symm.trans hload)
          rcases Registry.register_eq_ok (register_toOption hi) with
            ⟨q', hq', hip', -⟩ | ⟨hnone, -⟩
          · obtain rfl := Option.some.inj (hq.symm.trans hq')
            rw [← hip', hip]
          · cases hnone.symm.trans hq

theorem Settled.outputs {ip : Addr} {s : Home} (h : s.Settled json path ip)
    (is : List HomeInput) :
    ∀ a ∈ outputs (Home.step json path newEtag) (given json path newEtag) s is, a = ip := by
  induction is generalizing s with
  | nil => simp [Foundation.Run.outputs]
  | cons i is ih =>
      intro a ha
      rw [Foundation.Run.outputs, List.mem_append, Option.mem_toList] at ha
      rcases ha with hi | hrest
      · exact h.given_eq hi
      · exact ih (h.step i) a hrest

end Home

/-- A node keeps its address. Whatever starts of the node there are, with whatever
failures, and whatever others do to the registry in between, registrations of the same
node key included, all starts that are given an address are given the same one. -/
theorem address_stable (json : JsonLibrary) (path : String) (newEtag : ℕ → String)
    (s : Home) (is : List HomeInput) :
    ∃ ip, ∀ a ∈ outputs (Home.step json path newEtag) (Home.given json path newEtag) s is,
      a = ip := by
  induction is generalizing s with
  | nil => exact ⟨.zero, by simp [outputs]⟩
  | cons i is ih =>
      cases hi : s.given json path newEtag i with
      | none =>
          obtain ⟨ip, hip⟩ := ih (s.step json path newEtag i)
          refine ⟨ip, fun a ha => ?_⟩
          rw [outputs, hi] at ha
          exact hip a ha
      | some ip =>
          refine ⟨ip, fun a ha => ?_⟩
          rw [outputs, hi, List.mem_append] at ha
          rcases ha with ha | ha
          · exact List.mem_singleton.1 ha
          · exact (Home.settled_of_given hi).outputs is a ha

end Disco

end Gretun
