import Gretun.Coord.Delivery
import Gretun.Daemon.DiscoSocket
import Gretun.Disco.Exchange

/-!
# Signals from end to end

`SendSignal` and `PullSignals` from the arguments of the one to the results of the
other, and `signalPullLoop`, which opens what it pulls and passes it to the machines of
the senders. Between the two calls is any run of the coordinator. A body gets to a
machine at most as often as it was sent, and only under the name of a peer that built it
for this node, or that this node built it for.
-/

namespace Gretun

namespace Disco

open Foundation.Tagged
open Foundation.Tagged.Doc
open Gretun.Net
open Gretun.Coord

/-! ## The two calls -/

def signalJson (dst : Key) (buf : Bytes) : JsonValue :=
  obj [("to", JsonValue.key dst), ("sealed", JsonValue.bytes buf)]

/-- `envelopeForWire`, of which only the sealed bytes are used. -/
def envelopeOfJson (v : JsonValue) : Option (Bytes × Time) := do
  let fs ← v.fields
  let buf ← readField fs "sealed" [] JsonValue.readBytes
  let enqueue ← readField fs "enqueue" 0 JsonValue.readTime
  return (buf, enqueue)

def signalsOfJson (v : JsonValue) : Option (List (Bytes × Time)) := do
  let fs ← v.fields
  readField fs "envelopes" [] (readList envelopeOfJson)

def sendSignal (w : World) (m : Member) (now : Time) (dst : Key) (buf : Bytes) :
    Option HttpRequest :=
  (((ClientCall.sendSignal (w.json.marshal (signalJson dst buf))).send w.client
    m.toCoordClient now).bind (Wire.receive w)).toOption

/-- What `PullSignals` returns for a response; none is an error. -/
def pullSignals (json : JsonLibrary) (resp : Response) : Option (List Bytes) :=
  if resp.status ≠ 200 then none
  else ((json.unmarshal (resp.body.toBytes json)).bind signalsOfJson).map
    (·.map Prod.fst)

theorem signalReq_ofJson (dst : Key) (buf : Bytes) :
    SignalReq.ofJson (signalJson dst buf) = some ⟨dst, buf⟩ := by
  simp [SignalReq.ofJson, signalJson, readField, List.lookup_cons]

theorem envelopeOfJson_toJson (e : Envelope) :
    envelopeOfJson e.toJson = some (e.sealed, e.enqueue) := by
  simp [envelopeOfJson, Envelope.toJson, readField, List.lookup_cons]

theorem pullSignals_signals (json : JsonLibrary) (envs : List Envelope) :
    pullSignals json ⟨200, .signals envs⟩ = some (envs.map (·.sealed)) := by
  have hread : (json.unmarshal ((ResponseBody.signals envs).toBytes json)).bind
      signalsOfJson = some (envs.map fun e => (e.sealed, e.enqueue)) := by
    simp [ResponseBody.toBytes, json.unmarshal_marshal, signalsOfJson, readField,
      readList_list envelopeOfJson_toJson]
  simp only [pullSignals, hread]
  simp

theorem decodeSignal_of_sendSignal {w : World} {m : Member} {now : Time} {dst : Key}
    {buf : Bytes} {req : HttpRequest} (h : sendSignal w m now dst buf = some req)
    {now' : Time} {pub body : Bytes}
    (hverify : verifyRequest w.env.crypto now' req = .ok (pub, body)) :
    w.env.decodeSignal body = some ⟨dst, buf⟩ ∧ pub = m.nk.pub := by
  unfold sendSignal at h
  cases hbind : ((ClientCall.sendSignal (w.json.marshal (signalJson dst buf))).send
      w.client m.toCoordClient now).bind (Wire.receive w) with
  | error e =>
      rw [hbind] at h
      cases h
  | ok r =>
      rw [hbind] at h
      cases h
      obtain ⟨wire, hwire, hreceive⟩ := Foundation.Checks.bind_eq_ok.1 hbind
      obtain ⟨u, hparse, rfl⟩ := send_eq_ok hwire
      rw [ClientCall.path_eq] at hparse
      obtain ⟨-, -, hnode, hbody⟩ := Wire.receive_eq_ok (ClientCall.plain_route _)
        (ClientCall.head_query _) hparse rfl hreceive
      obtain ⟨rfl, rfl⟩ := eq_of_verifyRequest hnode hverify
      refine ⟨?_, rfl⟩
      change (w.json.unmarshal req.body).bind SignalReq.ofJson = _
      rw [hbody]
      change (w.json.unmarshal (w.json.marshal (signalJson dst buf))).bind _ = _
      rw [w.json.unmarshal_marshal]
      exact signalReq_ofJson dst buf

end Disco

namespace Daemon

open Foundation.Run
open Gretun.Net
open Gretun.Disco
open Gretun.Coord

/-! ## The loop -/

structure SignalHandover where
  machine : ℕ
  sender : Key
  body : Body
  deriving DecidableEq

/-- What `signalPullLoop` does with an envelope. The second component is the value of
`d.peers` when the loop gets to it. -/
def handOverSignal (env : ReaderEnv) (look : Bytes × AList fun _ : Key => ℕ) :
    Option SignalHandover := do
  let (sender, body) ← env.opens look.1
  let n ← look.2.lookup sender
  return ⟨n, sender, body⟩

/-- What `signalPullLoop` hands over: it goes through the envelopes it pulled, and looks
each sender up in `d.peers` as it is at that moment. -/
def signalLoop (env : ReaderEnv) (looks : List (Bytes × AList fun _ : Key => ℕ)) :
    List SignalHandover :=
  looks.filterMap (handOverSignal env)

def pulledIn (json : JsonLibrary) (resp : Response) : List Bytes :=
  match resp.body with
  | .signals _ => (pullSignals json resp).getD []
  | _ => []

theorem handOverSignal_eq_some {env : ReaderEnv}
    {look : Bytes × AList fun _ : Key => ℕ} {h : SignalHandover} :
    handOverSignal env look = some h ↔
      env.opens look.1 = some (h.sender, h.body) ∧
        look.2.lookup h.sender = some h.machine := by
  unfold handOverSignal
  constructor
  · intro hh
    obtain ⟨⟨sender, body⟩, hopens, hh⟩ := Option.bind_eq_some_iff.1 hh
    obtain ⟨n, hn, hh⟩ := Option.bind_eq_some_iff.1 hh
    cases hh
    exact ⟨hopens, hn⟩
  · rintro ⟨hopens, hn⟩
    simp [hopens, hn]

/-- The loop hands over, in order, some of what it could open. -/
theorem sublist_signalLoop (env : ReaderEnv)
    (looks : List (Bytes × AList fun _ : Key => ℕ)) :
    ((signalLoop env looks).map fun h => (h.sender, h.body)).Sublist
      ((looks.map Prod.fst).filterMap env.opens) := by
  induction looks with
  | nil => exact List.Sublist.slnil
  | cons x looks ih =>
      cases hx : handOverSignal env x with
      | none =>
          rw [signalLoop, List.filterMap_cons_none hx, List.map_cons, List.filterMap_cons]
          split
          · exact ih
          · exact ih.cons _
      | some h =>
          rw [signalLoop, List.filterMap_cons_some hx, List.map_cons, List.map_cons,
            List.filterMap_cons_some (handOverSignal_eq_some.1 hx).1]
          exact ih.cons_cons _

theorem sublist_pulledIn (json : JsonLibrary) (resp : Response) :
    (pulledIn json resp).Sublist
      ((Handed.envelopes (Handed.inBody resp.body)).map (·.sealed)) := by
  obtain ⟨status, body⟩ := resp
  cases body with
  | signals envs =>
      by_cases hstatus : status = 200
      · subst hstatus
        rw [Handed.inBody, Handed.envelopes_map_envelope]
        simp only [pulledIn, pullSignals_signals]
        exact List.Sublist.refl _
      · simp [pulledIn, pullSignals, hstatus]
  | _ => exact List.nil_sublist _

/-! ## From end to end -/

/-- What the loop of a node has looked at: what `PullSignals` returned for the responses
to its own requests. -/
def LookedAt (json : JsonLibrary) (mine : ℕ → Bool) (sent : List (ℕ × Response))
    (looks : List (Bytes × AList fun _ : Key => ℕ)) : Prop :=
  looks.map Prod.fst = (sent.filter (mine ·.1)).flatMap fun x => pulledIn json x.2

section EndToEnd

variable {env : ServerEnv} {json : JsonLibrary} {pool : Prefix} {is : List ServerInput}
  {reader : ReaderEnv} {mine : ℕ → Bool}
  {looks : List (Bytes × AList fun _ : Key => ℕ)}

/-- The loop hands over at most what was posted. -/
theorem subperm_signalLoop (henv : env.PlainUnmatched)
    (hlooks : LookedAt json mine
      (is.foldl (Server.step env) (Server.start env pool)).sent looks) :
    ((signalLoop reader looks).map fun h => (h.sender, h.body)).Subperm
      ((Ledger.accepted ((relayCalls (Server.trace env pool is)).map Prod.snd)).filterMap
        fun x => reader.opens x.2.sealed) := by
  have hpulled : (looks.map Prod.fst).Sublist
      (((is.foldl (Server.step env) (Server.start env pool)).sent.flatMap fun x =>
        Handed.envelopes (Handed.inBody x.2.body)).map (·.sealed)) := by
    rw [hlooks, List.map_flatMap]
    exact (List.Sublist.flatMap_right _ fun x _ => sublist_pulledIn json x.2).trans
      (List.filter_sublist.flatMap _)
  obtain ⟨l, hperm, hsub⟩ := Server.subperm_sent henv pool is
  have hopened := (sublist_signalLoop reader looks).trans (hpulled.filterMap reader.opens)
  have hall : (Ledger.accepted
        ((relayCalls (Server.trace env pool is)).map Prod.snd)).filterMap
          (fun x => reader.opens x.2.sealed) =
      (((Ledger.accepted ((relayCalls (Server.trace env pool is)).map Prod.snd)).map
        Prod.snd).map (·.sealed)).filterMap reader.opens := by
    rw [List.filterMap_map, List.filterMap_map]
    rfl
  rw [hall]
  refine hopened.subperm.trans ⟨(l.map (·.sealed)).filterMap reader.opens, ?_, ?_⟩
  · exact (hperm.map _).filterMap _
  · exact (hsub.map _).filterMap _

/-- What the loop hands over was posted, under a signature, to the queue it was pulled
from, and goes to the machine that `d.peers` has for the sender at that moment. -/
theorem exists_posted (henv : env.PlainUnmatched)
    (hlooks : LookedAt json mine
      (is.foldl (Server.step env) (Server.start env pool)).sent looks)
    {h : SignalHandover} (hh : h ∈ signalLoop reader looks) :
    ∃ id req now pub body r, .arrive id req now ∈ is ∧ route req = some .signal ∧
      verifyRequest env.crypto now req = .ok (pub, body) ∧
      env.decodeSignal body = some r ∧ reader.opens r.sealed = some (h.sender, h.body) ∧
      (∃ peers, (r.sealed, peers) ∈ looks ∧ peers.lookup h.sender = some h.machine) ∧
      ∃ id' now', mine id' ∧ .pop none r.dst now' ∈ callsOf id' (Server.trace env pool is) := by
  obtain ⟨look, hlook, hover⟩ := List.mem_filterMap.1 hh
  have hbuf : look.1 ∈ looks.map Prod.fst := List.mem_map_of_mem hlook
  rw [hlooks, List.mem_flatMap] at hbuf
  obtain ⟨x, hx, hbuf⟩ := hbuf
  obtain ⟨hsent, hmine⟩ := List.mem_filter.1 hx
  obtain ⟨e, he, heq⟩ := List.mem_map.1 ((sublist_pulledIn json x.2).subset hbuf)
  obtain ⟨dst, now', hpop, haccepted⟩ :=
    Server.accepted_of_mem_handedTo henv (Server.mem_handedTo_of_sent hsent he)
  obtain ⟨p, hp, hcall⟩ := Server.exists_enqueueLocked haccepted
  obtain ⟨req, now, harrive, hrelays⟩ := Server.relays_of_mem_trace hp
  rw [hcall] at hrelays
  obtain ⟨hroute, pub, body, hverify, r, hdecode, rfl, hsealed⟩ := hrelays
  obtain ⟨hopens, hlookup⟩ := handOverSignal_eq_some.1 hover
  have hlook' : r.sealed = look.1 := hsealed.trans heq
  refine ⟨p.id, req, now, pub, body, r, harrive, hroute, hverify, hdecode, ?_,
    ⟨look.2, ?_, hlookup⟩, x.1, now', hmine, hpop⟩
  · rwa [hlook']
  · rwa [hlook']

/-- What an opened envelope says, when its sealed part is that of an envelope that a node
built: it is between the sender and this node. -/
theorem ends_of_opens (hx : reader.box.Symbolic) (hme : reader.box.IsPair reader.key)
    {buf : Bytes} {sender : Key} {opened : Body}
    (h : reader.opens buf = some (sender, opened)) {a b : DiscoKey}
    (ha : reader.box.IsPair a) (hb : reader.box.IsPair b) {nonce : Nonce} {body : Body}
    {built : Bytes}
    (hbuilt : buildEnvelope reader.box reader.json (.ok nonce) a b.pub body = .ok built)
    {header : Vector UInt8 38} (hbuf : buf = header.toList ++ built.drop 38) :
    (∃ raw, reader.json.marshal body = .ok raw ∧
        reader.json.unmarshal raw = .ok opened) ∧
      (reader.key.pub = b.pub ∧ sender = a.pub ∨
        reader.key.pub = a.pub ∧ sender = b.pub) := by
  have hopen : openEnvelope reader.box reader.json buf reader.key =
      some (sender, opened, none) := by
    unfold ReaderEnv.opens at h
    split at h
    · rename_i hopen
      cases h
      exact hopen
    · cases h
  obtain ⟨raw, hraw, hdrop⟩ := drop_of_buildEnvelope hbuilt
  rw [hbuf, hdrop, openEnvelope_eq] at hopen
  obtain ⟨nonce', box, plain, heq, hplain, hbody⟩ := hopen
  obtain ⟨hnonce, rfl⟩ := List.append_inj (List.append_inj heq (by simp)).2 (by simp)
  rw [← Vector.toList_inj.1 hnonce] at hplain
  obtain ⟨rfl, hkey⟩ := hx.openBox_eq_some_iff.1 hplain
  exact ⟨⟨_, hraw, hbody⟩, (precompute_eq_iff hx ha hb hme sender).1 hkey⟩

end EndToEnd

def sampleReader : ReaderEnv where
  box := sampleBox
  json := sampleJson
  stun := { isMessage := fun _ => false, decode := fun _ => none }
  key := sampleKey 2

def samplePeers : AList fun _ : Key => ℕ :=
  AList.singleton (sampleKey 1).pub 5

theorem sent_relayRun :
    ((Server.relayRun 2 sampleEnvelope).foldl (Server.step (Server.relayEnv 2))
        (Server.start (Server.relayEnv 2) Server.samplePool)).sent =
      [(1, ⟨200, .signals [⟨Vector.replicate 32 0, sampleEnvelope, 0⟩]⟩),
        (2, ⟨200, .queued⟩)] := by
  decide +kernel

end Daemon

end Gretun
