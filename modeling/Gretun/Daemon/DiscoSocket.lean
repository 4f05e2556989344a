import Gretun.Disco.Binding
import Gretun.Disco.Stun
import Gretun.Foundation.Run

/-!
# The readers of the disco socket

Two loops read one socket: `discoReadLoop`, which passes envelopes to the machines
of their senders, and, from each round of `refreshLoop` on, the goroutine of
`DiscoverPublic`, which looks for STUN responses and may go on after its call has
returned. A read takes the oldest datagram off the queue, and a reader discards
what it has no use for. A run is any sequence of arrivals, reads and the other
steps of the two.

Reading a datagram and handling it is one step, which stands where the datagram is taken
off the queue. The reader looks at its context and at `d.peers` a moment later: a change
of the map in between stands before the step, since no other reader looks at the map, and
so does a cancellation that the reader notices. Left out are the runs in which the other
reader takes a later datagram and does not notice that cancellation yet; the daemon is
about to return in them.

A datagram gets to where it belongs exactly when the reader it is meant for is the
one that takes it.
-/

namespace Gretun

namespace Daemon

open Foundation.Run
open Gretun.Net
open Gretun.Disco

/-! ## The socket and its readers -/

structure ReaderEnv where
  box : Box
  json : Json
  stun : StunLibrary
  key : DiscoKey

structure Datagram where
  data : Bytes
  srcIP : IP
  srcPort : Port

inductive ReadLoop where
  | idle
  | reading
  | done
  deriving DecidableEq

/-- The disco socket of a daemon. `peers` maps the disco keys in `d.peers` to the
names of their machines; `handed` are the calls of `onUDP` so far, and `seen` the
responses that a call of `DiscoverPublic` recognised, by the number of the call. -/
structure DiscoSocket where
  queue : List Datagram := []
  peers : AList fun _ : Key => ℕ := ∅
  ctxDone : Bool := false
  loop : ReadLoop := .idle
  calls : List Discovery := []
  handed : List (ℕ × AddrPort × Body) := []
  seen : List (ℕ × Datagram) := []

inductive SocketInput where
  | arrive (dg : Datagram)
  | reconcile (peers : AList fun _ : Key => ℕ)
  | cancel
  /-- `Run` starts its loops. -/
  | start
  | loopRead
  | loopFail (timeout : Bool)
  /-- `collectEndpoints` calls `DiscoverPublic`. -/
  | discover
  | call (i : ℕ) (m : DiscoveryInput)
  | stunRead (i : ℕ)

def mustAddrFromIP (ip : IP) : Addr :=
  match ip.to4 with
  | some v4 => v4.addrFromSlice
  | none => ip.addrFromSlice

def Datagram.source (dg : Datagram) : AddrPort := ⟨mustAddrFromIP dg.srcIP, dg.srcPort⟩

def ReaderEnv.opens (env : ReaderEnv) (data : Bytes) : Option (Key × Body) :=
  match openEnvelope env.box env.json data env.key with
  | some (sender, body, none) => some (sender, body)
  | _ => none

namespace DiscoSocket

def bufSize : ℕ := 2048

def handOver (env : ReaderEnv) (peers : AList fun _ : Key => ℕ) (dg : Datagram) :
    Option (ℕ × AddrPort × Body) := do
  let (sender, body) ← env.opens (dg.data.take bufSize)
  let n ← peers.lookup sender
  return (n, dg.source, body)

def loopTake (env : ReaderEnv) (dg : Datagram) (s : DiscoSocket) : DiscoSocket :=
  if s.ctxDone then { s with loop := .done }
  else { s with handed := s.handed ++ (handOver env s.peers dg).toList }

def stunTake (env : ReaderEnv) (i : ℕ) (c : Discovery) (dg : Datagram)
    (s : DiscoSocket) : DiscoSocket :=
  { s with
    calls := s.calls.set i (c.read env.stun dg.data)
    seen :=
      if !c.ctxDone ∧ env.stun.Answers c.pending (dg.data.take Discovery.bufSize) then
        s.seen ++ [(i, dg)]
      else s.seen }

/-- Every call has returned: `collectEndpoints` is not under way. -/
def Settled (s : DiscoSocket) : Prop := ∀ c ∈ s.calls, c.returned ≠ none

instance (s : DiscoSocket) : Decidable s.Settled :=
  inferInstanceAs (Decidable (∀ c ∈ s.calls, c.returned ≠ none))

def step (env : ReaderEnv) (s : DiscoSocket) : SocketInput → DiscoSocket
  | .arrive dg => { s with queue := s.queue ++ [dg] }
  | .reconcile peers => { s with peers := peers }
  | .cancel => { s with ctxDone := true, calls := s.calls.map (·.step .cancel) }
  | .start => if s.loop = .idle ∧ s.Settled then { s with loop := .reading } else s
  | .loopRead => match s.loop, s.queue with
    | .reading, dg :: rest => { s with queue := rest }.loopTake env dg
    | _, _ => s
  | .loopFail timeout =>
      if s.loop = .reading ∧ (s.ctxDone ∨ !timeout) then { s with loop := .done } else s
  | .discover =>
      if s.Settled then { s with calls := s.calls ++ [{ ctxDone := s.ctxDone }] } else s
  | .call i m => { s with calls := s.calls.modify i (·.step m) }
  | .stunRead i => match s.calls[i]?, s.queue with
    | some c, dg :: rest =>
        if c.goroutine = .reading then { s with queue := rest }.stunTake env i c dg else s
    | _, _ => s

/-! ## Where a datagram belongs -/

def taken (s : DiscoSocket) : SocketInput → Option Datagram
  | .loopRead => if s.loop = .reading then s.queue.head? else none
  | .stunRead i =>
      if (s.calls[i]?).any (·.goroutine = .reading) then s.queue.head? else none
  | _ => none

def Known (env : ReaderEnv) (s : DiscoSocket) (dg : Datagram) (n : ℕ) (body : Body) :
    Prop :=
  ∃ sender, env.opens dg.data = some (sender, body) ∧ s.peers.lookup sender = some n

/-- The `i`-th call has not returned, and the datagram answers one of its
requests. -/
def Awaited (env : ReaderEnv) (s : DiscoSocket) (dg : Datagram) (i : ℕ)
    (c : Discovery) : Prop :=
  s.calls[i]? = some c ∧ c.returned = none ∧ env.stun.Answers c.pending dg.data

/-- What the step takes off the queue gets to where it belongs: an envelope of a
known peer to `onUDP` of its machine, a response to the call that waits for it. -/
structure Delivered (env : ReaderEnv) (s : DiscoSocket) (i : SocketInput) : Prop where
  envelope : ∀ dg ∈ s.taken i, ∀ n body, s.Known env dg n body →
    (s.step env i).handed = s.handed ++ [(n, dg.source, body)]
  response : ∀ dg ∈ s.taken i, ∀ j c, s.Awaited env dg j c →
    (s.step env i).seen = s.seen ++ [(j, dg)]

/-- The step does not take what is meant for another reader: `discoReadLoop` takes
no response that a call waits for, and an envelope of a known peer only while the
daemon runs; the goroutine of a call takes no such envelope, no response for another
call, and none for its own after its context is done. -/
def RightReader (env : ReaderEnv) (s : DiscoSocket) : SocketInput → Prop
  | .loopRead => ∀ dg ∈ s.taken .loopRead,
      (∀ j c, ¬ s.Awaited env dg j c) ∧
        ((∃ n body, s.Known env dg n body) → s.ctxDone = false)
  | .stunRead i => ∀ dg ∈ s.taken (.stunRead i),
      (¬ ∃ n body, s.Known env dg n body) ∧
        ∀ j c, s.Awaited env dg j c → j = i ∧ c.ctxDone = false
  | _ => True

variable {env : ReaderEnv} {s : DiscoSocket} {dg : Datagram}

theorem taken_loopRead :
    s.taken .loopRead = some dg ↔ s.loop = .reading ∧ ∃ rest, s.queue = dg :: rest := by
  simp [taken, List.head?_eq_some_iff]

theorem taken_stunRead {i : ℕ} :
    s.taken (.stunRead i) = some dg ↔
      (∃ c, s.calls[i]? = some c ∧ c.goroutine = .reading) ∧
        ∃ rest, s.queue = dg :: rest := by
  simp [taken, Option.any_eq_true, List.head?_eq_some_iff]

theorem step_loopRead (env : ReaderEnv) (h : s.taken .loopRead = some dg) :
    (s.step env .loopRead).seen = s.seen ∧
      (s.step env .loopRead).handed =
        s.handed ++ if s.ctxDone then [] else (handOver env s.peers dg).toList := by
  obtain ⟨hloop, rest, hqueue⟩ := taken_loopRead.1 h
  simp only [step, hloop, hqueue, loopTake]
  split <;> simp

theorem step_stunRead (env : ReaderEnv) {i : ℕ} {c : Discovery}
    (hc : s.calls[i]? = some c)
    (h : s.taken (.stunRead i) = some dg) :
    (s.step env (.stunRead i)).handed = s.handed ∧
      (s.step env (.stunRead i)).seen =
        if !c.ctxDone ∧ env.stun.Answers c.pending (dg.data.take Discovery.bufSize) then
          s.seen ++ [(i, dg)]
        else s.seen := by
  obtain ⟨⟨c', hc', hreading⟩, rest, hqueue⟩ := taken_stunRead.1 h
  obtain rfl := Option.some.inj (hc.symm.trans hc')
  simp only [step, hc, hqueue, if_pos hreading, stunTake]
  exact ⟨trivial, trivial⟩

/-- An envelope that fits the buffer is passed on when its sender is known. -/
theorem handOver_of_known (hfit : dg.data.length ≤ bufSize) {n : ℕ} {body : Body}
    (h : s.Known env dg n body) : handOver env s.peers dg = some (n, dg.source, body) := by
  obtain ⟨sender, hopens, hn⟩ := h
  simp [handOver, List.take_of_length_le hfit, hopens, hn]

/-- `discoReadLoop` is the right reader of what it takes exactly when that gets to
where it belongs. -/
theorem delivered_loopRead_iff
    (hfit : ∀ dg ∈ s.taken .loopRead, dg.data.length ≤ bufSize) :
    s.Delivered env .loopRead ↔ s.RightReader env .loopRead := by
  constructor
  · intro h dg htaken
    obtain ⟨hseen, hhanded⟩ := step_loopRead env htaken
    refine ⟨fun j c hc => ?_, ?_⟩
    · simpa using hseen.symm.trans (h.response dg htaken j c hc)
    · rintro ⟨n, body, hknown⟩
      have henvelope := h.envelope dg htaken n body hknown
      cases hctx : s.ctxDone with
      | false => rfl
      | true =>
          rw [hhanded, hctx] at henvelope
          simp at henvelope
  · intro h
    constructor
    · intro dg htaken n body hknown
      have hctx := (h dg htaken).2 ⟨n, body, hknown⟩
      rw [(step_loopRead env htaken).2, hctx, handOver_of_known (hfit dg htaken) hknown]
      rfl
    · intro dg htaken j c hc
      exact absurd hc ((h dg htaken).1 j c)

theorem delivered_stunRead_iff {i : ℕ}
    (hfit : ∀ dg ∈ s.taken (.stunRead i), dg.data.length ≤ Discovery.bufSize) :
    s.Delivered env (.stunRead i) ↔ s.RightReader env (.stunRead i) := by
  constructor
  · intro h dg htaken
    obtain ⟨⟨c, hc, -⟩, -⟩ := taken_stunRead.1 htaken
    obtain ⟨hhanded, hseen⟩ := step_stunRead env hc htaken
    refine ⟨?_, fun j c' hawaited => ?_⟩
    · rintro ⟨n, body, hknown⟩
      simpa using hhanded.symm.trans (h.envelope dg htaken n body hknown)
    · have hresponse := h.response dg htaken j c' hawaited
      rw [hseen] at hresponse
      split at hresponse
      · rename_i hcond
        obtain ⟨rfl, -⟩ : i = j ∧ dg = dg := by simpa using hresponse
        obtain rfl := Option.some.inj (hc.symm.trans hawaited.1)
        exact ⟨rfl, by simpa using hcond.1⟩
      · simp at hresponse
  · intro h
    constructor
    · intro dg htaken n body hknown
      exact absurd ⟨n, body, hknown⟩ (h dg htaken).1
    · intro dg htaken j c hawaited
      obtain ⟨rfl, hctx⟩ := (h dg htaken).2 j c hawaited
      rw [(step_stunRead env hawaited.1 htaken).2, if_pos]
      refine ⟨by simp [hctx], ?_⟩
      rw [List.take_of_length_le (hfit dg htaken)]
      exact hawaited.2.2

/-! ## Runs -/

def Fits (s : DiscoSocket) : Prop :=
  ∀ dg ∈ s.queue, dg.data.length ≤ Discovery.bufSize

theorem mem_queue_step {i : SocketInput} (h : dg ∈ (s.step env i).queue) :
    dg ∈ s.queue ∨ i = .arrive dg := by
  cases i with
  | arrive dg' =>
      rcases List.mem_append.1 h with h | h
      · exact Or.inl h
      · rw [List.mem_singleton.1 h]
        exact Or.inr rfl
  | loopRead =>
      left
      simp only [step] at h
      split at h
      · rename_i hqueue
        rw [hqueue]
        simp only [loopTake] at h
        split at h <;> exact List.mem_cons_of_mem _ h
      · exact h
  | stunRead i =>
      left
      simp only [step] at h
      split at h
      · rename_i hqueue
        split at h
        · rw [hqueue]
          exact List.mem_cons_of_mem _ h
        · exact h
      · exact h
  | start | loopFail | discover =>
      left
      simp only [step] at h
      split at h <;> exact h
  | reconcile | cancel | call => exact Or.inl h

theorem Fits.step (hs : s.Fits) {i : SocketInput}
    (hi : ∀ dg, i = .arrive dg → dg.data.length ≤ Discovery.bufSize) :
    (s.step env i).Fits := by
  intro dg hdg
  rcases mem_queue_step hdg with hdg | hdg
  · exact hs dg hdg
  · exact hi dg hdg

theorem Fits.taken (hs : s.Fits) {i : SocketInput} (h : dg ∈ s.taken i) :
    dg.data.length ≤ Discovery.bufSize := by
  refine hs dg ?_
  cases i with
  | loopRead =>
      obtain ⟨-, rest, hqueue⟩ := taken_loopRead.1 h
      simp [hqueue]
  | stunRead i =>
      obtain ⟨-, rest, hqueue⟩ := taken_stunRead.1 h
      simp [hqueue]
  | _ => cases h

theorem delivered_of_taken {i : SocketInput} (h : s.taken i = none) :
    s.Delivered env i := by
  constructor
  · intro dg hdg
    rw [h] at hdg
    cases hdg
  · intro dg hdg
    rw [h] at hdg
    cases hdg

theorem delivered_step_iff (hs : s.Fits) (i : SocketInput) :
    s.Delivered env i ↔ s.RightReader env i := by
  cases i with
  | loopRead =>
      refine delivered_loopRead_iff fun dg hdg => (hs.taken hdg).trans ?_
      decide
  | stunRead i => exact delivered_stunRead_iff fun dg hdg => hs.taken hdg
  | _ => exact ⟨fun _ => trivial, fun _ => delivered_of_taken rfl⟩

/-- As long as no datagram is larger than the buffers, every datagram taken off the
socket gets to where it belongs exactly when every datagram is taken by the reader
it is meant for. -/
theorem delivered_iff (env : ReaderEnv) {is : List SocketInput}
    (hfits : ∀ dg, .arrive dg ∈ is → dg.data.length ≤ Discovery.bufSize) :
    EachStep (step env) (Delivered env) {} is ↔
      EachStep (step env) (RightReader env) {} is := by
  have harrivals : EachStep (step env)
      (fun _ i => ∀ dg, i = .arrive dg → dg.data.length ≤ Discovery.bufSize) {} is := by
    refine eachStep_of_forall_mem ?_ _
    rintro i hi dg rfl
    exact hfits dg hi
  refine eachStep_congr (I := Fits) (fun s i hs _ => delivered_step_iff hs i) ?_ ?_
    harrivals
  · exact fun s i hs hi _ => hs.step hi
  · intro dg hdg
    cases hdg

/-! ## There is always a right reader -/

def Sequential (s : DiscoSocket) : Prop :=
  ∀ (i j : ℕ) (c c' : Discovery), s.calls[i]? = some c → s.calls[j]? = some c' →
    c.returned = none → c'.returned = none → i = j

/-- A call that is under way was under way before, or is new and the only one. -/
theorem waiting_of_step {i : SocketInput} {j : ℕ} {c : Discovery}
    (h : (s.step env i).calls[j]? = some c) (hc : c.returned = none) :
    (∃ c', s.calls[j]? = some c' ∧ c'.returned = none) ∨
      s.Settled ∧ j = s.calls.length := by
  cases i with
  | arrive | reconcile => exact Or.inl ⟨c, h, hc⟩
  | cancel =>
      simp only [step, List.getElem?_map, Option.map_eq_some_iff] at h
      obtain ⟨c', hc', rfl⟩ := h
      exact Or.inl ⟨c', hc', Discovery.returned_of_step hc⟩
  | start | loopFail =>
      simp only [step] at h
      split at h <;> exact Or.inl ⟨c, h, hc⟩
  | loopRead =>
      simp only [step] at h
      split at h
      · simp only [loopTake] at h
        split at h <;> exact Or.inl ⟨c, h, hc⟩
      · exact Or.inl ⟨c, h, hc⟩
  | discover =>
      simp only [step] at h
      split at h
      · rename_i hsettled
        rcases Nat.lt_trichotomy j s.calls.length with hj | hj | hj
        · rw [List.getElem?_append_left hj] at h
          exact Or.inl ⟨c, h, hc⟩
        · exact Or.inr ⟨hsettled, hj⟩
        · rw [List.getElem?_eq_none (by rw [List.length_append]; exact hj)] at h
          cases h
      · exact Or.inl ⟨c, h, hc⟩
  | call k m =>
      simp only [step, List.getElem?_modify] at h
      obtain ⟨c', hc', rfl⟩ := Option.map_eq_some_iff.1 h
      refine Or.inl ⟨c', hc', ?_⟩
      split at hc
      · exact Discovery.returned_of_step hc
      · exact hc
  | stunRead k =>
      simp only [step] at h
      split at h
      · rename_i c' _ _ hk _
        split at h
        · simp only [stunTake, List.getElem?_set] at h
          split at h
          · rename_i hkj
            subst hkj
            split at h
            · cases h
              rw [Discovery.returned_read] at hc
              exact Or.inl ⟨c', hk, hc⟩
            · cases h
          · exact Or.inl ⟨c, h, hc⟩
        · exact Or.inl ⟨c, h, hc⟩
      · exact Or.inl ⟨c, h, hc⟩

theorem Sequential.step (hs : s.Sequential) (i : SocketInput) :
    (s.step env i).Sequential := by
  intro j k c c' hj hk hc hc'
  rcases waiting_of_step hj hc with ⟨d, hd, hwaiting⟩ | ⟨hsettled, rfl⟩
  · rcases waiting_of_step hk hc' with ⟨d', hd', hwaiting'⟩ | ⟨hsettled, -⟩
    · exact hs j k d d' hd hd' hwaiting hwaiting'
    · exact absurd hwaiting (hsettled d (List.mem_of_getElem? hd))
  · rcases waiting_of_step hk hc' with ⟨d', hd', hwaiting'⟩ | ⟨-, rfl⟩
    · exact absurd hwaiting' (hsettled d' (List.mem_of_getElem? hd'))
    · rfl

theorem sequential_run (env : ReaderEnv) (is : List SocketInput) :
    (is.foldl (DiscoSocket.step env) {}).Sequential := by
  refine invariant_foldl (fun s i hs => hs.step i) ?_ is
  intro i j c c' hc
  cases hc

def magicCookie : Bytes := [0x21, 0x12, 0xa4, 0x42]

/-- An envelope has other bytes there, so it is not taken for a STUN message. -/
theorem isMessage_of_opens
    (hcookie : ∀ buf, env.stun.isMessage buf = true → (buf.drop 4).take 4 = magicCookie)
    {data : Bytes} {sender : Key} {body : Body}
    (h : env.opens data = some (sender, body)) : env.stun.isMessage data = false := by
  have hopen : openEnvelope env.box env.json data env.key = some (sender, body, none) := by
    unfold ReaderEnv.opens at h
    split at h
    · rename_i heq
      cases h
      exact heq
    · cases h
  obtain ⟨nonce, box, plain, rfl, -, -⟩ := openEnvelope_eq.1 hopen
  refine Bool.eq_false_iff.2 fun hmessage => ?_
  have hbytes := hcookie _ hmessage
  simp [magic, magicCookie] at hbytes

/-- While both loops are at their reads, the reader that the oldest datagram is
meant for can take it. -/
theorem exists_rightReader (env : ReaderEnv) (is : List SocketInput)
    (hcookie : ∀ buf, env.stun.isMessage buf = true → (buf.drop 4).take 4 = magicCookie)
    (hs : is.foldl (DiscoSocket.step env) {} = s) (hloop : s.loop = .reading)
    (hctx : s.ctxDone = false)
    (hcalls : ∀ c ∈ s.calls, c.returned = none → c.goroutine = .reading ∧
      c.ctxDone = false) {rest : List Datagram} (hqueue : s.queue = dg :: rest) :
    ∃ i, s.taken i = some dg ∧ s.RightReader env i := by
  have hsequential : s.Sequential := hs ▸ sequential_run env is
  by_cases hawaited : ∃ j c, s.Awaited env dg j c
  · obtain ⟨j, c, hj, hwaiting, hanswers⟩ := hawaited
    obtain ⟨hreading, hlive⟩ := hcalls c (List.mem_of_getElem? hj) hwaiting
    have htaken : s.taken (.stunRead j) = some dg :=
      taken_stunRead.2 ⟨⟨c, hj, hreading⟩, rest, hqueue⟩
    refine ⟨.stunRead j, htaken, fun dg' hdg' => ?_⟩
    obtain rfl := Option.some.inj (htaken.symm.trans hdg')
    refine ⟨?_, fun k c' hk => ?_⟩
    · rintro ⟨n, body, sender, hopens, -⟩
      exact StunLibrary.not_answers (isMessage_of_opens hcookie hopens) _ hanswers
    · obtain rfl := hsequential k j c' c hk.1 hj hk.2.1 hwaiting
      obtain rfl := Option.some.inj (hj.symm.trans hk.1)
      exact ⟨rfl, hlive⟩
  · have htaken : s.taken .loopRead = some dg := taken_loopRead.2 ⟨hloop, rest, hqueue⟩
    refine ⟨.loopRead, htaken, fun dg' hdg' => ?_⟩
    obtain rfl := Option.some.inj (htaken.symm.trans hdg')
    exact ⟨fun j c hc => hawaited ⟨j, c, hc⟩, fun _ => hctx⟩

/-! ## A round during which a peer writes -/

def sampleStun : StunLibrary where
  isMessage buf := 20 ≤ buf.length ∧ (buf.drop 4).take 4 = [0x21, 0x12, 0xa4, 0x42]
  decode buf := some
    { transactionID := copyArray 12 (buf.drop 8)
      xorMapped := some ([203, 0, 113, 9], 4000) }

def sampleReaders : ReaderEnv where
  box := sampleBox
  json := sampleJson
  stun := sampleStun
  key := sampleKey 2

def sampleTxID : TransactionID := Vector.replicate 12 5

def sampleResponse : Datagram where
  data := [1, 1, 0, 0, 0x21, 0x12, 0xa4, 0x42] ++ sampleTxID.toList
  srcIP := [192, 0, 2, 1]
  srcPort := 3478

def samplePong : Datagram where
  data := sampleEnvelope
  srcIP := [198, 51, 100, 7]
  srcPort := 41000

/-- The daemon starts without a STUN server in reach, learns of a peer and comes to
its first round, during which a response and a pong arrive. -/
def roundStart : List SocketInput :=
  [.discover, .call 0 .listen, .start,
    .reconcile ((∅ : AList fun _ : Key => ℕ).insert (sampleKey 1).pub 0),
    .discover, .call 1 (.send sampleTxID "192.0.2.1:3478"), .call 1 .listen,
    .arrive sampleResponse, .arrive samplePong]

/-- Each reader takes what is meant for it. -/
def matchedRun : List SocketInput := roundStart ++ [.stunRead 1, .loopRead]

/-- Each reader takes what is meant for the other. -/
def crossedRun : List SocketInput := roundStart ++ [.loopRead, .stunRead 1]

def racing : DiscoSocket := roundStart.foldl (step sampleReaders) {}

def sampleCall : Discovery where
  pending := (∅ : Pending).insert sampleTxID "192.0.2.1:3478"
  goroutine := .reading

theorem opens_samplePong :
    sampleReaders.opens samplePong.data = some ((sampleKey 1).pub, sampleBody) := by
  decide +kernel

theorem opens_sampleResponse : sampleReaders.opens sampleResponse.data = none := by
  decide +kernel

theorem isMessage_samplePong : sampleStun.isMessage samplePong.data = false := by
  decide +kernel

theorem awaited_sampleResponse :
    racing.Awaited sampleReaders sampleResponse 1 sampleCall :=
  ⟨rfl, rfl, by decide +kernel⟩

theorem eq_of_awaited {dg : Datagram} {j : ℕ} {c : Discovery}
    (h : racing.Awaited sampleReaders dg j c) : j = 1 ∧ c.ctxDone = false := by
  obtain ⟨hc, hwaiting, -⟩ := h
  rcases j with _ | _ | j
  · cases hc
    cases hwaiting
  · cases hc
    exact ⟨rfl, rfl⟩
  · cases hc

theorem delivered_of_matchedRun :
    EachStep (step sampleReaders) (Delivered sampleReaders) {} matchedRun := by
  have hfits : ∀ dg, SocketInput.arrive dg ∈ matchedRun →
      dg.data.length ≤ Discovery.bufSize := by
    intro dg hdg
    obtain rfl | rfl : dg = sampleResponse ∨ dg = samplePong := by
      simpa [matchedRun, roundStart] using hdg
    · decide +kernel
    · decide +kernel
  have hresponse : racing.RightReader sampleReaders (.stunRead 1) := by
    rintro _ ⟨⟩
    refine ⟨?_, fun j c hc => eq_of_awaited hc⟩
    rintro ⟨n, body, sender, hopens, -⟩
    rw [opens_sampleResponse] at hopens
    cases hopens
  have hpong : (racing.step sampleReaders (.stunRead 1)).RightReader sampleReaders
      .loopRead := by
    rintro _ ⟨⟩
    exact ⟨fun j c hc => StunLibrary.not_answers isMessage_samplePong _ hc.2.2,
      fun _ => rfl⟩
  exact (delivered_iff sampleReaders hfits).2
    ⟨trivial, trivial, trivial, trivial, trivial, trivial, trivial, trivial, trivial,
      hresponse, hpong, trivial⟩

/-- The response and the pong are both taken off the socket, and neither gets to
where it belongs. -/
theorem lost_of_crossedRun :
    racing.Awaited sampleReaders sampleResponse 1 sampleCall ∧
      racing.Known sampleReaders samplePong 0 sampleBody ∧
      (crossedRun.foldl (step sampleReaders) {}).queue = [] ∧
      (crossedRun.foldl (step sampleReaders) {}).handed = [] ∧
      (crossedRun.foldl (step sampleReaders) {}).seen = [] ∧
      ¬ EachStep (step sampleReaders) (Delivered sampleReaders) {} crossedRun := by
  refine ⟨awaited_sampleResponse, ⟨_, opens_samplePong, by decide +kernel⟩, ?_, ?_, ?_, ?_⟩
  · decide +kernel
  · decide +kernel
  · decide +kernel
  · intro h
    have hstep : racing.Delivered sampleReaders .loopRead :=
      h.2.2.2.2.2.2.2.2.2.1
    have hseen := hstep.response sampleResponse rfl 1 sampleCall awaited_sampleResponse
    rw [(step_loopRead sampleReaders rfl).1] at hseen
    simp at hseen

end DiscoSocket

end Daemon

end Gretun
