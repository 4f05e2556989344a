import Gretun.Basic
import Gretun.Net.Ip
import Mathlib.Data.List.AList

/-!
# STUN discovery

`DiscoverPublic` sends one binding request to each server, starts a goroutine that
reads responses off the socket, and waits for its context or for a result. A
`Discovery` is such a call on its way; its steps are functions on it, so that the
goroutine can go on reading after the call has returned. The STUN library is a
parameter.
-/

namespace Gretun

namespace Disco

open Gretun.Net

abbrev TransactionID := Vector UInt8 12

/-- `stun.Message`, as far as it is read. -/
structure StunMessage where
  transactionID : TransactionID
  /-- What `XORMappedAddress.GetFrom` finds. -/
  xorMapped : Option (IP × Port)

structure StunLibrary where
  isMessage : Bytes → Bool
  decode : Bytes → Option StunMessage

structure PublicEndpoint where
  addr : AddrPort
  via : String
  deriving DecidableEq

inductive DiscoverError where
  | unreachable
  | read
  | ctx
  deriving DecidableEq

/-- The requests under way, and the server each was sent to. -/
abbrev Pending := AList fun _ : TransactionID => String

def StunLibrary.message (stun : StunLibrary) (buf : Bytes) : Option StunMessage :=
  if stun.isMessage buf then stun.decode buf else none

def StunLibrary.Answers (stun : StunLibrary) (pending : Pending) (buf : Bytes) : Prop :=
  ∃ msg, stun.message buf = some msg ∧ msg.transactionID ∈ pending

instance (stun : StunLibrary) (pending : Pending) (buf : Bytes) :
    Decidable (stun.Answers pending buf) :=
  match h : stun.message buf with
  | none => .isFalse (by
      rintro ⟨msg, hmsg, -⟩
      rw [h] at hmsg
      cases hmsg)
  | some msg =>
      if hmem : msg.transactionID ∈ pending then .isTrue ⟨msg, h, hmem⟩
      else .isFalse (by
        rintro ⟨msg', hmsg, hmem'⟩
        rw [h] at hmsg
        cases hmsg
        exact hmem hmem')

theorem StunLibrary.not_answers {stun : StunLibrary} {buf : Bytes}
    (h : stun.isMessage buf = false) (pending : Pending) : ¬ stun.Answers pending buf := by
  rintro ⟨msg, hmsg, -⟩
  simp [message, h] at hmsg

def StunLibrary.endpoint (stun : StunLibrary) (pending : Pending) (buf : Bytes) :
    Option PublicEndpoint := do
  let msg ← stun.message buf
  let via ← pending.lookup msg.transactionID
  let (ip, port) ← msg.xorMapped
  let ip4 ← ip.to4
  return ⟨⟨ip4.addrFromSlice, port⟩, via⟩

inductive Goroutine where
  | idle
  | reading
  | done
  deriving DecidableEq

structure Discovery where
  pending : Pending := ∅
  goroutine : Goroutine := .idle
  ctxDone : Bool := false
  resCh : Option (Except DiscoverError PublicEndpoint) := none
  returned : Option (Except DiscoverError PublicEndpoint) := none

/-- What a call does, or what happens to it, other than a read of the goroutine. -/
inductive DiscoveryInput where
  /-- A request was written to the socket. -/
  | send (txID : TransactionID) (server : String)
  /-- The end of the loop over the servers. -/
  | listen
  /-- The goroutine's read fails, at its deadline for one. -/
  | fail
  | cancel
  /-- The call leaves its select because its context is done. -/
  | returnCtx
  /-- The call leaves its select with the result of the goroutine. -/
  | returnResult

namespace Discovery

def bufSize : ℕ := 1500

/-- The call returns; its context is cancelled as it does. -/
def finish (r : Except DiscoverError PublicEndpoint) (c : Discovery) : Discovery :=
  { c with returned := some r, ctxDone := true }

def step (c : Discovery) : DiscoveryInput → Discovery
  | .send txID server =>
      if c.goroutine = .idle ∧ c.returned = none then
        { c with pending := c.pending.insert txID server }
      else c
  | .listen =>
      if c.goroutine = .idle ∧ c.returned = none then
        if c.pending.keys = [] then c.finish (.error .unreachable)
        else { c with goroutine := .reading }
      else c
  | .fail =>
      if c.goroutine = .reading then
        { c with resCh := some (.error .read), goroutine := .done }
      else c
  | .cancel => { c with ctxDone := true }
  | .returnCtx =>
      if c.goroutine ≠ .idle ∧ c.returned = none ∧ c.ctxDone then
        c.finish (.error .ctx)
      else c
  | .returnResult =>
      if c.returned = none then c.resCh.elim c fun r => c.finish r else c

def read (stun : StunLibrary) (data : Bytes) (c : Discovery) : Discovery :=
  if c.ctxDone then { c with goroutine := .done }
  else match stun.endpoint c.pending (data.take bufSize) with
    | none => c
    | some ep => { c with resCh := some (.ok ep), goroutine := .done }

theorem returned_of_step {c : Discovery} {m : DiscoveryInput}
    (h : (c.step m).returned = none) : c.returned = none := by
  revert h
  cases m with
  | send | fail =>
      simp only [step]
      split <;> exact id
  | cancel => exact id
  | listen =>
      simp only [step]
      split
      · split
        · rintro ⟨⟩
        · exact id
      · exact id
  | returnCtx =>
      simp only [step]
      split
      · rintro ⟨⟩
      · exact id
  | returnResult =>
      simp only [step]
      split
      · rename_i hnone
        exact fun _ => hnone
      · exact id

theorem returned_read (stun : StunLibrary) (data : Bytes) (c : Discovery) :
    (c.read stun data).returned = c.returned := by
  unfold read
  split
  · rfl
  · split <;> rfl

end Discovery

end Disco

end Gretun
