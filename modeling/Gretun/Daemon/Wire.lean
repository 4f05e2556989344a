import Gretun.Daemon.Messages
import Gretun.Daemon.Pair
import Gretun.Disco.Envelope

/-!
# Envelopes between two daemons

In the system of two daemons a message that was sent to a key is opened by the holder
of that key. Here it is the bytes that travel: what a daemon sends is the envelope it
builds, and what it hands to a machine is the body of an envelope that opens without
an error. The two agree as long as the network does not touch the bytes.
-/

namespace Gretun

namespace Daemon

open Gretun.Disco

def Effect.envelope (x : Box) (j : Json) (rand : Except String Nonce)
    (sender : DiscoKey) : Effect → Option (Except String Bytes)
  | .udp _ recipient body => some (buildEnvelope x j rand sender recipient body)
  | .signal recipient body => some (buildEnvelope x j rand sender recipient body)
  | _ => none

def opened (x : Box) (j : Json) (recipient : DiscoKey) (buf : Bytes) : Option Body :=
  match openEnvelope x j buf recipient with
  | some (_, body, none) => some body
  | _ => none

/-- An envelope opens under its sender exactly for the holder of the key it was
sealed for. -/
theorem openBox_sealTo_eq {x : Box} (hx : x.Symbolic) {sender n : DiscoKey}
    (hsender : x.IsPair sender) (hn : x.IsPair n) (recipient : Key) (nonce : Nonce)
    (raw : Bytes) :
    x.openBox (x.sealTo [] raw nonce recipient sender.priv) nonce sender.pub n.priv =
      if recipient = n.pub then some raw else none := by
  split
  · rename_i heq
    refine hx.openBox_eq_some_iff.2 ⟨rfl, ?_⟩
    rw [heq, hsender, hx.precompute_comm, hn]
  · rename_i hne
    refine Option.eq_none_iff_forall_ne_some.2 fun plain hplain => hne ?_
    obtain ⟨-, hkey⟩ := hx.openBox_eq_some_iff.1 hplain
    rcases hx.pair_of_precompute _ _ _ _ hkey with ⟨heq, hp⟩ | ⟨-, hp⟩
    · rw [← heq, hn, hp, hsender]
    · rw [hn, hp]

theorem opened_envelope {x : Box} {j : Json} (hx : x.Symbolic) {sender n : DiscoKey}
    (hsender : x.IsPair sender) (hn : x.IsPair n) (nonce : Nonce)
    {eff : Effect} (hjson : ∀ body ∈ eff.body, j.Inverts body)
    {made : Except String Bytes}
    (hmade : eff.envelope x j (.ok nonce) sender = some made) :
    ∃ env, made = .ok env ∧ opened x j n env = eff.bodyFor n.pub := by
  have hbuilt : ∀ recipient, ∀ body ∈ eff.body, ∃ env,
      buildEnvelope x j (.ok nonce) sender recipient body = .ok env ∧
        opened x j n env = if recipient = n.pub then some body else none := by
    intro recipient body hmem
    obtain ⟨raw, hraw, hbody⟩ := hjson body hmem
    refine ⟨_, buildEnvelope_ok x hraw nonce sender recipient, ?_⟩
    rw [opened, openEnvelope_append, openBox_sealTo_eq hx hsender hn]
    by_cases heq : recipient = n.pub
    · simp [heq, unmarshalBody, hbody]
    · simp [heq]
  cases eff with
  | udp dst recipient body =>
      obtain rfl := Option.some.inj hmade
      exact hbuilt recipient body rfl
  | signal recipient body =>
      obtain rfl := Option.some.inj hmade
      exact hbuilt recipient body rfl
  | pingSent => cases hmade
  | pongRecv => cases hmade
  | holePunch d => cases hmade

end Daemon

end Gretun
