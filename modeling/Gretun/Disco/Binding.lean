import Gretun.Disco.Envelope

/-!
# Who can open an envelope

The sender's key travels in the clear, in front of the sealed part, and the key of a
box belongs to the unordered pair of its two ends. A rewritten header therefore
decides under which sender an envelope is opened, and the two ends of the pair are
the only nodes that can open it, each with the other as the sender. In particular
an envelope that is sent back to the node that built it, with the sender replaced by
the recipient it was for, is opened there.
-/

namespace Gretun

namespace Disco

theorem drop_of_buildEnvelope {x : Box} {j : Json} {nonce : Nonce}
    {sender : DiscoKey} {recipient : Key} {body : Body} {env : Bytes}
    (h : buildEnvelope x j (.ok nonce) sender recipient body = .ok env) :
    ∃ raw, j.marshal body = .ok raw ∧
      env.drop 38 = nonce.toList ++ x.sealTo [] raw nonce recipient sender.priv := by
  cases hraw : j.marshal body with
  | error err => simp [buildEnvelope, hraw, bind, Except.bind] at h
  | ok raw =>
      rw [buildEnvelope_ok x hraw] at h
      cases h
      exact ⟨raw, rfl, List.drop_left' (by simp)⟩

/-- A node and the sender it reads in a header compute the key of a pair exactly when
they are the two ends of the pair. -/
theorem precompute_eq_iff {x : Box} (hx : x.Symbolic) {a b n : DiscoKey}
    (ha : x.IsPair a) (hb : x.IsPair b) (hn : x.IsPair n) (sender : Key) :
    x.precompute sender n.priv = x.precompute b.pub a.priv ↔
      (n.pub = b.pub ∧ sender = a.pub) ∨ (n.pub = a.pub ∧ sender = b.pub) := by
  constructor
  · intro h
    rcases hx.pair_of_precompute _ _ _ _ h with ⟨hs, hp⟩ | ⟨hs, hp⟩
    · exact Or.inr ⟨by rw [hn, hp, ha], hs⟩
    · exact Or.inl ⟨by rw [hn, hp], by rw [hs, ha]⟩
  · rintro (⟨hp, rfl⟩ | ⟨hp, rfl⟩)
    · rw [ha, hx.precompute_comm, ← hn, hp]
    · rw [hb, hx.precompute_comm, ← hn, hp, ha, hx.precompute_comm]

theorem openEnvelope_of_ends {x : Box} {j : Json} (hx : x.Symbolic)
    {a b n : DiscoKey} (ha : x.IsPair a) (hb : x.IsPair b) (hn : x.IsPair n)
    {nonce : Nonce} {body : Body} {env : Bytes}
    (henv : buildEnvelope x j (.ok nonce) a b.pub body = .ok env)
    {header : Vector UInt8 38} {sender : Key} {opened : Body}
    (hheader : header.toList = magic.toList ++ sender.toList)
    (hjson : ∃ raw, j.marshal body = .ok raw ∧ j.unmarshal raw = .ok opened)
    (hends : (n.pub = b.pub ∧ sender = a.pub) ∨ (n.pub = a.pub ∧ sender = b.pub)) :
    openEnvelope x j (header.toList ++ env.drop 38) n =
      some (sender, opened, none) := by
  obtain ⟨raw, hraw, hdrop⟩ := drop_of_buildEnvelope henv
  obtain ⟨raw', hraw', hbody⟩ := hjson
  have hraws : raw' = raw := Except.ok.inj (hraw'.symm.trans hraw)
  rw [hdrop, openEnvelope_eq]
  refine ⟨nonce, _, raw, by rw [hheader], ?_, by rw [← hraws, hbody]⟩
  exact hx.openBox_eq_some_iff.2 ⟨rfl, (precompute_eq_iff hx ha hb hn sender).2 hends⟩

/-- Whatever header is put in front of the sealed part of an envelope from `a` to
`b`: it opens exactly when the header names one of the two as the sender and the
other one opens it. -/
theorem openEnvelope_iff_ends {x : Box} {j : Json} (hx : x.Symbolic)
    {a b n : DiscoKey} (ha : x.IsPair a) (hb : x.IsPair b) (hn : x.IsPair n)
    {nonce : Nonce} {body : Body} {env : Bytes}
    (henv : buildEnvelope x j (.ok nonce) a b.pub body = .ok env)
    (header : Vector UInt8 38) (sender : Key) (opened : Body) :
    openEnvelope x j (header.toList ++ env.drop 38) n = some (sender, opened, none) ↔
      header.toList = magic.toList ++ sender.toList ∧
        (∃ raw, j.marshal body = .ok raw ∧ j.unmarshal raw = .ok opened) ∧
        ((n.pub = b.pub ∧ sender = a.pub) ∨ (n.pub = a.pub ∧ sender = b.pub)) := by
  constructor
  · intro h
    obtain ⟨raw, hraw, hdrop⟩ := drop_of_buildEnvelope henv
    rw [hdrop, openEnvelope_eq] at h
    obtain ⟨nonce', box, plain, hbuf, hopen, hbody⟩ := h
    obtain ⟨hheader, hsealed⟩ := List.append_inj hbuf (by simp)
    obtain ⟨hnonce, rfl⟩ := List.append_inj hsealed (by simp)
    rw [← Vector.toList_inj.1 hnonce] at hopen
    obtain ⟨rfl, hkey⟩ := hx.openBox_eq_some_iff.1 hopen
    exact ⟨hheader, ⟨_, hraw, hbody⟩, (precompute_eq_iff hx ha hb hn sender).1 hkey⟩
  · rintro ⟨hheader, hjson, hends⟩
    exact openEnvelope_of_ends hx ha hb hn henv hheader hjson hends

/-! ## An envelope sent back -/

def headerOf (k : DiscoKey) : Vector UInt8 38 := magic ++ k.pub

theorem toList_headerOf (k : DiscoKey) :
    (headerOf k).toList = magic.toList ++ k.pub.toList := Vector.toList_append

def sampleEnvelope : Bytes :=
  magic.toList ++ (sampleKey 1).pub.toList ++
    ((Vector.replicate 24 7 : Nonce).toList ++
      sampleBox.sealTo [] sampleText (Vector.replicate 24 7) (sampleKey 2).pub
        (sampleKey 1).priv)

theorem buildEnvelope_sample :
    buildEnvelope sampleBox sampleJson (.ok (Vector.replicate 24 7)) (sampleKey 1)
      (sampleKey 2).pub sampleBody = .ok sampleEnvelope :=
  buildEnvelope_ok sampleBox marshal_sampleBody _ _ _

/-- Under its own header, the recipient opens it. -/
theorem openEnvelope_of_sampleEnvelope :
    openEnvelope sampleBox sampleJson
        ((headerOf (sampleKey 1)).toList ++ sampleEnvelope.drop 38) (sampleKey 2) =
      some ((sampleKey 1).pub, sampleBody, none) :=
  (openEnvelope_iff_ends sampleBox_symbolic (isPair_sampleKey 1) (isPair_sampleKey 2)
    (isPair_sampleKey 2) buildEnvelope_sample (headerOf (sampleKey 1)) _ _).2
    ⟨toList_headerOf _, sampleJson_inverts, Or.inl ⟨rfl, rfl⟩⟩

/-- Sent back under the recipient's name, it is opened by the node that built it. -/
theorem openEnvelope_of_sent_back :
    sampleBox.Symbolic ∧ (sampleKey 1).pub ≠ (sampleKey 2).pub ∧
      buildEnvelope sampleBox sampleJson (.ok (Vector.replicate 24 7)) (sampleKey 1)
        (sampleKey 2).pub sampleBody = .ok sampleEnvelope ∧
      openEnvelope sampleBox sampleJson
          ((headerOf (sampleKey 2)).toList ++ sampleEnvelope.drop 38) (sampleKey 1) =
        some ((sampleKey 2).pub, sampleBody, none) := by
  refine ⟨sampleBox_symbolic, by decide, buildEnvelope_sample, ?_⟩
  exact openEnvelope_of_ends sampleBox_symbolic (isPair_sampleKey 1)
    (isPair_sampleKey 2) (isPair_sampleKey 1) buildEnvelope_sample
    (toList_headerOf _) sampleJson_inverts (Or.inr ⟨rfl, rfl⟩)

end Disco

end Gretun
