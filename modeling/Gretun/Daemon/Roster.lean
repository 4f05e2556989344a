import Gretun.Daemon.Peer
import Gretun.Foundation.Assoc
import Gretun.Foundation.Run

/-!
# The machines of a daemon and the map that points to them

`Roster` is the state that `reconcilePeers` and `shutdown` share: the map from disco
keys to machines, the counter of interface names, and every machine that was ever
allocated, in order, so that a pointer is a position. `shutdown` leaves the nil map,
which reads as an empty one and panics when it is written to. The counter is a natural
number; the `int` of the source would wrap after `2 ^ 63` machines. What a machine holds
besides its name is left open: `Kit` says how it is made of a peer and what an update
does to it.
-/

namespace Gretun

namespace Daemon

open Gretun.Net
open Gretun.Disco
open Foundation.Run

/-! ## Interface names -/

/-- `fmt.Sprintf` with one integer, for a pattern without other verbs. -/
def sprintf : List Char → ℕ → List Char
  | '%' :: 'd' :: cs, n => Nat.toDigits 10 n ++ cs
  | c :: cs, n => c :: sprintf cs n
  | [], _ => []

/-- A pattern with a single `%d` and no other percent sign, so none with `%%`. -/
structure IfacePattern where
  before : List Char
  after : List Char
  before_plain : '%' ∉ before
  after_plain : '%' ∉ after

namespace IfacePattern

def text (p : IfacePattern) : List Char := p.before ++ '%' :: 'd' :: p.after

def iface (p : IfacePattern) (seq : ℕ) : String :=
  String.ofList (sprintf p.text seq)

theorem sprintf_append {cs : List Char} (h : '%' ∉ cs) (cs' : List Char) (n : ℕ) :
    sprintf (cs ++ cs') n = cs ++ sprintf cs' n := by
  induction cs with
  | nil => rfl
  | cons c cs ih =>
      have hc : c ≠ '%' := fun heq => h (heq ▸ List.mem_cons_self)
      rw [List.cons_append, sprintf,
        ih fun hmem => h (List.mem_cons_of_mem c hmem), List.cons_append]
      rintro cs'' heq
      exact absurd heq hc

theorem iface_injective (p : IfacePattern) : Function.Injective p.iface := by
  intro m n h
  have hchars := String.ofList_injective h
  rw [text, sprintf_append p.before_plain, sprintf_append p.before_plain] at hchars
  exact toDigits_ten_injective
    (List.append_cancel_right (List.append_cancel_left hchars))

end IfacePattern

/-! ## The state -/

/-- A machine as it was allocated. `started` says that its goroutine was started and
`stopped` that its `done` channel was closed. -/
structure Instance (φ : Type) where
  ifaceName : String
  body : φ
  started : Bool
  stopped : Bool

structure Kit (φ : Type) where
  self : Key
  pattern : IfacePattern
  new : String → RemotePeer → φ
  update : RemotePeer → φ → φ

def Kit.iface {φ : Type} (c : Kit φ) (seq : ℕ) : String := c.pattern.iface seq

structure Roster (φ : Type) where
  peers : Option (AList fun _ : Key => ℕ)
  ifaceSeq : ℕ
  fsms : List (Instance φ)
  panicked : Bool

namespace Roster

variable {φ : Type}

def empty : Roster φ where
  peers := some ∅
  ifaceSeq := 0
  fsms := []
  panicked := false

def find (t : Roster φ) (k : Key) : Option ℕ := t.peers.bind fun m => m.lookup k

def modify (t : Roster φ) (n : ℕ) (f : Instance φ → Instance φ) : Roster φ :=
  { t with fsms := t.fsms.modify n f }

def allocate (c : Kit φ) (t : Roster φ) (p : RemotePeer) : Roster φ :=
  { t with
    ifaceSeq := t.ifaceSeq + 1
    fsms := t.fsms ++
      [{ ifaceName := c.iface t.ifaceSeq
         body := c.new (c.iface t.ifaceSeq) p
         started := false
         stopped := false }] }

/-- `d.peers[k] = fsm`, for the machine at position `n`. -/
def store (t : Roster φ) (k : Key) (n : ℕ) : Roster φ :=
  match t.peers with
  | none => { t with panicked := true }
  | some m => { t with peers := some (m.insert k n) }

/-- `go fsm.run(ctx)`, which a panic before it prevents. -/
def start (t : Roster φ) (n : ℕ) : Roster φ :=
  if t.panicked then t else t.modify n fun x => { x with started := true }

/-- The body of the first loop of `reconcilePeers`. -/
def reconcileOne (c : Kit φ) (t : Roster φ) (p : RemotePeer) : Roster φ :=
  if t.panicked ∨ p.discoKey = c.self then t
  else
    match t.find p.discoKey with
    | none => ((t.allocate c p).store p.discoKey t.fsms.length).start t.fsms.length
    | some n => t.modify n fun x => { x with body := c.update p x.body }

def stop (t : Roster φ) (n : ℕ) : Roster φ :=
  t.modify n fun x => { x with stopped := true }

def drop (t : Roster φ) (k : Key) (n : ℕ) : Roster φ :=
  { t.stop n with peers := t.peers.map fun m => m.erase k }

/-- The body of the second loop of `reconcilePeers`. -/
def sweepOne (seen : List Key) (t : Roster φ) (k : Key) : Roster φ :=
  match t.find k with
  | none => t
  | some n => if seen.contains k then t else t.drop k n

def keys (t : Roster φ) : List Key := (t.peers.getD ∅).keys

def seenKeys (c : Kit φ) (ps : List RemotePeer) : List Key :=
  (ps.map (·.discoKey)).filter (· ≠ c.self)

def reconcilePeers (c : Kit φ) (t : Roster φ) (ps : List RemotePeer) : Roster φ :=
  let t := ps.foldl (reconcileOne c) t
  t.keys.foldl (sweepOne (seenKeys c ps)) t

def shutdown (t : Roster φ) : Roster φ :=
  { (Foundation.Assoc.values (t.peers.getD ∅)).foldl stop t with peers := none }

/-! ## What the map says after each operation -/

@[simp] theorem find_modify (t : Roster φ) (n : ℕ) (f : Instance φ → Instance φ)
    (k : Key) : (t.modify n f).find k = t.find k := rfl

theorem find_drop (t : Roster φ) (k k' : Key) (n : ℕ) :
    (t.drop k n).find k' = if k' = k then none else t.find k' := by
  unfold drop find
  cases t.peers with
  | none => simp
  | some m =>
      by_cases hk : k' = k
      · subst hk
        simp
      · simp [hk, AList.lookup_erase_ne hk]

theorem getElem?_modify_eq_some {t : Roster φ} {n m : ℕ}
    {f : Instance φ → Instance φ} {x : Instance φ}
    (h : (t.modify n f).fsms[m]? = some x) :
    ∃ y, t.fsms[m]? = some y ∧ x = if n = m then f y else y := by
  rw [modify, List.getElem?_modify] at h
  obtain ⟨y, hy, rfl⟩ := Option.map_eq_some_iff.1 h
  exact ⟨y, hy, rfl⟩

theorem getElem?_modify_of_some {t : Roster φ} {n m : ℕ} {y : Instance φ}
    (f : Instance φ → Instance φ) (h : t.fsms[m]? = some y) :
    (t.modify n f).fsms[m]? = some (if n = m then f y else y) := by
  rw [modify, List.getElem?_modify, h]
  rfl

theorem modify_length_append {α : Type} (l : List α) (x : α) (f : α → α) :
    (l ++ [x]).modify l.length f = l ++ [f x] := by
  induction l with
  | nil => rfl
  | cons y l ih =>
      rw [List.cons_append, List.length_cons, List.modify_succ_cons, ih,
        List.cons_append]

def create (c : Kit φ) (t : Roster φ) (m : AList fun _ : Key => ℕ)
    (p : RemotePeer) : Roster φ where
  peers := some (m.insert p.discoKey t.fsms.length)
  ifaceSeq := t.ifaceSeq + 1
  fsms := t.fsms ++
    [{ ifaceName := c.iface t.ifaceSeq
       body := c.new (c.iface t.ifaceSeq) p
       started := true
       stopped := false }]
  panicked := false

/-- All that an entry of a list can do: nothing, an update, a new machine, or a
write to the nil map. -/
theorem reconcileOne_cases (c : Kit φ) {t : Roster φ} (halive : t.panicked = false)
    (p : RemotePeer) :
    p.discoKey = c.self ∧ reconcileOne c t p = t ∨
      p.discoKey ≠ c.self ∧
        ((∃ n, t.find p.discoKey = some n ∧ reconcileOne c t p =
            t.modify n fun x => { x with body := c.update p x.body }) ∨
          (∃ m, t.peers = some m ∧ t.find p.discoKey = none ∧
            reconcileOne c t p = t.create c m p) ∨
          t.peers = none ∧
            reconcileOne c t p = { t.allocate c p with panicked := true }) := by
  unfold reconcileOne
  by_cases hself : p.discoKey = c.self
  · exact Or.inl ⟨hself, by rw [if_pos (Or.inr hself)]⟩
  · refine Or.inr ⟨hself, ?_⟩
    rw [if_neg (by simp [halive, hself])]
    cases hfind : t.find p.discoKey with
    | some n => exact Or.inl ⟨n, rfl, rfl⟩
    | none =>
        right
        cases hpeers : t.peers with
        | none =>
            refine Or.inr ⟨rfl, ?_⟩
            simp [store, allocate, hpeers, start]
        | some m =>
            refine Or.inl ⟨m, rfl, rfl, ?_⟩
            simp [store, allocate, hpeers, start, halive, modify, create,
              modify_length_append]

/-! ## The invariant -/

/-- The map points to machines that run, two keys never to the same one; a machine
that is not stopped is in the map; and machines are named by their position. -/
structure Inv (c : Kit φ) (t : Roster φ) : Prop where
  alive : t.panicked = false
  count : t.ifaceSeq = t.fsms.length
  names : ∀ n x, t.fsms[n]? = some x → x.ifaceName = c.iface n
  live : ∀ k n, t.find k = some n →
    ∃ x, t.fsms[n]? = some x ∧ x.started = true ∧ x.stopped = false
  inj : ∀ k k' n, t.find k = some n → t.find k' = some n → k = k'
  gone : ∀ n x, t.fsms[n]? = some x → x.stopped = false → ∃ k, t.find k = some n

theorem inv_empty (c : Kit φ) : Inv c (empty : Roster φ) := by
  have hnone : ∀ k, (empty : Roster φ).find k = none := fun k => rfl
  refine ⟨rfl, rfl, ?_, ?_, ?_, ?_⟩
  · intro n x hx
    cases hx
  · intro k n hk
    rw [hnone] at hk
    cases hk
  · intro k k' n hk
    rw [hnone] at hk
    cases hk
  · intro n x hx
    cases hx

/-- Work on what a machine holds is no concern of the table. -/
theorem Inv.modify {c : Kit φ} {t : Roster φ} (h : t.Inv c) (n : ℕ)
    (f : φ → φ) : (t.modify n fun x => { x with body := f x.body }).Inv c := by
  refine ⟨h.alive, ?_, ?_, ?_, h.inj, ?_⟩
  · rw [Roster.modify, List.length_modify]
    exact h.count
  · intro m x hx
    obtain ⟨y, hy, rfl⟩ := getElem?_modify_eq_some hx
    rw [← h.names m y hy]
    split <;> rfl
  · intro k m hk
    obtain ⟨y, hy, hstarted, hstopped⟩ := h.live k m hk
    refine ⟨_, getElem?_modify_of_some _ hy, ?_, ?_⟩
    · split <;> exact hstarted
    · split <;> exact hstopped
  · intro m x hx hstopped
    obtain ⟨y, hy, rfl⟩ := getElem?_modify_eq_some hx
    refine h.gone m y hy ?_
    split at hstopped <;> exact hstopped

theorem getElem?_create {c : Kit φ} {t : Roster φ} {m : AList fun _ : Key => ℕ}
    {p : RemotePeer} {n : ℕ} {x : Instance φ}
    (hx : (t.create c m p).fsms[n]? = some x) :
    t.fsms[n]? = some x ∨ n = t.fsms.length ∧
      x = ⟨c.iface t.ifaceSeq, c.new (c.iface t.ifaceSeq) p, true, false⟩ := by
  change (t.fsms ++ [_])[n]? = some x at hx
  rcases Nat.lt_or_ge n t.fsms.length with hn | hn
  · rw [List.getElem?_append_left hn] at hx
    exact Or.inl hx
  · rw [List.getElem?_append_right hn] at hx
    obtain ⟨hzero, hlast⟩ := List.getElem?_eq_some_iff.1 hx
    refine Or.inr ⟨?_, ?_⟩
    · rw [List.length_singleton] at hzero
      omega
    · rw [List.getElem_singleton] at hlast
      exact hlast.symm

theorem find_create {c : Kit φ} {t : Roster φ} {m : AList fun _ : Key => ℕ}
    (hpeers : t.peers = some m) (p : RemotePeer) (k : Key) :
    (t.create c m p).find k =
      if k = p.discoKey then some t.fsms.length else t.find k := by
  change (m.insert p.discoKey t.fsms.length).lookup k = _
  by_cases hk : k = p.discoKey
  · rw [hk, AList.lookup_insert, if_pos rfl]
  · rw [AList.lookup_insert_ne hk, if_neg hk, find, hpeers]
    rfl

theorem Inv.create {c : Kit φ} {t : Roster φ} (h : t.Inv c)
    {m : AList fun _ : Key => ℕ} (hpeers : t.peers = some m) {p : RemotePeer}
    (hnew : t.find p.discoKey = none) : (t.create c m p).Inv c := by
  have hlt : ∀ k n, t.find k = some n → n < t.fsms.length := by
    intro k n hk
    obtain ⟨x, hx, -⟩ := h.live k n hk
    exact (List.getElem?_eq_some_iff.1 hx).1
  refine ⟨rfl, ?_, ?_, ?_, ?_, ?_⟩
  · change t.ifaceSeq + 1 = (t.fsms ++ [_]).length
    rw [List.length_append, h.count]
    rfl
  · intro n x hx
    rcases getElem?_create hx with hold | ⟨rfl, rfl⟩
    · exact h.names n x hold
    · rw [h.count]
  · intro k n hk
    rw [find_create hpeers] at hk
    split at hk
    · obtain rfl := Option.some.inj hk
      exact ⟨_, List.getElem?_concat_length, rfl, rfl⟩
    · obtain ⟨x, hx, hlive⟩ := h.live k n hk
      refine ⟨x, ?_, hlive⟩
      exact (List.getElem?_append_left (hlt k n hk)).trans hx
  · intro k k' n hk hk'
    rw [find_create hpeers] at hk hk'
    split at hk
    · rename_i hkp
      split at hk'
      · rename_i hkp'
        rw [hkp, hkp']
      · have hn := hlt k' n hk'
        have heq := Option.some.inj hk
        omega
    · split at hk'
      · have hn := hlt k n hk
        have heq := Option.some.inj hk'
        omega
      · exact h.inj k k' n hk hk'
  · intro n x hx hstopped
    rcases getElem?_create hx with hold | ⟨rfl, -⟩
    · obtain ⟨k, hk⟩ := h.gone n x hold hstopped
      have hne : k ≠ p.discoKey := by
        rintro rfl
        rw [hnew] at hk
        cases hk
      exact ⟨k, by rw [find_create hpeers, if_neg hne, hk]⟩
    · exact ⟨p.discoKey, by rw [find_create hpeers, if_pos rfl]⟩

theorem Inv.drop {c : Kit φ} {t : Roster φ} (h : t.Inv c) {k : Key} {n : ℕ}
    (hk : t.find k = some n) : (t.drop k n).Inv c := by
  have hother : ∀ k' m, (t.drop k n).find k' = some m →
      t.find k' = some m ∧ n ≠ m := by
    intro k' m hm
    rw [find_drop] at hm
    split at hm
    · cases hm
    · rename_i hne
      refine ⟨hm, fun heq => hne ?_⟩
      exact h.inj k' k m hm (heq ▸ hk)
  refine ⟨h.alive, ?_, ?_, ?_, ?_, ?_⟩
  · change t.ifaceSeq = (t.fsms.modify n _).length
    rw [List.length_modify]
    exact h.count
  · intro m x hx
    obtain ⟨y, hy, rfl⟩ := getElem?_modify_eq_some hx
    rw [← h.names m y hy]
    split <;> rfl
  · intro k' m hm
    obtain ⟨hold, hne⟩ := hother k' m hm
    obtain ⟨x, hx, hlive⟩ := h.live k' m hold
    have hx' := getElem?_modify_of_some (n := n)
      (fun x => { x with stopped := true }) hx
    rw [if_neg hne] at hx'
    exact ⟨x, hx', hlive⟩
  · intro k₁ k₂ m h₁ h₂
    exact h.inj k₁ k₂ m (hother k₁ m h₁).1 (hother k₂ m h₂).1
  · intro m x hx hstopped
    obtain ⟨y, hy, rfl⟩ := getElem?_modify_eq_some hx
    split at hstopped
    · cases hstopped
    · rename_i hne
      rw [if_neg hne] at hx
      obtain ⟨k', hk'⟩ := h.gone m y hy hstopped
      refine ⟨k', ?_⟩
      rw [find_drop, if_neg ?_, hk']
      rintro rfl
      exact hne (Option.some.inj (hk.symm.trans hk'))

/-! ## Panics -/

/-- The first loop never changes whether the map is nil. -/
theorem peers_reconcileOne (c : Kit φ) (t : Roster φ) (p : RemotePeer) :
    (reconcileOne c t p).peers = none ↔ t.peers = none := by
  cases halive : t.panicked with
  | true => rw [reconcileOne, if_pos (Or.inl halive)]
  | false =>
      rcases reconcileOne_cases c halive p with
        ⟨-, heq⟩ | ⟨-, ⟨n, -, heq⟩ | ⟨m, hm, -, heq⟩ | ⟨hnil, heq⟩⟩
      · rw [heq]
      · rw [heq]
        rfl
      · rw [heq, hm]
        simp [create]
      · rw [heq]
        exact Iff.rfl

/-- An entry other than the node's own makes a nil map panic. -/
theorem panicked_reconcileOne (c : Kit φ) (t : Roster φ) (p : RemotePeer) :
    (reconcileOne c t p).panicked = true ↔
      t.panicked = true ∨ t.peers = none ∧ p.discoKey ≠ c.self := by
  cases halive : t.panicked with
  | true => simp [reconcileOne, halive]
  | false =>
      rcases reconcileOne_cases c halive p with
        ⟨hself, heq⟩ | ⟨hself, ⟨n, hn, heq⟩ | ⟨m, hm, -, heq⟩ | ⟨hnil, heq⟩⟩
      · simp [heq, halive, hself]
      · have hmap : t.peers ≠ none := by
          intro hnil
          rw [find, hnil] at hn
          cases hn
        rw [heq]
        simp [Roster.modify, halive, hmap]
      · rw [heq, hm]
        simp [create]
      · rw [heq]
        simp [hnil, hself]

theorem panicked_foldl_reconcileOne (c : Kit φ) (t : Roster φ)
    (ps : List RemotePeer) :
    (ps.foldl (reconcileOne c) t).panicked = true ↔
      t.panicked = true ∨ t.peers = none ∧ ∃ p ∈ ps, p.discoKey ≠ c.self := by
  induction ps generalizing t with
  | nil => simp
  | cons p ps ih =>
      rw [List.foldl_cons, ih, panicked_reconcileOne, peers_reconcileOne]
      simp only [List.mem_cons, exists_eq_or_imp]
      tauto

theorem peers_sweepOne (seen : List Key) (t : Roster φ) (k : Key) :
    (sweepOne seen t k).peers = none ↔ t.peers = none := by
  unfold sweepOne
  split
  · rfl
  · split
    · rfl
    · simp [drop]

theorem peers_reconcilePeers (c : Kit φ) (t : Roster φ) (ps : List RemotePeer) :
    (reconcilePeers c t ps).peers = none ↔ t.peers = none := by
  have hloop : (ps.foldl (reconcileOne c) t).peers = none ↔ t.peers = none :=
    List.foldlRecOn (motive := fun s : Roster φ => s.peers = none ↔ t.peers = none)
      ps _ Iff.rfl fun s hs p _ => (peers_reconcileOne c s p).trans hs
  exact List.foldlRecOn (motive := fun s : Roster φ => s.peers = none ↔ t.peers = none)
    _ _ hloop fun s hs k _ => (peers_sweepOne _ s k).trans hs

@[simp] theorem panicked_sweepOne (seen : List Key) (t : Roster φ) (k : Key) :
    (sweepOne seen t k).panicked = t.panicked := by
  unfold sweepOne
  split
  · rfl
  · split <;> rfl

/-- `reconcilePeers` panics when the map is nil and the list has a key other than
the node's own. -/
theorem panicked_reconcilePeers (c : Kit φ) (t : Roster φ) (ps : List RemotePeer) :
    (reconcilePeers c t ps).panicked = true ↔
      t.panicked = true ∨ t.peers = none ∧ ∃ p ∈ ps, p.discoKey ≠ c.self := by
  rw [← panicked_foldl_reconcileOne, reconcilePeers]
  have hsweep : ∀ (ks : List Key) (t' : Roster φ),
      (ks.foldl (sweepOne (seenKeys c ps)) t').panicked = t'.panicked := by
    intro ks t'
    exact List.foldlRecOn (motive := fun s : Roster φ => s.panicked = t'.panicked)
      ks _ rfl fun s hs k _ => (panicked_sweepOne _ s k).trans hs
  rw [hsweep]

/-! ## Lists keep the invariant -/

theorem Inv.reconcileOne {c : Kit φ} {t : Roster φ} (h : t.Inv c) (p : RemotePeer)
    (hok : (reconcileOne c t p).panicked = false) :
    (reconcileOne c t p).Inv c := by
  rcases reconcileOne_cases c h.alive p with
    ⟨-, heq⟩ | ⟨-, ⟨n, -, heq⟩ | ⟨m, hm, hnew, heq⟩ | ⟨-, heq⟩⟩
  · rwa [heq]
  · rw [heq]
    exact h.modify n (c.update p)
  · rw [heq]
    exact h.create hm hnew
  · rw [heq] at hok
    cases hok

theorem Inv.sweepOne {c : Kit φ} {t : Roster φ} (h : t.Inv c) (seen : List Key)
    (k : Key) : (sweepOne seen t k).Inv c := by
  unfold Roster.sweepOne
  split
  · exact h
  · rename_i n hk
    split
    · exact h
    · exact h.drop hk

/-! ## Which keys have a machine -/

theorem find_reconcileOne_of_some {c : Kit φ} {t : Roster φ} {k : Key} {n : ℕ}
    (hk : t.find k = some n) (p : RemotePeer) :
    (reconcileOne c t p).find k = some n := by
  cases halive : t.panicked with
  | true => rwa [reconcileOne, if_pos (Or.inl halive)]
  | false =>
      rcases reconcileOne_cases c halive p with
        ⟨-, heq⟩ | ⟨-, ⟨n, -, heq⟩ | ⟨m, hm, hnew, heq⟩ | ⟨-, heq⟩⟩
      · rwa [heq]
      · rwa [heq]
      · rw [heq, find_create hm, if_neg, hk]
        rintro rfl
        rw [hnew] at hk
        cases hk
      · rw [heq]
        exact hk

theorem isSome_find_reconcileOne {c : Kit φ} {t : Roster φ}
    (halive : t.panicked = false) (hmap : t.peers ≠ none) (p : RemotePeer)
    (k : Key) :
    ((reconcileOne c t p).find k).isSome ↔
      (t.find k).isSome ∨ k = p.discoKey ∧ k ≠ c.self := by
  rcases reconcileOne_cases c halive p with
    ⟨hself, heq⟩ | ⟨hself, ⟨n, hn, heq⟩ | ⟨m, hm, -, heq⟩ | ⟨hnil, -⟩⟩
  · have hnot : ¬ (k = p.discoKey ∧ k ≠ c.self) := fun h => h.2 (h.1.trans hself)
    rw [heq]
    simp only [hnot, or_false]
  · rw [heq, find_modify]
    constructor
    · exact Or.inl
    · rintro (h | ⟨rfl, -⟩)
      · exact h
      · rw [hn]
        rfl
  · rw [heq, find_create hm]
    by_cases hk : k = p.discoKey
    · simp [hk, hself]
    · simp [hk]
  · exact absurd hnil hmap

theorem isSome_find_foldl_reconcileOne {c : Kit φ} {t : Roster φ}
    (halive : t.panicked = false) (hmap : t.peers ≠ none) (ps : List RemotePeer)
    (k : Key) :
    ((ps.foldl (reconcileOne c) t).find k).isSome ↔
      (t.find k).isSome ∨ k ∈ seenKeys c ps := by
  induction ps generalizing t with
  | nil => simp [seenKeys]
  | cons p ps ih =>
      have halive' : (reconcileOne c t p).panicked = false := by
        by_contra h
        rw [Bool.not_eq_false, panicked_reconcileOne, halive] at h
        rcases h with h | h
        · cases h
        · exact hmap h.1
      rw [List.foldl_cons, ih halive' (mt (peers_reconcileOne c t p).1 hmap),
        isSome_find_reconcileOne halive hmap]
      simp only [seenKeys, List.map_cons, List.mem_filter, List.mem_cons,
        decide_eq_true_eq]
      tauto

theorem find_sweepOne (seen : List Key) (t : Roster φ) (k k' : Key) :
    (sweepOne seen t k').find k =
      if k = k' ∧ k ∉ seen then none else t.find k := by
  unfold sweepOne
  split
  · rename_i hnone
    by_cases hk : k = k'
    · rw [hk, hnone]
      simp
    · simp [hk]
  · split
    · rename_i hseen
      rw [if_neg]
      rintro ⟨rfl, hnot⟩
      exact hnot (List.contains_iff_mem.1 hseen)
    · rename_i hseen
      rw [List.contains_iff_mem] at hseen
      rw [find_drop]
      by_cases hk : k = k'
      · simp [hk, hseen]
      · simp [hk]

/-- What sweeping one key does to a view of the state, sweeping a list of keys does
for each of them. -/
theorem foldl_sweep {σ α : Type} {step : σ → Key → σ} {v : σ → Key → Option α}
    {seen : List Key}
    (h : ∀ s k k', v (step s k') k =
      if k = k' ∧ k ∉ seen then none else v s k) (ks : List Key) (s : σ)
    (k : Key) :
    v (ks.foldl step s) k = if k ∈ ks ∧ k ∉ seen then none else v s k := by
  induction ks generalizing s with
  | nil => simp
  | cons k' ks ih =>
      rw [List.foldl_cons, ih, h]
      by_cases hseen : k ∈ seen
      · simp [hseen]
      · by_cases hk : k = k'
        · subst hk
          simp [hseen]
        · simp [hseen, hk]

theorem mem_keys (t : Roster φ) (k : Key) : k ∈ t.keys ↔ (t.find k).isSome := by
  unfold keys find
  cases t.peers with
  | none => simp [AList.keys]
  | some m =>
      rw [Option.getD_some, Option.bind_some, AList.lookup_isSome]
      rfl

/-- After a list, a key that was not seen has no machine, and one that was seen has
the machine the first loop left it with. -/
theorem find_reconcilePeers (c : Kit φ) (t : Roster φ) (ps : List RemotePeer)
    (k : Key) :
    (reconcilePeers c t ps).find k =
      if k ∈ seenKeys c ps then (ps.foldl (reconcileOne c) t).find k else none := by
  rw [reconcilePeers, foldl_sweep (find_sweepOne _)]
  simp only [mem_keys]
  by_cases hseen : k ∈ seenKeys c ps
  · simp [hseen]
  · cases (ps.foldl (reconcileOne c) t).find k <;> simp [hseen]

/-- The keys with a machine are those that the list has, without the node's own. -/
theorem isSome_find_reconcilePeers {c : Kit φ} {t : Roster φ}
    (halive : t.panicked = false) (hmap : t.peers ≠ none) (ps : List RemotePeer)
    (k : Key) :
    ((reconcilePeers c t ps).find k).isSome ↔ k ∈ seenKeys c ps := by
  rw [find_reconcilePeers]
  split
  · rename_i hseen
    rw [isSome_find_foldl_reconcileOne halive hmap]
    simp [hseen]
  · rename_i hseen
    simp [hseen]

theorem find_reconcilePeers_of_some {c : Kit φ} {t : Roster φ} {k : Key} {n : ℕ}
    (hk : t.find k = some n) {ps : List RemotePeer} (hseen : k ∈ seenKeys c ps) :
    (reconcilePeers c t ps).find k = some n := by
  rw [find_reconcilePeers, if_pos hseen]
  exact List.foldlRecOn (motive := fun s : Roster φ => s.find k = some n) ps _ hk
    fun s hs p _ => find_reconcileOne_of_some hs p

structure Serving (c : Kit φ) (t : Roster φ) : Prop where
  inv : t.Inv c
  map : t.peers ≠ none

theorem Serving.reconcileOne {c : Kit φ} {t : Roster φ} (h : t.Serving c)
    (p : RemotePeer) : (reconcileOne c t p).Serving c := by
  refine ⟨h.inv.reconcileOne p ?_, mt (peers_reconcileOne c t p).1 h.map⟩
  by_contra hpanic
  rw [Bool.not_eq_false, panicked_reconcileOne, h.inv.alive] at hpanic
  rcases hpanic with hpanic | hpanic
  · cases hpanic
  · exact h.map hpanic.1

theorem Serving.sweepOne {c : Kit φ} {t : Roster φ} (h : t.Serving c)
    (seen : List Key) (k : Key) : (sweepOne seen t k).Serving c :=
  ⟨h.inv.sweepOne seen k, mt (peers_sweepOne seen t k).1 h.map⟩

theorem Serving.reconcilePeers {c : Kit φ} {t : Roster φ} (h : t.Serving c)
    (ps : List RemotePeer) : (reconcilePeers c t ps).Serving c :=
  invariant_foldl (I := fun t : Roster φ => t.Serving c)
    (fun _ k ht => ht.sweepOne _ k)
    (invariant_foldl (I := fun t : Roster φ => t.Serving c)
      (fun _ p ht => ht.reconcileOne p) h ps) _

theorem serving_run (c : Kit φ) (lists : List (List RemotePeer)) :
    (lists.foldl (Roster.reconcilePeers c) empty).Serving c :=
  invariant_foldl (I := fun t : Roster φ => t.Serving c)
    (fun _ ps ht => ht.reconcilePeers ps) ⟨inv_empty c, by simp [empty]⟩ lists

/-- The interface names of all machines that were ever allocated are different. -/
theorem Inv.nodup_names {c : Kit φ} {t : Roster φ} (h : t.Inv c) :
    (t.fsms.map Instance.ifaceName).Nodup := by
  rw [List.nodup_iff_injective_get]
  intro i j hij
  have hname : ∀ i : Fin (t.fsms.map Instance.ifaceName).length,
      (t.fsms.map Instance.ifaceName).get i = c.iface i := by
    intro i
    have hi : (i : ℕ) < t.fsms.length := by simpa using i.isLt
    rw [List.get_eq_getElem, List.getElem_map]
    exact h.names i _ (List.getElem?_eq_getElem hi)
  rw [hname, hname] at hij
  exact Fin.ext (c.pattern.iface_injective hij)

/-! ## The bodies of the machines -/

def bodies (t : Roster φ) : List φ := t.fsms.map Instance.body

theorem exists_split {α : Type} {l : List α} {n : ℕ} {x : α} (h : l[n]? = some x) :
    ∃ l₁ l₂, l = l₁ ++ x :: l₂ ∧ ∀ f : α → α, l.modify n f = l₁ ++ f x :: l₂ := by
  obtain ⟨hn, rfl⟩ := List.getElem?_eq_some_iff.1 h
  have hmodify := fun f : α → α => List.modify_eq_take_cons_drop (f := f) hn
  refine ⟨l.take n, l.drop (n + 1), ?_, hmodify⟩
  have hid := hmodify id
  rwa [List.modify_id] at hid

theorem bodies_modify (t : Roster φ) (n : ℕ) {f : Instance φ → Instance φ}
    {g : φ → φ} (h : ∀ x, (f x).body = g x.body) :
    (t.modify n f).bodies = t.bodies.modify n g := by
  apply List.ext_getElem?
  intro m
  rw [bodies, modify, List.getElem?_map, List.getElem?_modify, List.getElem?_modify,
    bodies, List.getElem?_map]
  cases t.fsms[m]? with
  | none => rfl
  | some x =>
      by_cases hn : n = m
      · simp [hn, h]
      · simp [hn]

theorem bodies_modify_of_eq (t : Roster φ) (n : ℕ) {f : Instance φ → Instance φ}
    (h : ∀ x, (f x).body = x.body) : (t.modify n f).bodies = t.bodies := by
  rw [bodies_modify t n (g := id) h, List.modify_id]

theorem bodies_sweepOne (seen : List Key) (t : Roster φ) (k : Key) :
    (sweepOne seen t k).bodies = t.bodies := by
  unfold sweepOne
  split
  · rfl
  · split
    · rfl
    · exact bodies_modify_of_eq t _ fun _ => rfl

theorem bodies_shutdown (t : Roster φ) : t.shutdown.bodies = t.bodies := by
  refine List.foldlRecOn (motive := fun s : Roster φ => s.bodies = t.bodies) _ _ rfl
    fun s hs n _ => ?_
  rw [← hs]
  exact bodies_modify_of_eq s n fun _ => rfl

/-- What holds of the bodies and is kept by updating one of them and by adding a new
one is kept by reconciling a list. -/
theorem bodies_reconcilePeers {c : Kit φ} {Q : List φ → Prop}
    (hupdate : ∀ l₁ x l₂ p, Q (l₁ ++ x :: l₂) → Q (l₁ ++ c.update p x :: l₂))
    (hnew : ∀ l name p, Q l → Q (l ++ [c.new name p])) {t : Roster φ}
    (h : Q t.bodies) (ps : List RemotePeer) : Q (reconcilePeers c t ps).bodies := by
  have hone : ∀ (t : Roster φ) (p : RemotePeer), Q t.bodies →
      Q (reconcileOne c t p).bodies := by
    intro t p ht
    cases halive : t.panicked with
    | true => rwa [reconcileOne, if_pos (Or.inl halive)]
    | false =>
        rcases reconcileOne_cases c halive p with
          ⟨-, heq⟩ | ⟨-, ⟨n, -, heq⟩ | ⟨m, -, -, heq⟩ | ⟨-, heq⟩⟩
        · rwa [heq]
        · rw [heq, bodies_modify t n (g := c.update p) fun _ => rfl]
          cases hn : t.bodies[n]? with
          | none =>
              rwa [List.modify_eq_self]
              exact List.getElem?_eq_none_iff.1 hn
          | some x =>
              obtain ⟨l₁, l₂, hsplit, hmodify⟩ := exists_split hn
              rw [hmodify]
              rw [hsplit] at ht
              exact hupdate l₁ x l₂ p ht
        · rw [heq, bodies, create, List.map_append]
          exact hnew _ _ p ht
        · rw [heq, bodies, allocate, List.map_append]
          exact hnew _ _ p ht
  have hsweep : ∀ (ks seen : List Key) (t : Roster φ),
      (ks.foldl (sweepOne seen) t).bodies = t.bodies := by
    intro ks seen t
    refine List.foldlRecOn (motive := fun s : Roster φ => s.bodies = t.bodies) ks _ rfl
      fun s hs k _ => ?_
    rw [bodies_sweepOne, hs]
  rw [reconcilePeers, hsweep]
  exact List.foldlRecOn (motive := fun s : Roster φ => Q s.bodies) ps _ h
    fun s hs p _ => hone s p hs

/-- Let any lists come in one after the other. After each of them the keys with a
machine are exactly those of the list without the node's own; a key that the next
list has too keeps its machine; a machine that the map does not point to has been
stopped, and one that it points to has not; and the interface names of all machines
that were ever allocated are different. -/
theorem reconcile_exact (c : Kit φ) (lists : List (List RemotePeer))
    (ps : List RemotePeer) :
    let t := reconcilePeers c (lists.foldl (reconcilePeers c) empty) ps
    (∀ k, (t.find k).isSome ↔ k ∈ ps.map (·.discoKey) ∧ k ≠ c.self) ∧
    (∀ next k, k ∈ ps.map (·.discoKey) → k ∈ next.map (·.discoKey) → k ≠ c.self →
      ∃ n, t.find k = some n ∧ (reconcilePeers c t next).find k = some n) ∧
    (∀ n x, t.fsms[n]? = some x →
      (x.stopped = true ↔ ∀ k, t.find k ≠ some n)) ∧
    (t.fsms.map Instance.ifaceName).Nodup := by
  have hbefore := serving_run c lists
  have hserving := hbefore.reconcilePeers ps
  have hseen : ∀ (qs : List RemotePeer) k,
      k ∈ seenKeys c qs ↔ k ∈ qs.map (·.discoKey) ∧ k ≠ c.self := by
    intro qs k
    rw [seenKeys, List.mem_filter, decide_eq_true_eq]
  have hkeys : ∀ k,
      ((reconcilePeers c (lists.foldl (reconcilePeers c) empty) ps).find k).isSome ↔
        k ∈ ps.map (·.discoKey) ∧ k ≠ c.self := by
    intro k
    rw [← hseen]
    exact isSome_find_reconcilePeers hbefore.inv.alive hbefore.map ps k
  refine ⟨hkeys, ?_, ?_, hserving.inv.nodup_names⟩
  · intro next k hps hnext hself
    obtain ⟨n, hn⟩ := Option.isSome_iff_exists.1 ((hkeys k).2 ⟨hps, hself⟩)
    exact ⟨n, hn, find_reconcilePeers_of_some hn ((hseen next k).2 ⟨hnext, hself⟩)⟩
  · intro n x hx
    constructor
    · intro hstopped k hk
      obtain ⟨y, hy, -, hrunning⟩ := hserving.inv.live k n hk
      obtain rfl := Option.some.inj (hx.symm.trans hy)
      rw [hstopped] at hrunning
      cases hrunning
    · intro hnone
      by_contra hrunning
      rw [Bool.not_eq_true] at hrunning
      obtain ⟨k, hk⟩ := hserving.inv.gone n x hx hrunning
      exact hnone k hk

end Roster

end Daemon

end Gretun
