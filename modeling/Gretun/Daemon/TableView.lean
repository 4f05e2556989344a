import Gretun.Daemon.Roster
import Gretun.Daemon.Table

/-!
# The table of mailboxes and the roster

`Table` keeps the machines of a daemon by key, with their event queues, and forgets a
machine once it is stopped; `Roster` keeps every machine behind a map of pointers. As
long as the daemon has its map, reconciling a list takes a roster that shows a table
to one that shows the reconciled table.
-/

namespace Gretun

namespace Daemon

open Gretun.Net
open Gretun.Disco

/-- The machines of `Table`, which are their mailboxes under a name. -/
def Setup.kit (d : Setup) (pattern : IfacePattern) : Kit Machine where
  self := d.env.deps.self
  pattern := pattern
  new name p :=
    { ifaceName := name
      box := .start (startRun p d.ifaceAddrs d.discoPort d.kernel) }
  update p m := { m with box := m.box.update p }

namespace Roster

def machine {φ : Type} (t : Roster φ) (k : Key) : Option φ :=
  (t.find k).bind fun n => t.fsms[n]?.map Instance.body

structure Shows (t : Roster Machine) (s : Table) : Prop where
  machine : ∀ k, s.peers.lookup k = t.machine k
  seq : s.ifaceSeq = t.ifaceSeq

theorem Inv.machine_of_find {φ : Type} {c : Kit φ} {t : Roster φ} (h : t.Inv c)
    {k : Key} {n : ℕ} (hk : t.find k = some n) :
    ∃ x, t.fsms[n]? = some x ∧ t.machine k = some x.body := by
  obtain ⟨x, hx, -⟩ := h.live k n hk
  refine ⟨x, hx, ?_⟩
  rw [machine, hk]
  change t.fsms[n]?.map Instance.body = _
  rw [hx]
  rfl

theorem Inv.machine_modify {φ : Type} {c : Kit φ} {t : Roster φ} (h : t.Inv c)
    {k : Key} {n : ℕ} (hk : t.find k = some n) (f : φ → φ) (k' : Key) :
    (t.modify n fun x => { x with body := f x.body }).machine k' =
      if k' = k then (t.machine k').map f else t.machine k' := by
  rw [machine, find_modify, machine]
  cases hk' : t.find k' with
  | none => simp
  | some m =>
      obtain ⟨y, hy, -⟩ := h.machine_of_find hk'
      change ((t.modify n _).fsms[m]?).map Instance.body = _
      rw [getElem?_modify_of_some _ hy]
      by_cases hkk : k' = k
      · obtain rfl : m = n := Option.some.inj (hk'.symm.trans (hkk ▸ hk))
        simp [hkk, hy]
      · have hne : n ≠ m := fun heq => hkk (h.inj k' k m hk' (heq ▸ hk))
        simp [hkk, hne, hy]

theorem Inv.machine_create {φ : Type} {c : Kit φ} {t : Roster φ} (h : t.Inv c)
    {m : AList fun _ : Key => ℕ} (hpeers : t.peers = some m) (p : RemotePeer)
    (k : Key) :
    (t.create c m p).machine k =
      if k = p.discoKey then some (c.new (c.iface t.ifaceSeq) p)
      else t.machine k := by
  rw [machine, find_create hpeers]
  split
  · change ((t.fsms ++ [_])[t.fsms.length]?).map Instance.body = _
    rw [List.getElem?_concat_length]
    rfl
  · cases hk : t.find k with
    | none => rw [machine, hk]; rfl
    | some n =>
        obtain ⟨x, hx, hmachine⟩ := h.machine_of_find hk
        have hlt := (List.getElem?_eq_some_iff.1 hx).1
        change ((t.fsms ++ [_])[n]?).map Instance.body = _
        rw [List.getElem?_append_left hlt, hx, hmachine]
        rfl

/-- Both models agree about an entry of a list. -/
theorem Shows.reconcileOne {d : Setup} {pattern : IfacePattern}
    (hiface : d.iface = pattern.iface) {t : Roster Machine} {s : Table}
    (h : t.Shows s) (hserving : t.Serving (d.kit pattern)) (p : RemotePeer) :
    (reconcileOne (d.kit pattern) t p).Shows (s.reconcileOne d p) := by
  rw [Table.reconcileOne]
  rcases reconcileOne_cases (d.kit pattern) hserving.inv.alive p with
    ⟨hself, heq⟩ | ⟨hself, ⟨n, hn, heq⟩ | ⟨m, hm, hnew, heq⟩ | ⟨hnil, -⟩⟩
  · change p.discoKey = d.env.deps.self at hself
    rwa [heq, if_pos hself]
  · obtain ⟨x, -, hx⟩ := hserving.inv.machine_of_find hn
    change p.discoKey ≠ d.env.deps.self at hself
    rw [heq, if_neg hself, h.machine, hx]
    refine ⟨fun k => ?_, h.seq⟩
    rw [hserving.inv.machine_modify hn]
    by_cases hk : k = p.discoKey
    · rw [hk, if_pos rfl, hx, AList.lookup_insert]
      rfl
    · rw [if_neg hk, AList.lookup_insert_ne hk, h.machine]
  · have hnone : t.machine p.discoKey = none := by rw [Roster.machine, hnew]; rfl
    change p.discoKey ≠ d.env.deps.self at hself
    rw [heq, if_neg hself, h.machine, hnone]
    refine ⟨fun k => ?_, congrArg (· + 1) h.seq⟩
    rw [hserving.inv.machine_create hm]
    by_cases hk : k = p.discoKey
    · rw [hk, if_pos rfl, AList.lookup_insert, Table.launch, h.seq, hiface]
      rfl
    · rw [if_neg hk, AList.lookup_insert_ne hk, h.machine]
  · exact absurd hnil hserving.map

theorem machine_sweepOne {φ : Type} (seen : List Key) (t : Roster φ) (k k' : Key) :
    (sweepOne seen t k').machine k =
      if k = k' ∧ k ∉ seen then none else t.machine k := by
  have hbody : ∀ n : ℕ, (sweepOne seen t k').fsms[n]?.map Instance.body =
      t.fsms[n]?.map Instance.body := by
    intro n
    unfold sweepOne
    split
    · rfl
    · rename_i m _
      split
      · rfl
      · change ((t.fsms.modify m _)[n]?).map Instance.body = _
        rw [List.getElem?_modify]
        cases t.fsms[n]? with
        | none => rfl
        | some x =>
            by_cases hm : m = n <;> simp [hm]
  rw [machine, find_sweepOne, machine]
  split
  · rfl
  · exact congrArg (Option.bind (t.find k)) (funext hbody)

theorem lookup_sweepOne (seen : List Key) (s : Table) (k k' : Key) :
    (s.sweepOne seen k').peers.lookup k =
      if k = k' ∧ k ∉ seen then none else s.peers.lookup k := by
  unfold Table.sweepOne
  split
  · rename_i hnone
    by_cases hk : k = k'
    · subst hk
      simp [hnone]
    · simp [hk]
  · split
    · rename_i hseen
      rw [if_neg]
      rintro ⟨rfl, hnot⟩
      exact hnot hseen
    · rename_i hseen
      by_cases hk : k = k'
      · subst hk
        simp [hseen]
      · simp [hk, AList.lookup_erase_ne hk]

theorem ifaceSeq_foldl_sweepOne {φ : Type} (seen ks : List Key) (t : Roster φ) :
    (ks.foldl (sweepOne seen) t).ifaceSeq = t.ifaceSeq := by
  refine List.foldlRecOn (motive := fun u : Roster φ => u.ifaceSeq = t.ifaceSeq) ks _
    rfl fun u hu k _ => ?_
  rw [← hu, sweepOne]
  split
  · rfl
  · split <;> rfl

theorem ifaceSeq_foldl_tableSweepOne (seen ks : List Key) (s : Table) :
    (ks.foldl (Table.sweepOne seen) s).ifaceSeq = s.ifaceSeq := by
  refine List.foldlRecOn (motive := fun u : Table => u.ifaceSeq = s.ifaceSeq) ks _
    rfl fun u hu k _ => ?_
  rw [← hu, Table.sweepOne]
  split
  · rfl
  · split <;> rfl

theorem ite_mem_keys {α : Type} {k : Key} {ks seen : List Key} {v : Option α}
    (h : k ∈ ks ↔ v.isSome) :
    (if k ∈ ks ∧ k ∉ seen then none else v) = if k ∈ seen then v else none := by
  by_cases hseen : k ∈ seen
  · simp [hseen]
  · cases v <;> simp [hseen, h]

theorem Shows.reconcilePeers {d : Setup} {pattern : IfacePattern}
    (hiface : d.iface = pattern.iface) {t : Roster Machine} {s : Table}
    (h : t.Shows s) (hserving : t.Serving (d.kit pattern)) (ps : List RemotePeer) :
    (reconcilePeers (d.kit pattern) t ps).Shows (s.reconcilePeers d ps) := by
  have hfirst : ∀ (qs : List RemotePeer) {t : Roster Machine} {s : Table},
      t.Shows s → t.Serving (d.kit pattern) →
      (qs.foldl (Roster.reconcileOne (d.kit pattern)) t).Shows
          (qs.foldl (Table.reconcileOne d) s) ∧
        (qs.foldl (Roster.reconcileOne (d.kit pattern)) t).Serving
          (d.kit pattern) := by
    intro qs
    induction qs with
    | nil => exact fun hshows ht => ⟨hshows, ht⟩
    | cons q qs ih =>
        intro t s hshows ht
        exact ih (hshows.reconcileOne hiface ht q) (ht.reconcileOne q)
  obtain ⟨hloop, hloop'⟩ := hfirst ps h hserving
  rw [Roster.reconcilePeers, Table.reconcilePeers]
  refine ⟨fun k => ?_, ?_⟩
  · have hkey : k ∈ (ps.foldl (Roster.reconcileOne (d.kit pattern)) t).keys ↔
        ((ps.foldl (Roster.reconcileOne (d.kit pattern)) t).machine k).isSome := by
      rw [mem_keys]
      cases hk : (ps.foldl (Roster.reconcileOne (d.kit pattern)) t).find k with
      | none => rw [Roster.machine, hk]; rfl
      | some n =>
          obtain ⟨x, -, hx⟩ := hloop'.inv.machine_of_find hk
          rw [hx]
          rfl
    rw [foldl_sweep (machine_sweepOne _), ite_mem_keys hkey,
      foldl_sweep (v := fun s : Table => s.peers.lookup) (lookup_sweepOne _),
      ite_mem_keys AList.lookup_isSome.symm, hloop.machine]
    rfl
  · rw [ifaceSeq_foldl_sweepOne, ifaceSeq_foldl_tableSweepOne, hloop.seq]

end Roster

end Daemon

end Gretun
