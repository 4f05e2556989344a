import Mathlib.Data.List.AList

/-!
# Finite maps as association lists

Facts about `AList` with a constant value type that the models of maps use:
where an entry comes from after an insertion or an erasure, undoing an
insertion, and looking at all the values of a map, in whatever order they are
enumerated. `update_cases` is the first of these for a map given as a function.
-/

namespace Foundation

namespace Assoc

variable {α β : Type} [DecidableEq α]

theorem update_cases {f : α → β} {a a' : α} {b c : β}
    (h : Function.update f a b a' = c) : a' = a ∧ b = c ∨ a' ≠ a ∧ f a' = c := by
  by_cases ha : a' = a
  · rw [ha, Function.update_self] at h
    exact Or.inl ⟨ha, h⟩
  · rw [Function.update_of_ne ha] at h
    exact Or.inr ⟨ha, h⟩

theorem lookup_insert_cases {a a' : α} {b c : β} {s : AList fun _ : α => β}
    (h : (s.insert a b).lookup a' = some c) :
    a' = a ∧ c = b ∨ a' ≠ a ∧ s.lookup a' = some c := by
  by_cases ha : a' = a
  · rw [ha, AList.lookup_insert] at h
    exact Or.inl ⟨ha, (Option.some.inj h).symm⟩
  · rw [AList.lookup_insert_ne ha] at h
    exact Or.inr ⟨ha, h⟩

theorem lookup_of_lookup_erase {a a' : α} {c : β} {s : AList fun _ : α => β}
    (h : (s.erase a).lookup a' = some c) : a' ≠ a ∧ s.lookup a' = some c := by
  by_cases ha : a' = a
  · rw [ha, AList.lookup_erase] at h
    cases h
  · rw [AList.lookup_erase_ne ha] at h
    exact ⟨ha, h⟩

theorem lookup_insert_eq_update (s : AList fun _ : α => β) (a : α) (b : β) :
    (fun a' => (s.insert a b).lookup a') =
      Function.update (fun a' => s.lookup a') a (some b) := by
  funext a'
  by_cases ha : a' = a
  · rw [ha, Function.update_self, AList.lookup_insert]
  · rw [Function.update_of_ne ha, AList.lookup_insert_ne ha]

theorem lookup_erase_eq_update (s : AList fun _ : α => β) (a : α) :
    (fun a' => (s.erase a).lookup a') = Function.update (fun a' => s.lookup a') a none := by
  funext a'
  by_cases ha : a' = a
  · rw [ha, Function.update_self, AList.lookup_erase]
  · rw [Function.update_of_ne ha, AList.lookup_erase_ne ha]

theorem erase_insert_of_notMem {a : α} {b : β} {s : AList fun _ : α => β}
    (h : a ∉ s) : (s.insert a b).erase a = s := by
  apply AList.ext
  have hhead : ((s.insert a b).erase a).entries = List.kerase a s.entries :=
    List.kerase_cons_eq rfl
  rw [hhead, List.kerase_of_notMem_keys h]

def values (s : AList fun _ : α => β) : List β := s.entries.map Sigma.snd

theorem mem_values {s : AList fun _ : α => β} {b : β} :
    b ∈ values s ↔ ∃ a, s.lookup a = some b := by
  unfold values
  constructor
  · intro h
    obtain ⟨⟨a, b'⟩, hmem, rfl⟩ := List.mem_map.1 h
    exact ⟨a, AList.mem_lookup_iff.2 hmem⟩
  · rintro ⟨a, h⟩
    exact List.mem_map.2 ⟨⟨a, b⟩, AList.mem_lookup_iff.1 h, rfl⟩

/-- A relation between the values of different keys holds between any two values
of the map. -/
theorem pairwise_values {s : AList fun _ : α => β} {R : β → β → Prop}
    (h : ∀ a a' b b', s.lookup a = some b → s.lookup a' = some b' → a ≠ a' →
      R b b') : (values s).Pairwise R := by
  have hkeys := List.nodupKeys_iff_pairwise.1 s.nodupKeys
  rw [values, List.pairwise_map]
  refine hkeys.imp_of_mem ?_
  intro x y hx hy hne
  exact h x.1 y.1 x.2 y.2 (AList.mem_lookup_iff.2 hx) (AList.mem_lookup_iff.2 hy)
    hne

theorem filter_map_snd {l : List (Sigma fun _ : α => β)} (hl : l.NodupKeys)
    {name : β → α} (hname : ∀ e ∈ l, name e.2 = e.1) (a : α) :
    (l.map Sigma.snd).filter (name · = a) = (l.dlookup a).toList := by
  induction l with
  | nil => rfl
  | cons e l ih =>
      obtain ⟨hnot, hl⟩ := List.nodupKeys_cons.mp hl
      have hrest := ih hl fun e' he' => hname e' (List.mem_cons_of_mem _ he')
      have he := hname e List.mem_cons_self
      by_cases ha : e.1 = a
      · subst ha
        rw [List.dlookup_eq_none.mpr hnot] at hrest
        rw [List.map_cons, List.filter_cons_of_pos (by simpa using he), hrest]
        exact congrArg Option.toList (List.dlookup_cons_eq l e.1 e.2).symm
      · rw [List.map_cons, List.filter_cons_of_neg (by simpa [he] using ha), hrest]
        exact congrArg Option.toList (List.dlookup_cons_ne l e (Ne.symm ha)).symm

/-- When the values know their keys, there is one value of that name at most: the one
that is looked up. -/
theorem filter_values {s : AList fun _ : α => β} {name : β → α}
    (hname : ∀ a b, s.lookup a = some b → name b = a) (a : α) :
    (values s).filter (name · = a) = (s.lookup a).toList :=
  filter_map_snd s.nodupKeys
    (fun e he => hname e.1 e.2 (AList.mem_lookup_iff.mpr he)) a

/-! ## Mapping the values -/

def mapEntry {γ : Type} (f : β → γ) (e : Sigma fun _ : α => β) :
    Sigma fun _ : α => γ := ⟨e.1, f e.2⟩

omit [DecidableEq α] in
theorem keys_map_mapEntry {γ : Type} (f : β → γ) (l : List (Sigma fun _ : α => β)) :
    (l.map (mapEntry f)).keys = l.keys := by
  simp [List.keys, mapEntry]

def mapValues {γ : Type} (f : β → γ) (s : AList fun _ : α => β) :
    AList fun _ : α => γ where
  entries := s.entries.map (mapEntry f)
  nodupKeys := by
    rw [List.NodupKeys, keys_map_mapEntry]
    exact s.nodupKeys

omit [DecidableEq α] in
theorem keys_mapValues {γ : Type} (f : β → γ) (s : AList fun _ : α => β) :
    (mapValues f s).keys = s.keys :=
  keys_map_mapEntry f s.entries

theorem lookup_mapValues {γ : Type} (f : β → γ) (s : AList fun _ : α => β) (a : α) :
    (mapValues f s).lookup a = (s.lookup a).map f := by
  have hlist : ∀ l : List (Sigma fun _ : α => β),
      List.dlookup a (l.map (mapEntry f)) = (List.dlookup a l).map f := by
    intro l
    induction l with
    | nil => rfl
    | cons e l ih =>
        obtain ⟨a', b⟩ := e
        rw [List.map_cons, mapEntry]
        by_cases ha : a = a'
        · subst ha
          simp
        · rw [List.dlookup_cons_ne _ _ ha, List.dlookup_cons_ne _ _ ha, ih]
  exact hlist s.entries

theorem mapValues_insert {γ : Type} {f g : β → γ} {a : α} {b : β}
    {s : AList fun _ : α => β}
    (h : ∀ a' c, a' ≠ a → s.lookup a' = some c → f c = g c) :
    mapValues f (s.insert a b) = (mapValues g s).insert a (f b) := by
  apply AList.ext
  have hkerase : (s.entries.map (mapEntry g)).kerase a =
      (s.entries.kerase a).map (mapEntry g) := List.eraseP_map ..
  have hcongr : (s.entries.kerase a).map (mapEntry f) =
      (s.entries.kerase a).map (mapEntry g) := by
    refine List.map_congr_left fun e he => ?_
    have hne : e.1 ≠ a := by
      rintro rfl
      exact List.notMem_keys_kerase _ s.nodupKeys (List.mem_keys_of_mem he)
    have hmem := (List.kerase_sublist a s.entries).subset he
    rw [mapEntry, mapEntry, h e.1 e.2 hne (AList.mem_lookup_iff.2 hmem)]
  change _ :: (s.entries.kerase a).map (mapEntry f) =
    _ :: (s.entries.map (mapEntry g)).kerase a
  rw [hkerase, hcongr]
  rfl

end Assoc

end Foundation
