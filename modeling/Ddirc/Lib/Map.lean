import Mathlib.Data.List.AList
import Mathlib.Data.List.Sort
import Mathlib.Data.Finset.Card

/-! # Finite maps and sorted enumerations

`Map K V` is Mathlib's association list with unique keys. Reading after a write is one conditional
(`Map.lookup_insert`, `Map.lookup_erase`, `Map.lookup_modify`, `Map.lookup_mapVal`,
`Map.lookup_retain`), so that a map can be replaced by its `lookup` function wherever order does not
matter. `Multiset.sorted` is a sort that evaluates. -/

namespace Ddirc
open List

/-- A finite map with keys `K` and values `V`. -/
abbrev Map (K V : Type*) := AList fun _ : K => V

namespace Map

variable {K V W : Type*} [DecidableEq K]

theorem lookup_insert (m : Map K V) (k k' : K) (v : V) :
    AList.lookup k' (AList.insert k v m) = if k' = k then some v else m.lookup k' := by
  split
  next h => subst h; exact AList.lookup_insert m
  next h => exact AList.lookup_insert_ne h

theorem lookup_erase (m : Map K V) (k k' : K) :
    (AList.erase k m).lookup k' = if k' = k then none else m.lookup k' := by
  split
  next h => subst h; exact AList.lookup_erase _ m
  next h => exact AList.lookup_erase_ne h

/-- What is found after an insertion was inserted or was there before. -/
theorem of_lookup_insert {m : Map K V} {k k' : K} {v v' : V}
    (h : AList.lookup k' (AList.insert k v m) = some v') :
    (k' = k ∧ v' = v) ∨ (k' ≠ k ∧ m.lookup k' = some v') := by
  rw [lookup_insert] at h
  split at h
  next hk => exact .inl ⟨hk, (Option.some.inj h).symm⟩
  next hk => exact .inr ⟨hk, h⟩

/-- What is found after a removal was there before, at another key. -/
theorem of_lookup_erase {m : Map K V} {k k' : K} {v : V}
    (h : (AList.erase k m).lookup k' = some v) : k' ≠ k ∧ m.lookup k' = some v := by
  rw [lookup_erase] at h
  split at h
  next => cases h
  next hk => exact ⟨hk, h⟩

def modify (m : Map K V) (k : K) (f : V → V) : Map K V :=
  match m.lookup k with
  | none => m
  | some v => AList.insert k (f v) m

theorem lookup_modify (m : Map K V) (k k' : K) (f : V → V) :
    (modify m k f).lookup k' = if k' = k then (m.lookup k').map f else m.lookup k' := by
  unfold modify
  split
  next h =>
    split
    next h' => subst h'; simp [h]
    · rfl
  next v h =>
    rw [lookup_insert]
    split
    next h' => subst h'; simp [h]
    · rfl

def mapVal (m : Map K V) (f : K → V → W) : Map K W where
  entries := m.entries.map fun e => ⟨e.1, f e.1 e.2⟩
  nodupKeys := by
    have h := m.nodupKeys
    rwa [List.NodupKeys, List.keys, map_map]

theorem lookup_mapVal (m : Map K V) (f : K → V → W) (k : K) :
    (mapVal m f).lookup k = (m.lookup k).map (f k) :=
  dlookup_map₂ k

def retain (m : Map K V) (p : K → V → Bool) : Map K V where
  entries := m.entries.filter fun e => p e.1 e.2
  nodupKeys := m.nodupKeys.sublist filter_sublist

theorem lookup_retain (m : Map K V) (p : K → V → Bool) (k : K) :
    (retain m p).lookup k = (m.lookup k).filter (p k) := by
  ext v
  simp only [Option.filter_eq_some_iff]
  rw [← Option.mem_def, ← Option.mem_def, AList.mem_lookup_iff, AList.mem_lookup_iff]
  simp [retain]

def values (m : Map K V) : List V := m.entries.map (·.2)

/-- A map is no larger than a set that holds all its keys. -/
theorem length_le_card {m : Map K V} {s : Finset K} (h : ∀ k, (m.lookup k).isSome → k ∈ s) :
    m.entries.length ≤ s.card := by
  have hkeys : m.keys.toFinset ⊆ s := by
    intro k hk
    rw [mem_toFinset] at hk
    exact h k (AList.lookup_isSome.2 (AList.mem_keys.2 hk))
  have hcard : m.keys.toFinset.card = m.entries.length := by
    rw [toFinset_card_of_nodup m.keys_nodup, AList.keys, List.keys, length_map]
  exact hcard ▸ Finset.card_le_card hkeys

theorem map_lookup_of_entries {m : Map K V} {f : V → W} {l : List (K × W)}
    (h : m.entries.map (fun e => (e.1, f e.2)) = l) (k : K) : (m.lookup k).map f = l.lookup k := by
  obtain ⟨entries, nodup⟩ := m
  subst h
  change (entries.dlookup k).map f = (entries.map fun e => (e.1, f e.2)).lookup k
  clear nodup
  induction entries with
  | nil => rfl
  | cons e entries ih =>
    obtain ⟨key, v⟩ := e
    rw [map_cons, lookup_cons]
    by_cases hk : k = key
    · subst hk
      simp
    · have hrest : List.dlookup k (⟨key, v⟩ :: entries) = entries.dlookup k :=
        dlookup_cons_ne entries (β := fun _ => V) ⟨key, v⟩ hk
      rw [hrest, ih, beq_eq_false_iff_ne.2 hk]

theorem length_insert_le (m : Map K V) (k : K) (v : V) :
    (m.insert k v).entries.length ≤ m.entries.length + 1 :=
  Nat.succ_le_succ (kerase_sublist k m.entries).length_le

theorem mem_entries_iff {m : Map K V} : ⟨k, v⟩ ∈ m.entries ↔ m.lookup k = some v :=
  AList.mem_lookup_iff.symm

@[simp] theorem values_empty {K V : Type*} : values (∅ : Map K V) = [] := rfl

theorem mem_values {m : Map K V} : v ∈ values m ↔ ∃ k, m.lookup k = some v := by
  simp only [values, mem_map]
  constructor
  · rintro ⟨⟨k, v⟩, he, rfl⟩
    exact ⟨k, mem_entries_iff.1 he⟩
  · rintro ⟨k, hk⟩
    exact ⟨⟨k, v⟩, mem_entries_iff.2 hk, rfl⟩

/-! ### Filing a list -/

/-- The elements of a list filed one after the other, each under its key. -/
def fileAll (key : α → K) (val : α → V) (l : List α) (m : Map K V) : Map K V :=
  l.foldl (fun m a => AList.insert (key a) (val a) m) m

variable {key : α → K} {val : α → V} {l : List α}

theorem lookup_fileAll (h : (fileAll key val l m).lookup k = some v) :
    (m.lookup k = some v ∧ ∀ a ∈ l, key a ≠ k) ∨ ∃ a ∈ l, key a = k ∧ val a = v := by
  induction l generalizing m with
  | nil => exact .inl ⟨h, nofun⟩
  | cons a l ih =>
    rcases ih h with ⟨h, hl⟩ | ⟨b, hb, hk⟩
    · rw [lookup_insert] at h
      split at h
      next hk => exact .inr ⟨a, mem_cons_self, hk.symm, Option.some.inj h⟩
      next hk => exact .inl ⟨h, forall_mem_cons.2 ⟨Ne.symm hk, hl⟩⟩
    · exact .inr ⟨b, mem_cons_of_mem _ hb, hk⟩

theorem isSome_lookup_fileAll : ((fileAll key val l m).lookup k).isSome ↔
    (m.lookup k).isSome ∨ ∃ a ∈ l, key a = k := by
  induction l generalizing m with
  | nil => simp [fileAll]
  | cons a l ih =>
    refine ih.trans ?_
    rw [exists_mem_cons_iff, ← or_assoc, lookup_insert]
    refine or_congr_left ?_
    split
    next hk => exact iff_of_true rfl (.inr hk.symm)
    next hk => exact (or_iff_left (Ne.symm hk)).symm

/-- Where the keys differ, it makes no difference in which order. -/
theorem values_fileAll_of_perm (hnodup : (l.map key).Nodup) (h : l.Perm l') :
    (values (fileAll key val l m)).Perm (values (fileAll key val l' m)) := by
  have hsub : ∀ {l l' : List α}, l.Perm l' → (l.map key).Nodup → ∀ k v,
      (fileAll key val l m).lookup k = some v → (fileAll key val l' m).lookup k = some v := by
    intro l l' h hnodup k v hv
    have hsome : ((fileAll key val l' m).lookup k).isSome := by
      have := isSome_lookup_fileAll.1 (Option.isSome_of_eq_some hv)
      exact isSome_lookup_fileAll.2 (this.imp_right fun ⟨a, ha, hk⟩ => ⟨a, h.mem_iff.1 ha, hk⟩)
    obtain ⟨v', hv'⟩ := Option.isSome_iff_exists.1 hsome
    rw [hv']
    rcases lookup_fileAll hv with ⟨hold, hnone⟩ | ⟨a, ha, hk, rfl⟩
    · rcases lookup_fileAll hv' with ⟨hold', -⟩ | ⟨b, hb, hk, -⟩
      · exact hold'.symm.trans hold
      · exact absurd hk (hnone b (h.mem_iff.2 hb))
    · rcases lookup_fileAll hv' with ⟨-, hnone⟩ | ⟨b, hb, hk', rfl⟩
      · exact absurd hk (hnone a (h.mem_iff.1 ha))
      · rw [inj_on_of_nodup_map hnodup (h.mem_iff.2 hb) ha (hk'.trans hk.symm)]
  refine (List.lookup_ext (AList.nodupKeys _) (AList.nodupKeys _) fun k v => ⟨?_, ?_⟩).map _
  · exact hsub h hnodup k v
  · exact hsub h.symm ((h.map key).nodup_iff.1 hnodup) k v

/-- Where the keys are new and differ, every value is kept. -/
theorem values_fileAll (hnodup : (l.map key).Nodup) (hnew : ∀ a ∈ l, m.lookup (key a) = none) :
    (values (fileAll key val l m)).Perm (l.map val ++ values m) := by
  induction l generalizing m with
  | nil => exact .refl _
  | cons a l ih =>
    rw [map_cons, nodup_cons] at hnodup
    have hvalues : values (AList.insert (key a) (val a) m) = val a :: values m := by
      rw [values, AList.entries_insert_of_notMem (AList.lookup_eq_none.1 (hnew a mem_cons_self))]
      rfl
    refine (ih hnodup.2 fun b hb => ?_).trans ?_
    · have hne : key b ≠ key a := fun he => hnodup.1 (he ▸ mem_map_of_mem hb)
      rw [lookup_insert, if_neg hne]
      exact hnew b (mem_cons_of_mem _ hb)
    · rw [hvalues, map_cons]
      exact perm_middle

/-! ### Bounds -/

/-- A map of at most `n` entries, each of which satisfies `P`. -/
structure Within (n : Nat) (P : K → V → Prop) (m : Map K V) : Prop where
  room : m.entries.length ≤ n
  held : ∀ k v, m.lookup k = some v → P k v

namespace Within
variable {P : K → V → Prop} {m : Map K V}

theorem empty : Within n P (∅ : Map K V) := ⟨Nat.zero_le n, fun _ _ h => nomatch h⟩

theorem erase (h : Within n P m) (k : K) : Within n P (m.erase k) :=
  ⟨(kerase_sublist k _).length_le.trans h.room, fun k' v hv => h.held k' v (of_lookup_erase hv).2⟩

theorem insert (h : Within n P m) (hroom : m.entries.length < n) (hv : P k v) :
    Within n P (m.insert k v) := by
  refine ⟨(length_insert_le ..).trans hroom, fun k' v' hv' => ?_⟩
  rcases of_lookup_insert hv' with ⟨rfl, rfl⟩ | ⟨-, hv'⟩
  · exact hv
  · exact h.held k' v' hv'

theorem replace (h : Within n P m) (hk : m.lookup k = some w) (hv : P k' v) :
    Within n P ((m.erase k).insert k' v) := by
  refine (h.erase k).insert ?_ hv
  obtain ⟨b, l₁, l₂, -, hl, herase⟩ := exists_of_kerase (AList.lookup_isSome.1
    (Option.isSome_of_eq_some hk))
  have hlen : (m.erase k).entries.length = (l₁ ++ l₂).length := congrArg length herase
  have hroom := h.room
  rw [hl, length_append, length_cons] at hroom
  rw [hlen, length_append]
  omega

theorem update (h : Within n P m) (hk : m.lookup k = some w) (hv : P k v) :
    Within n P (m.insert k v) := by
  have hsame : (m.erase k).insert k v = m.insert k v := AList.ext
    (congrArg (List.cons (⟨k, v⟩ : (_ : K) × V))
      (kerase_of_notMem_keys (notMem_keys_kerase k m.nodupKeys)))
  exact hsame ▸ h.replace hk hv

theorem modify (h : Within n P m) (k : K) (hf : ∀ v, P k v → P k (f v)) :
    Within n P (Map.modify m k f) := by
  unfold Map.modify
  split
  · exact h
  next v hv => exact h.update hv (hf v (h.held k v hv))

theorem mapVal (h : Within n P m) (hf : ∀ k v, P k v → P k (f k v)) :
    Within n P (Map.mapVal m f) := by
  refine ⟨(length_map ..).le.trans h.room, fun k v hv => ?_⟩
  rw [lookup_mapVal] at hv
  obtain ⟨w, hw, rfl⟩ := Option.map_eq_some_iff.1 hv
  exact hf k w (h.held k w hw)

theorem fileAll (hlen : l.length ≤ n) (hl : ∀ a ∈ l, P (key a) (val a)) :
    Within n P (Map.fileAll key val l ∅) := by
  have hfile {m : Map K V} (hm : m.entries.length + l.length ≤ n) :
      (Map.fileAll key val l m).entries.length ≤ n := by
    clear hl hlen
    induction l generalizing m with
    | nil => exact hm
    | cons a l ih =>
      refine ih (m := m.insert (key a) (val a)) ?_
      have := length_insert_le m (key a) (val a)
      rw [length_cons] at hm
      omega
  refine ⟨hfile ((Nat.zero_add _).le.trans hlen), fun k v hv => ?_⟩
  rcases lookup_fileAll hv with ⟨hv, -⟩ | ⟨a, ha, rfl, rfl⟩
  · cases hv
  · exact hl a ha

end Within

end Map

/-! ## Sorting -/

theorem exists_map_eq {s : Multiset α} {f : α → β} {l : List β} (h : (l : Multiset β) = s.map f) :
    ∃ l' : List α, (l' : Multiset α) = s ∧ l'.map f = l := by
  classical
  induction l generalizing s with
  | nil => exact ⟨[], (Multiset.map_eq_zero.1 h.symm).symm, rfl⟩
  | cons b l ih =>
    rw [← Multiset.cons_coe] at h
    obtain ⟨a, ha, rfl, hrest⟩ := (Multiset.map_eq_cons ..).2 h.symm
    obtain ⟨l', hl', rfl⟩ := ih hrest.symm
    exact ⟨a :: l', by rw [← Multiset.cons_coe, hl', Multiset.cons_erase ha], rfl⟩

section
variable [LinearOrder α]

def sorted (s : Multiset α) : List α :=
  Quot.liftOn s (List.insertionSort (· ≤ ·)) fun _ _ h =>
    ((perm_insertionSort _ _).trans (h.trans (perm_insertionSort _ _).symm)).eq_of_pairwise'
      (pairwise_insertionSort (· ≤ ·) _) (pairwise_insertionSort (· ≤ ·) _)

theorem sorted_perm (l : List α) : (sorted (l : Multiset α)).Perm l := perm_insertionSort _ l

theorem coe_sorted : (sorted s : Multiset α) = s := by
  induction s using Quot.inductionOn with
  | h l => exact Multiset.coe_eq_coe.2 (sorted_perm l)

@[simp] theorem mem_sorted {s : Multiset α} : a ∈ sorted s ↔ a ∈ s := by
  rw [← Multiset.mem_coe, coe_sorted]

end

end Ddirc
