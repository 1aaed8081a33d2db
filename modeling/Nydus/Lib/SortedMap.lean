import Mathlib

/-!
# Sorted maps

A `BTreeMap` as its entries in increasing order of key (`SortedMap`), the order being a field of
the structure. `get` is `BTreeMap::get`; `update k f` changes the value of a key that is present
(`if let Some(v) = m.get_mut(&k)`), `upsert k d f` is `entry(k).or_insert(d)` followed by `f`,
and `mapValues f` changes every value in place. Iterating the map visits `entries` in order.

The lemmas say what `get` reads after each operation (`get_update`, `get_upsert`,
`get_mapValues`) and which keys it leaves (`keys_update`, `mem_keys_upsert`, `keys_mapValues`),
and tie `get` to the entries (`mem_entries_iff`).
-/

namespace Nydus.Lib

/-- A `BTreeMap`: its entries, in increasing order of key. -/
structure SortedMap (κ β : Type) [LinearOrder κ] where
  entries : List (κ × β)
  sorted : (entries.map Prod.fst).Pairwise (· < ·)

namespace SortedMap

variable {κ β : Type} [LinearOrder κ]

/-! ## Entry lists -/

/-- The value of key `k`. -/
def getEntry (k : κ) : List (κ × β) → Option β
  | [] => none
  | (k', v) :: rest => if k' = k then some v else getEntry k rest

/-- The value of key `k`, if present, changed by `f`. -/
def updateEntries (k : κ) (f : β → β) : List (κ × β) → List (κ × β)
  | [] => []
  | (k', v) :: rest => if k' = k then (k', f v) :: rest else (k', v) :: updateEntries k f rest

/-- The value of key `k`, or `d` inserted in its place, changed by `f`. -/
def upsertEntries (k : κ) (d : β) (f : β → β) : List (κ × β) → List (κ × β)
  | [] => [(k, f d)]
  | (k', v) :: rest =>
    if k' = k then (k', f v) :: rest
    else if k < k' then (k, f d) :: (k', v) :: rest
    else (k', v) :: upsertEntries k d f rest

theorem keys_updateEntries (k : κ) (f : β → β) :
    ∀ l : List (κ × β), (updateEntries k f l).map Prod.fst = l.map Prod.fst
  | [] => rfl
  | (k', v) :: rest => by
    unfold updateEntries
    split_ifs
    · rfl
    · simp [keys_updateEntries k f rest]

theorem mem_keys_upsertEntries {k x : κ} {d : β} {f : β → β} :
    ∀ {l : List (κ × β)}, x ∈ (upsertEntries k d f l).map Prod.fst → x = k ∨ x ∈ l.map Prod.fst
  | [], h => by simpa [upsertEntries] using h
  | (k', v) :: rest, h => by
    unfold upsertEntries at h
    split_ifs at h with h1 h2
    · subst h1
      simp only [List.map_cons, List.mem_cons] at h
      rcases h with h | h
      · exact .inl h
      · exact .inr (by simp [h])
    · simp only [List.map_cons, List.mem_cons] at h
      rcases h with h | h | h
      · exact .inl h
      · exact .inr (by simp [h])
      · exact .inr (by simp [h])
    · simp only [List.map_cons, List.mem_cons] at h
      rcases h with h | h
      · exact .inr (by simp [h])
      · rcases mem_keys_upsertEntries h with h | h
        · exact .inl h
        · exact .inr (by simp [h])

theorem sorted_upsertEntries {k : κ} {d : β} {f : β → β} :
    ∀ {l : List (κ × β)}, (l.map Prod.fst).Pairwise (· < ·) →
      ((upsertEntries k d f l).map Prod.fst).Pairwise (· < ·)
  | [], _ => by simp [upsertEntries]
  | (k', v) :: rest, hs => by
    obtain ⟨hlt, hs'⟩ := List.pairwise_cons.mp hs
    unfold upsertEntries
    split_ifs with h1 h2
    · simpa using hs
    · -- the new key goes first, below `k'` and so below every key
      refine List.pairwise_cons.mpr ⟨fun x hx => ?_, hs⟩
      simp only [List.map_cons, List.mem_cons] at hx
      rcases hx with rfl | hx
      · exact h2
      · exact lt_trans h2 (hlt x hx)
    · have hk : k' < k := lt_of_le_of_ne (not_lt.mp h2) h1
      refine List.pairwise_cons.mpr ⟨fun x hx => ?_, sorted_upsertEntries hs'⟩
      rcases mem_keys_upsertEntries hx with rfl | hx
      · exact hk
      · exact hlt x hx

theorem getEntry_updateEntries (k k' : κ) (f : β → β) :
    ∀ l : List (κ × β), getEntry k' (updateEntries k f l) =
      if k' = k then (getEntry k l).map f else getEntry k' l
  | [] => by simp [updateEntries, getEntry]
  | (k'', v) :: rest => by
    unfold updateEntries
    by_cases h : k'' = k
    · subst h
      by_cases h' : k' = k''
      · simp [getEntry, h']
      · simp [getEntry, h', Ne.symm h']
    · rw [if_neg h]
      simp only [getEntry, getEntry_updateEntries k k' f rest]
      by_cases h' : k' = k
      · simp [h', h]
      · simp [h']

theorem getEntry_eq_none_of_lt {k : κ} :
    ∀ {l : List (κ × β)}, (∀ x ∈ l.map Prod.fst, k < x) → getEntry k l = none
  | [], _ => rfl
  | (k', v) :: rest, h => by
    have hk : k < k' := h k' (by simp)
    rw [getEntry, if_neg (ne_of_gt hk), getEntry_eq_none_of_lt fun x hx => h x (by simp [hx])]

theorem getEntry_upsertEntries (k k' : κ) (d : β) (f : β → β) :
    ∀ {l : List (κ × β)}, (l.map Prod.fst).Pairwise (· < ·) →
      getEntry k' (upsertEntries k d f l) =
        if k' = k then some (f ((getEntry k l).getD d)) else getEntry k' l
  | [], _ => by
    by_cases h : k' = k <;> simp [upsertEntries, getEntry, h, Ne.symm]
  | (k'', v) :: rest, hs => by
    obtain ⟨hlt, hs'⟩ := List.pairwise_cons.mp hs
    by_cases h1 : k'' = k
    · subst h1
      rw [upsertEntries, if_pos rfl]
      by_cases h' : k' = k''
      · simp [getEntry, h']
      · simp [getEntry, h', Ne.symm h']
    by_cases h2 : k < k''
    · rw [upsertEntries, if_neg h1, if_pos h2]
      -- `k` is below every key, so it was absent
      have habs : getEntry k ((k'', v) :: rest) = none :=
        getEntry_eq_none_of_lt fun x hx => by
          simp only [List.map_cons, List.mem_cons] at hx
          rcases hx with rfl | hx
          · exact h2
          · exact lt_trans h2 (hlt x hx)
      rw [habs]
      by_cases h' : k' = k
      · simp [getEntry, h']
      · simp [getEntry, h', Ne.symm h']
    · rw [upsertEntries, if_neg h1, if_neg h2]
      simp only [getEntry, if_neg h1, getEntry_upsertEntries k k' d f hs']
      by_cases h' : k' = k
      · subst h'
        simp [h1]
      · simp [h']

theorem getEntry_map (k : κ) (f : β → β) :
    ∀ l : List (κ × β), getEntry k (l.map fun p => (p.1, f p.2)) = (getEntry k l).map f
  | [] => rfl
  | (k', v) :: rest => by
    simp only [List.map_cons, getEntry]
    split_ifs
    · rfl
    · exact getEntry_map k f rest

theorem mem_iff_getEntry {k : κ} {v : β} :
    ∀ {l : List (κ × β)}, (l.map Prod.fst).Pairwise (· < ·) → ((k, v) ∈ l ↔ getEntry k l = some v)
  | [], _ => by simp [getEntry]
  | (k', w) :: rest, hs => by
    obtain ⟨hlt, hs'⟩ := List.pairwise_cons.mp hs
    rw [List.mem_cons, getEntry, mem_iff_getEntry hs']
    by_cases h : k' = k
    · subst h
      -- a later entry has a larger key
      have hnone : getEntry k' rest = none :=
        getEntry_eq_none_of_lt fun x hx => hlt x hx
      simp [hnone, eq_comm]
    · simp [h, Ne.symm h]

/-! ## Maps -/

/-- `BTreeMap::get`. -/
def get (m : SortedMap κ β) (k : κ) : Option β := getEntry k m.entries

/-- `if let Some(v) = m.get_mut(&k) { *v = f(*v) }`. -/
def update (m : SortedMap κ β) (k : κ) (f : β → β) : SortedMap κ β :=
  ⟨updateEntries k f m.entries, by rw [keys_updateEntries]; exact m.sorted⟩

/-- `let v = m.entry(k).or_insert(d); *v = f(*v)`. -/
def upsert (m : SortedMap κ β) (k : κ) (d : β) (f : β → β) : SortedMap κ β :=
  ⟨upsertEntries k d f m.entries, sorted_upsertEntries m.sorted⟩

/-- `for v in m.values_mut() { *v = f(*v) }`. -/
def mapValues (m : SortedMap κ β) (f : β → β) : SortedMap κ β :=
  ⟨m.entries.map fun p => (p.1, f p.2), by rw [List.map_map]; exact m.sorted⟩

/-- `BTreeMap::new()`. -/
def empty : SortedMap κ β := ⟨[], .nil⟩

theorem get_update (m : SortedMap κ β) (k k' : κ) (f : β → β) :
    (m.update k f).get k' = if k' = k then (m.get k).map f else m.get k' :=
  getEntry_updateEntries k k' f m.entries

theorem get_upsert (m : SortedMap κ β) (k k' : κ) (d : β) (f : β → β) :
    (m.upsert k d f).get k' = if k' = k then some (f ((m.get k).getD d)) else m.get k' :=
  getEntry_upsertEntries k k' d f m.sorted

theorem get_mapValues (m : SortedMap κ β) (k : κ) (f : β → β) :
    (m.mapValues f).get k = (m.get k).map f :=
  getEntry_map k f m.entries

theorem keys_update (m : SortedMap κ β) (k : κ) (f : β → β) :
    (m.update k f).entries.map Prod.fst = m.entries.map Prod.fst :=
  keys_updateEntries k f m.entries

theorem mem_keys_upsert {m : SortedMap κ β} {k x : κ} {d : β} {f : β → β}
    (h : x ∈ (m.upsert k d f).entries.map Prod.fst) : x = k ∨ x ∈ m.entries.map Prod.fst :=
  mem_keys_upsertEntries h

theorem keys_mapValues (m : SortedMap κ β) (f : β → β) :
    (m.mapValues f).entries.map Prod.fst = m.entries.map Prod.fst := by
  simp [mapValues]

@[simp] theorem get_empty (k : κ) : (empty : SortedMap κ β).get k = none := rfl

theorem mem_entries_iff (m : SortedMap κ β) {k : κ} {v : β} : (k, v) ∈ m.entries ↔ m.get k = some v :=
  mem_iff_getEntry m.sorted

end SortedMap

end Nydus.Lib
