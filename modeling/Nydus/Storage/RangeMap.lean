import Mathlib
import Nydus.Lib.Outcome
import Nydus.Lib.Bitmap
import Nydus.Storage.PersistMap

/-!
# Ranges of chunks in flight (`storage/src/cache/state/{indexed_chunk_map,blob_state_map}.rs`)

The `RangeMap` trait asks a cache map about a range of chunks at once. `IndexedChunkMap` keeps
one bit per chunk in a `PersistMap`; its `check_range_ready_and_mark_pending(start, count)`
returns the indices in `start..start + count` whose bit is clear, reading the bits without
`validate_index`. `BlobStateMap` wraps it: under the inflight tracer's lock, every returned
index that has no slot yet is checked again with the inner map's `is_range_ready(index, 1)`,
and one still not ready gets a slot and is returned to the caller, who then owns it.

The model is one call of the wrapper with the tracer's keys as a list, in the order of
insertion (`BlobStateMap.checkRangeReadyAndMarkPending`). The wrapper is written once over the
inner map's two calls (`RangeMap`); its loop (`markRangePending`) inserts exactly the slots it
returns, and on an `Err` of the double check leaves with the slots inserted before it
(`markRangePending_spec`).

Over an `IndexedChunkMap`, an `Ok(Some(v))` hands out exactly the new slots, each for a chunk
below the chunk count, in the range, not ready and not pending before
(`indexed_checkRangeReadyAndMarkPending_ok`). But a range that runs past the last chunk
inside the bitmap's last byte returns the padding index as not ready, and its double check
fails `validate_index`: the call returns `Err` with a slot left for the chunk before it, which
no caller owns; a range past the bitmap's bytes panics on the mapping's bound check
(`checkRangeReadyAndMarkPending_strands_slot`).

`BlobRangeMap` keeps one bit per unit of `2 ^ shift` bytes and takes byte ranges: `get_range`
turns one into the units that meet it (`getRange_units`), and the pending entries are the
units' start offsets. Over it the wrapper hands out exactly the offsets of the range's units
that are neither ready nor in flight (`blobRange_checkRangeReadyAndMarkPending_exact`), and
`set_range_ready_and_clear_pending` sets exactly the range's units and drops exactly their
slots (`blobRange_setRangeReadyAndClearPending_exact`). The inner check allocates its vector for
the byte count, not the unit count, so a range of `2 ^ 60` bytes or more panics on the capacity
however few units it holds (`checkRangeReadyAndMarkPending_capacity_overflow`).

The maps' calls are modelled run by one thread alone (`PersistMap.setChunkReady`); an `Err` of
the inner map's calls inside a range, which a validated range never meets, loses the bits set
before it.
-/

namespace Nydus.Storage

open Nydus.Lib Nydus.Lib.Bitmap
open Nydus.Lib.Outcome (bail)

/-- `einval!()`; the file and line its message ends with are left out. -/
def einval : String := "Invalid argument (os error 22)"

/-- The calls of the `RangeMap` trait that `BlobStateMap` makes on its inner map, at one state
of it: `is_range_ready(start, count)` and `check_range_ready_and_mark_pending(start, count)`. -/
structure RangeMap where
  isRangeReady : Nat → Nat → Outcome Bool
  checkRangeReadyAndMarkPending : Nat → Nat → Outcome (Option (List Nat))

namespace IndexedChunkMap

/-- The loop of `is_range_ready` over `idx` in `0..count`. -/
def rangeReady (m : PersistMap) (startIndex : Nat) : List Nat → Outcome Bool
  | [] => .ok true
  | idx :: rest => do
    let index ← if startIndex + idx < 2 ^ 32 then pure (startIndex + idx) else bail einval
    let index ← m.validateIndex index
    let r ← m.isChunkReady index
    if r.1 then rangeReady m startIndex rest else pure false

/-- `is_range_ready`. -/
def isRangeReady (m : PersistMap) (startIndex count : Nat) : Outcome Bool :=
  if !m.isRangeAllReady then rangeReady m startIndex (List.range count) else .ok true

/-- `check_range_ready_and_mark_pending`. -/
def checkRangeReadyAndMarkPending (m : PersistMap) (startIndex count : Nat) :
    Outcome (Option (List Nat)) :=
  if m.isRangeAllReady then .ok none
  else do
    let count := min count (2 ^ 32 - 1 - startIndex)
    let vec ← (List.range' startIndex count).foldlM (fun vec index => do
        let r ← m.isChunkReady index
        pure (if !r.1 then vec ++ [index] else vec)) []
    pure (if vec.isEmpty then none else some vec)

/-! ### The double check of one index -/

section One

variable {m : PersistMap} {i : Nat}

theorem isChunkReady_of_length_le (h : m.bitmap.length ≤ i / 8) :
    m.isChunkReady i = Outcome.panic "called `Result::unwrap()` on an `Err` value" := by
  have hnone : m.bitmap[i >>> 3]? = none := by
    rw [PersistMap.shiftRight_three, List.getElem?_eq_none h]
  simp [PersistMap.isChunkReady, PersistMap.readU8, hnone, Outcome.panic]

theorem isRangeReady_one (hall : m.isRangeAllReady = false) (hmax : i < 2 ^ 32) :
    isRangeReady m i 1 = (do
      let index ← m.validateIndex i
      let r ← m.isChunkReady index
      pure r.1) := by
  simp only [isRangeReady, hall, Bool.not_false, if_true, List.range_one, rangeReady,
    Nat.add_zero, if_pos hmax, pure_bind]
  congr 1
  funext index
  congr 1
  funext r
  cases r.1 <;> rfl

theorem isRangeReady_one_of_lt {c : UInt8} (hall : m.isRangeAllReady = false) (hi : i < m.count)
    (hmax : i < 2 ^ 32) (hbyte : m.bitmap[i / 8]? = some c) :
    isRangeReady m i 1 = .ok (get m.bitmap i) := by
  rw [isRangeReady_one hall hmax]
  simp [PersistMap.validateIndex, hi, PersistMap.isChunkReady_eq hbyte]

theorem isRangeReady_one_of_le (hall : m.isRangeAllReady = false) (hi : m.count ≤ i)
    (hmax : i < 2 ^ 32) :
    isRangeReady m i 1 = bail s!"chunk index {i} exceeds chunk count {m.count}" := by
  rw [isRangeReady_one hall hmax]
  simp [PersistMap.validateIndex, Nat.not_lt.mpr hi, bail]

theorem isRangeReady_one_eq_false (h : isRangeReady m i 1 = .ok false) :
    i < m.count ∧ get m.bitmap i = false := by
  cases hall : m.isRangeAllReady
  · have hmax : i < 2 ^ 32 := by
      by_contra hmax
      simp only [isRangeReady, hall, Bool.not_false, if_true, List.range_one, rangeReady,
        Nat.add_zero, if_neg hmax, bail, error_bind] at h
      cases h
    rw [isRangeReady_one hall hmax, bind_eq_ok] at h
    obtain ⟨index, hvalid, hread⟩ := h
    rw [bind_eq_ok] at hread
    obtain ⟨⟨ready, c⟩, hready, hfalse⟩ := hread
    simp only [PersistMap.validateIndex] at hvalid
    split_ifs at hvalid with hi
    · cases hvalid
      simp only [pure_eq_ok, Except.ok.injEq] at hfalse
      subst hfalse
      have hbyte : m.bitmap[i / 8]? = some c := by
        simp only [PersistMap.isChunkReady, PersistMap.readU8, PersistMap.shiftRight_three] at hready
        split at hready
        · simp_all
        · simp [Outcome.panic] at hready
      rw [PersistMap.isChunkReady_eq hbyte, Except.ok.injEq, Prod.mk.injEq] at hready
      exact ⟨hi, hready.1⟩
    · simp [bail] at hvalid
  · simp [isRangeReady, hall] at h

end One

theorem checkRangeReadyAndMarkPending_mem {m : PersistMap} {start count : Nat} {v : List Nat}
    (h : checkRangeReadyAndMarkPending m start count = .ok (some v)) :
    ∀ i ∈ v, start ≤ i ∧ i < start + count := by
  unfold checkRangeReadyAndMarkPending at h
  split_ifs at h with hall
  · cases h
  rw [bind_eq_ok] at h
  obtain ⟨vec, hfold, hv⟩ := h
  have hvec : vec = v := by
    simp only [pure_eq_ok, Except.ok.injEq] at hv
    split_ifs at hv
    exact Option.some.inj hv
  subst hvec
  have hinv := foldlM_inv (P := fun vec : List Nat =>
      ∀ i ∈ vec, i ∈ List.range' start (min count (2 ^ 32 - 1 - start)))
    (fun vec index r hindex hvec hstep => by
      rw [bind_eq_ok] at hstep
      obtain ⟨ready, -, hr⟩ := hstep
      simp only [pure_eq_ok, Except.ok.injEq] at hr
      subst hr
      split_ifs
      · intro i hi
        rcases List.mem_append.mp hi with hi | hi
        · exact hvec i hi
        · rw [List.mem_singleton.mp hi]
          exact hindex
      · exact hvec)
    (by simp) hfold
  intro i hi
  have hrange := List.mem_range'_1.mp (hinv i hi)
  omega

/-- The map's `RangeMap` calls. -/
def rangeMap (m : PersistMap) : RangeMap := ⟨isRangeReady m, checkRangeReadyAndMarkPending m⟩

end IndexedChunkMap

namespace BlobStateMap

/-- The loop of `check_range_ready_and_mark_pending` under the tracer's lock, over the indices
the inner map found not ready, with the results so far and the tracer's keys. An `Err` of the
double check leaves with the slots inserted before it. -/
def markRangePending (c : RangeMap) : List Nat → List Nat → List Nat → Outcome (List Nat) × List Nat
  | [], res, guard => (.ok res, guard)
  | index :: rest, res, guard =>
    if index ∈ guard then markRangePending c rest res guard
    else
      match c.isRangeReady index 1 with
      | .error e => (.error e, guard)
      | .ok true => markRangePending c rest res guard
      | .ok false => markRangePending c rest (res ++ [index]) (guard ++ [index])

/-- `check_range_ready_and_mark_pending` of `BlobStateMap<C, I>` over an inner map's `RangeMap`
calls, with the tracer's keys before the call; it returns the result and the keys after. -/
def checkRangeReadyAndMarkPending (c : RangeMap) (guard : List Nat) (start count : Nat) :
    Outcome (Option (List Nat)) × List Nat :=
  match c.checkRangeReadyAndMarkPending start count with
  | .error e => (.error e, guard)
  | .ok none => (.ok none, guard)
  | .ok (some v) =>
    if v.isEmpty then (.ok none, guard)
    else
      let r := markRangePending c v [] guard
      (r.1.map some, r.2)

/-- The loop inserts a slot for exactly the indices it returns, each one of the inner map's,
without a slot before and not ready on the double check; on an `Err` the slots it inserted
before stay. -/
theorem markRangePending_spec (c : RangeMap) : ∀ (pending res guard : List Nat),
    ∃ new, (markRangePending c pending res guard).2 = guard ++ new ∧
      (∀ i ∈ new, i ∈ pending ∧ i ∉ guard ∧ c.isRangeReady i 1 = .ok false) ∧
      ∀ v, (markRangePending c pending res guard).1 = .ok v → v = res ++ new
  | [], res, guard => ⟨[], by simp [markRangePending]⟩
  | index :: rest, res, guard => by
    by_cases hin : index ∈ guard
    · obtain ⟨new, hguard, hnew, hres⟩ := markRangePending_spec c rest res guard
      refine ⟨new, ?_, fun i hi => ?_, ?_⟩
      · rw [markRangePending, if_pos hin, hguard]
      · obtain ⟨hrest, hfree, hready⟩ := hnew i hi
        exact ⟨List.mem_cons_of_mem index hrest, hfree, hready⟩
      · rw [markRangePending, if_pos hin]
        exact hres
    · rcases hready : c.isRangeReady index 1 with e | ready
      · refine ⟨[], ?_, by simp, ?_⟩
        · simp [markRangePending, hin, hready]
        · simp [markRangePending, hin, hready]
      · cases ready with
        | true =>
          obtain ⟨new, hguard, hnew, hres⟩ := markRangePending_spec c rest res guard
          refine ⟨new, ?_, fun i hi => ?_, ?_⟩
          · simp only [markRangePending, if_neg hin, hready, hguard]
          · obtain ⟨hrest, hfree, hready⟩ := hnew i hi
            exact ⟨List.mem_cons_of_mem index hrest, hfree, hready⟩
          · simpa only [markRangePending, if_neg hin, hready] using hres
        | false =>
          obtain ⟨new, hguard, hnew, hres⟩ :=
            markRangePending_spec c rest (res ++ [index]) (guard ++ [index])
          refine ⟨index :: new, ?_, fun i hi => ?_, fun v hv => ?_⟩
          · simp only [markRangePending, if_neg hin, hready, hguard, List.append_assoc,
              List.singleton_append]
          · rcases List.mem_cons.mp hi with rfl | hi
            · exact ⟨List.mem_cons_self, hin, hready⟩
            · obtain ⟨hrest, hfree, hready'⟩ := hnew i hi
              exact ⟨List.mem_cons_of_mem index hrest, fun h => hfree (List.mem_append_left _ h),
                hready'⟩
          · simp only [markRangePending, if_neg hin, hready] at hv
            rw [hres v hv, List.append_assoc, List.singleton_append]

theorem markRangePending_of_not_ready {c : RangeMap} : ∀ {pending res guard : List Nat},
    pending.Nodup → (∀ i ∈ pending, i ∉ guard → c.isRangeReady i 1 = .ok false) →
    markRangePending c pending res guard =
      (.ok (res ++ pending.filter (· ∉ guard)), guard ++ pending.filter (· ∉ guard))
  | [], res, guard, _, _ => by simp [markRangePending]
  | index :: rest, res, guard, hnodup, hready => by
    obtain ⟨hnew, hrest⟩ := List.nodup_cons.mp hnodup
    have hready' : ∀ i ∈ rest, i ∉ guard → c.isRangeReady i 1 = .ok false :=
      fun i hi => hready i (List.mem_cons_of_mem index hi)
    by_cases hin : index ∈ guard
    · rw [markRangePending, if_pos hin, markRangePending_of_not_ready hrest hready',
        List.filter_cons_of_neg (by simpa using hin)]
    · -- the slot just inserted is for none of the later indices
      have hsame : rest.filter (· ∉ guard ++ [index]) = rest.filter (· ∉ guard) := by
        apply List.filter_congr
        intro i hi
        have hne : i ≠ index := fun h => hnew (h ▸ hi)
        simp [hne]
      have hguard : ∀ i ∈ rest, i ∉ guard ++ [index] → c.isRangeReady i 1 = .ok false :=
        fun i hi hfree => hready' i hi (fun h => hfree (List.mem_append_left _ h))
      rw [markRangePending, if_neg hin, hready index List.mem_cons_self hin]
      dsimp only
      rw [markRangePending_of_not_ready hrest hguard, hsame,
        List.filter_cons_of_pos (by simpa using hin)]
      simp only [List.append_assoc, List.singleton_append]

theorem checkRangeReadyAndMarkPending_spec {c : RangeMap} {guard : List Nat} {start count : Nat}
    {r : Outcome (Option (List Nat))} {guard' : List Nat}
    (h : checkRangeReadyAndMarkPending c guard start count = (r, guard')) :
    (r = .ok none → guard' = guard) ∧
      ∀ v, r = .ok (some v) → ∃ pending,
        c.checkRangeReadyAndMarkPending start count = .ok (some pending) ∧ guard' = guard ++ v ∧
          ∀ i ∈ v, i ∈ pending ∧ i ∉ guard ∧ c.isRangeReady i 1 = .ok false := by
  unfold checkRangeReadyAndMarkPending at h
  rcases hinner : c.checkRangeReadyAndMarkPending start count with e | _ | pending
  · simp only [hinner, Prod.mk.injEq] at h
    obtain ⟨rfl, rfl⟩ := h
    simp
  · simp only [hinner, Prod.mk.injEq] at h
    obtain ⟨rfl, rfl⟩ := h
    simp
  · simp only [hinner] at h
    split_ifs at h with hempty
    · obtain ⟨rfl, rfl⟩ := Prod.mk.inj h
      simp
    · obtain ⟨hr, hguard'⟩ := Prod.mk.inj h
      obtain ⟨new, hguard, hnew, hres⟩ := markRangePending_spec c pending [] guard
      refine ⟨fun hnone => ?_, fun v hv => ⟨pending, rfl, ?_⟩⟩
      · rw [← hr] at hnone
        cases hm : (markRangePending c pending [] guard).1 <;> simp [hm, Except.map] at hnone
      · rw [← hr] at hv
        cases hm : (markRangePending c pending [] guard).1 with
        | error e => simp [hm, Except.map] at hv
        | ok w =>
          simp only [hm, Except.map, Except.ok.injEq, Option.some.injEq] at hv
          have hw := hres w hm
          rw [List.nil_append] at hw
          subst hv hw
          exact ⟨hguard'.symm.trans hguard, hnew⟩

end BlobStateMap

/-! ## Over an `IndexedChunkMap` -/

/-- A fresh map of one chunk. -/
def oneChunkMap : PersistMap := ⟨1, 1, [0]⟩

theorem indexed_checkRangeReadyAndMarkPending_ok {m : PersistMap} {guard : List Nat}
    {start count : Nat} {r : Outcome (Option (List Nat))} {guard' : List Nat}
    (h : BlobStateMap.checkRangeReadyAndMarkPending (IndexedChunkMap.rangeMap m) guard start count =
      (r, guard')) :
    (r = .ok none → guard' = guard) ∧
      ∀ v, r = .ok (some v) → guard' = guard ++ v ∧
        ∀ i ∈ v, i < m.count ∧ start ≤ i ∧ i < start + count ∧ get m.bitmap i = false ∧
          i ∉ guard := by
  obtain ⟨hnone, hsome⟩ := BlobStateMap.checkRangeReadyAndMarkPending_spec h
  refine ⟨hnone, fun v hv => ?_⟩
  obtain ⟨pending, hinner, hguard, hnew⟩ := hsome v hv
  refine ⟨hguard, fun i hi => ?_⟩
  obtain ⟨hpending, hfree, hready⟩ := hnew i hi
  obtain ⟨hlt, hbit⟩ := IndexedChunkMap.isRangeReady_one_eq_false hready
  obtain ⟨hstart, hend⟩ := IndexedChunkMap.checkRangeReadyAndMarkPending_mem hinner i hpending
  exact ⟨hlt, hstart, hend, hbit, hfree⟩

theorem indexed_checkRangeReadyAndMarkPending_ok_fresh :
    ((.ok (some [0]) : Outcome (Option (List Nat))) = .ok none → [0] = ([] : List Nat)) ∧
      ∀ v, (.ok (some [0]) : Outcome (Option (List Nat))) = .ok (some v) → [0] = [] ++ v ∧
        ∀ i ∈ v, i < oneChunkMap.count ∧ 0 ≤ i ∧ i < 0 + 1 ∧ get oneChunkMap.bitmap i = false ∧
          i ∉ ([] : List Nat) :=
  indexed_checkRangeReadyAndMarkPending_ok (by decide)

theorem checkRangeReadyAndMarkPending_strands_slot (m : PersistMap) (guard : List Nat)
    (hall : m.notReadyCount ≠ 0) (hlen : m.bitmap.length = (m.count + 7) / 8)
    (hpos : 0 < m.count) (hpart : m.count % 8 ≠ 0) (hmax : m.count < 2 ^ 32 - 1)
    (hlast : get m.bitmap (m.count - 1) = false) (hpad : get m.bitmap m.count = false)
    (hfree : m.count - 1 ∉ guard) (hfree' : m.count ∉ guard) :
    BlobStateMap.checkRangeReadyAndMarkPending (IndexedChunkMap.rangeMap m) guard (m.count - 1) 2 =
        (bail s!"chunk index {m.count} exceeds chunk count {m.count}", guard ++ [m.count - 1]) ∧
      ∀ start, 8 * m.bitmap.length ≤ start → start < 2 ^ 32 - 1 →
        BlobStateMap.checkRangeReadyAndMarkPending (IndexedChunkMap.rangeMap m) guard start 1 =
          (Outcome.panic "called `Result::unwrap()` on an `Err` value", guard) := by
  have hall' : m.isRangeAllReady = false := by simpa [PersistMap.isRangeAllReady] using hall
  refine ⟨?stranded, fun start hstart hbound => ?panics⟩
  case stranded =>
    -- the last chunk and the padding bit after it, both in the bitmap's last byte
    obtain ⟨c₁, hc₁⟩ : ∃ c, m.bitmap[(m.count - 1) / 8]? = some c :=
      ⟨_, List.getElem?_eq_getElem (by omega)⟩
    obtain ⟨c₂, hc₂⟩ : ∃ c, m.bitmap[m.count / 8]? = some c :=
      ⟨_, List.getElem?_eq_getElem (by omega)⟩
    have hrange : List.range' (m.count - 1) (min 2 (2 ^ 32 - 1 - (m.count - 1))) =
        [m.count - 1, m.count] := by
      rw [Nat.min_eq_left (by omega), List.range'_succ, List.range'_one]
      congr 2
      omega
    have hinner : IndexedChunkMap.checkRangeReadyAndMarkPending m (m.count - 1) 2 =
        .ok (some [m.count - 1, m.count]) := by
      simp only [IndexedChunkMap.checkRangeReadyAndMarkPending, hall', hrange,
        List.foldlM_cons, List.foldlM_nil, PersistMap.isChunkReady_eq hc₁,
        PersistMap.isChunkReady_eq hc₂, hlast, hpad]
      rfl
    have hfirst : IndexedChunkMap.isRangeReady m (m.count - 1) 1 = .ok false := by
      rw [IndexedChunkMap.isRangeReady_one_of_lt hall' (by omega) (by omega) hc₁, hlast]
    have hsecond := IndexedChunkMap.isRangeReady_one_of_le hall' (le_refl m.count) (by omega)
    have hnot : m.count ∉ guard ++ [m.count - 1] := by
      simp only [List.mem_append, List.mem_singleton, not_or]
      exact ⟨hfree', by omega⟩
    simp only [BlobStateMap.checkRangeReadyAndMarkPending, IndexedChunkMap.rangeMap, hinner]
    simp [BlobStateMap.markRangePending, hfree, hfirst, hnot, hsecond, bail, Except.map]
  case panics =>
    have hinner : IndexedChunkMap.checkRangeReadyAndMarkPending m start 1 =
        Outcome.panic "called `Result::unwrap()` on an `Err` value" := by
      simp only [IndexedChunkMap.checkRangeReadyAndMarkPending, hall',
        Nat.min_eq_left (show 1 ≤ 2 ^ 32 - 1 - start by omega), List.range'_one,
        List.foldlM_cons, IndexedChunkMap.isChunkReady_of_length_le (show m.bitmap.length ≤ start / 8 by omega)]
      rfl
    simp only [BlobStateMap.checkRangeReadyAndMarkPending, IndexedChunkMap.rangeMap, hinner]
    rfl

theorem checkRangeReadyAndMarkPending_strands_slot_fresh :
    BlobStateMap.checkRangeReadyAndMarkPending (IndexedChunkMap.rangeMap oneChunkMap) []
        (oneChunkMap.count - 1) 2 =
        (bail s!"chunk index {oneChunkMap.count} exceeds chunk count {oneChunkMap.count}",
          [] ++ [oneChunkMap.count - 1]) ∧
      ∀ start, 8 * oneChunkMap.bitmap.length ≤ start → start < 2 ^ 32 - 1 →
        BlobStateMap.checkRangeReadyAndMarkPending (IndexedChunkMap.rangeMap oneChunkMap) [] start 1 =
          (Outcome.panic "called `Result::unwrap()` on an `Err` value", []) :=
  checkRangeReadyAndMarkPending_strands_slot oneChunkMap [] (by decide) (by decide) (by decide)
    (by decide) (by norm_num [oneChunkMap]) (by decide) (by decide) (by simp) (by simp)

/-! ## `BlobRangeMap` -/

/-- `Vec::with_capacity(capacity)` for elements of `size` bytes: a layout past `isize::MAX`
bytes panics. -/
def withCapacity (size capacity : Nat) : Outcome Unit :=
  if size * capacity > 2 ^ 63 - 1 then Outcome.panic "capacity overflow" else .ok ()

namespace PersistMap

/-- `set_chunk_ready` run by one thread alone: the first exchange of its loop succeeds. -/
def setChunkReady (m : PersistMap) (index : Nat) : Outcome PersistMap := do
  let index ← m.validateIndex index
  let c ← m.isChunkReady index
  if c.1 then pure m
  else
    let m' := (m.writeU8 index c.2).2
    pure { m' with notReadyCount := m'.notReadyCount - 1 }

theorem setChunkReady_get {m : PersistMap} {i : Nat} (hlen : m.bitmap.length = (m.count + 7) / 8)
    (hi : i < m.count) :
    ∃ m', m.setChunkReady i = .ok m' ∧ m'.count = m.count ∧ m'.bitmap.length = m.bitmap.length ∧
      ∀ j, get m'.bitmap j = (get m.bitmap j || decide (j = i)) := by
  obtain ⟨c, hc⟩ : ∃ c, m.bitmap[i / 8]? = some c := ⟨_, List.getElem?_eq_getElem (by omega)⟩
  have hset : ∀ j, get (set m.bitmap i) j = (get m.bitmap j || decide (j = i)) := by
    intro j
    rw [get_set]
    by_cases hj : j = i
    · simp [hj, show i < 8 * m.bitmap.length by omega]
    · simp [hj]
  cases hready : get m.bitmap i
  · refine ⟨{ m with bitmap := set m.bitmap i, notReadyCount := m.notReadyCount - 1 }, ?_, rfl,
      length_set _ _, hset⟩
    simp [setChunkReady, validateIndex, hi, isChunkReady_eq hc, hready, writeU8_eq, hc]
  · refine ⟨m, ?_, rfl, rfl, fun j => ?_⟩
    · simp [setChunkReady, validateIndex, hi, isChunkReady_eq hc, hready]
    · by_cases hj : j = i
      · simp [hj, hready]
      · simp [hj]

theorem foldlM_setChunkReady : ∀ (l : List Nat) (m : PersistMap),
    m.bitmap.length = (m.count + 7) / 8 → (∀ i ∈ l, i < m.count) →
    ∃ m', l.foldlM setChunkReady m = .ok m' ∧ m'.count = m.count ∧
      ∀ j, get m'.bitmap j = (get m.bitmap j || decide (j ∈ l))
  | [], m, _, _ => ⟨m, rfl, rfl, by simp⟩
  | i :: l, m, hlen, hl => by
    obtain ⟨m₁, hm₁, hcount₁, hlen₁, hget₁⟩ := setChunkReady_get hlen (hl i List.mem_cons_self)
    obtain ⟨m', hm', hcount', hget'⟩ := foldlM_setChunkReady l m₁ (by rw [hlen₁, hcount₁, hlen])
      (fun j hj => hcount₁ ▸ hl j (List.mem_cons_of_mem i hj))
    refine ⟨m', by rw [List.foldlM_cons, hm₁, ok_bind, hm'], hcount'.trans hcount₁, fun j => ?_⟩
    rw [hget', hget₁]
    by_cases hj : j = i <;> simp [hj]

end PersistMap

/-- `BlobRangeMap`: one bit per unit of `2 ^ shift` bytes of a blob, in a `PersistMap`; `new` and
`open` assert `shift < 64`. -/
structure BlobRangeMap where
  shift : Nat
  map : PersistMap
  shift_lt : shift < 64

namespace BlobRangeMap

/-- `get_range`: the units from the one of `start` to the one of the range's last byte. -/
def getRange (r : BlobRangeMap) (start count : Nat) : Outcome (Nat × Nat) :=
  if start + count < 2 ^ 64 then
    if start + count = 0 then Outcome.panic "attempt to subtract with overflow"
    else
      let startIndex := start >>> r.shift
      let endIndex := (start + count - 1) >>> r.shift
      if startIndex > 2 ^ 32 - 1 ∨ endIndex > 2 ^ 32 - 1 then bail einval
      else do
        let _ ← r.map.validateIndex startIndex
        let _ ← r.map.validateIndex endIndex
        if endIndex + 1 < 2 ^ 32 then pure (startIndex, endIndex + 1)
        else Outcome.panic "attempt to add with overflow"
  else bail einval

/-- `is_range_ready`. -/
def isRangeReady (r : BlobRangeMap) (start count : Nat) : Outcome Bool :=
  if !r.map.isRangeAllReady then do
    let (startIndex, endIndex) ← r.getRange start count
    (List.range' startIndex (endIndex - startIndex)).allM fun index => do
      let c ← r.map.isChunkReady index
      pure c.1
  else .ok true

/-- `check_range_ready_and_mark_pending`: the start offsets of the units not ready. The vector is
allocated for `count` offsets, the length of the range in bytes. -/
def checkRangeReadyAndMarkPending (r : BlobRangeMap) (start count : Nat) :
    Outcome (Option (List Nat)) :=
  if r.map.isRangeAllReady then .ok none
  else do
    let (startIndex, endIndex) ← r.getRange start count
    withCapacity 8 count
    let vec ← (List.range' startIndex (endIndex - startIndex)).foldlM (fun vec index => do
        let c ← r.map.isChunkReady index
        pure (if !c.1 then vec ++ [(index <<< r.shift) % 2 ^ 64] else vec)) []
    pure (if vec.isEmpty then none else some vec)

/-- The map's `RangeMap` calls. -/
def rangeMap (r : BlobRangeMap) : RangeMap := ⟨r.isRangeReady, r.checkRangeReadyAndMarkPending⟩

/-- `set_range_ready_and_clear_pending`: set the bit of every unit of the range. -/
def setRangeReadyAndClearPending (r : BlobRangeMap) (start count : Nat) : Outcome BlobRangeMap :=
  if !r.map.isRangeAllReady then do
    let (startIndex, endIndex) ← r.getRange start count
    let map ← (List.range' startIndex (endIndex - startIndex)).foldlM PersistMap.setChunkReady r.map
    pure { r with map }
  else .ok r

theorem getRange_of_lt {r : BlobRangeMap} {start count : Nat} (hcount : 0 < count)
    (hend : start + count < 2 ^ 64) (hunits : (start + count - 1) >>> r.shift < r.map.count)
    (hmax : r.map.count < 2 ^ 32) :
    r.getRange start count = .ok (start >>> r.shift, (start + count - 1) >>> r.shift + 1) := by
  have hle : start >>> r.shift ≤ (start + count - 1) >>> r.shift := by
    simp only [Nat.shiftRight_eq_div_pow]
    exact Nat.div_le_div_right (by omega)
  have hne : start + count ≠ 0 := by omega
  have hsmall : ¬(start >>> r.shift > 2 ^ 32 - 1 ∨ (start + count - 1) >>> r.shift > 2 ^ 32 - 1) := by
    omega
  rw [getRange, if_pos hend, if_neg hne]
  dsimp only
  rw [if_neg hsmall]
  simp only [PersistMap.validateIndex, if_pos (show start >>> r.shift < r.map.count by omega),
    if_pos hunits, ok_bind, if_pos (show (start + count - 1) >>> r.shift + 1 < 2 ^ 32 by omega)]
  rfl

theorem le_shiftRight_iff {u x s : Nat} : u ≤ x >>> s ↔ u <<< s ≤ x := by
  rw [Nat.shiftRight_eq_div_pow, Nat.shiftLeft_eq]
  exact Nat.le_div_iff_mul_le (Nat.two_pow_pos s)

theorem shiftRight_lt_iff {u x s : Nat} : x >>> s < u ↔ x < u <<< s := by
  rw [Nat.shiftRight_eq_div_pow, Nat.shiftLeft_eq]
  exact Nat.div_lt_iff_lt_mul (Nat.two_pow_pos s)

theorem mem_units {start count s u : Nat} (hcount : 0 < count)
    (hu : u ∈ List.range' (start >>> s) ((start + count - 1) >>> s + 1 - start >>> s)) :
    u ≤ (start + count - 1) >>> s ∧ u <<< s < start + count := by
  have hin := List.mem_range'_1.mp hu
  have hle : u ≤ (start + count - 1) >>> s := by omega
  have hstart := le_shiftRight_iff.mp hle
  exact ⟨hle, by omega⟩

/-- A map of three units of 4 KiB, the second one ready. -/
def threeUnitMap : BlobRangeMap := ⟨12, ⟨3, 2, [0x40]⟩, by decide⟩

/-- `get_range` of a non-empty range gives the units that meet it, or an `Err` when its last
unit is past the map. -/
theorem getRange_units (r : BlobRangeMap) {start count : Nat} (hcount : 0 < count)
    (hend : start + count < 2 ^ 64) (hmax : r.map.count < 2 ^ 32) :
    ((start + count - 1) >>> r.shift < r.map.count →
      ∃ a b, r.getRange start count = .ok (a, b) ∧
        ∀ u, (a ≤ u ∧ u < b ↔ u <<< r.shift < start + count ∧ start < (u + 1) <<< r.shift)) ∧
    (r.map.count ≤ (start + count - 1) >>> r.shift → ∃ msg, r.getRange start count = bail msg) := by
  refine ⟨fun hunits => ⟨_, _, getRange_of_lt hcount hend hunits hmax, fun u => ?_⟩, fun hunits => ?_⟩
  · have hfirst : start >>> r.shift ≤ u ↔ start < (u + 1) <<< r.shift := by
      rw [← shiftRight_lt_iff]
      omega
    have hlast : u < (start + count - 1) >>> r.shift + 1 ↔ u <<< r.shift < start + count := by
      rw [Nat.lt_succ_iff, le_shiftRight_iff]
      omega
    rw [hfirst, hlast, and_comm]
  · have hne : start + count ≠ 0 := by omega
    rw [getRange, if_pos hend, if_neg hne]
    dsimp only
    by_cases hbig : start >>> r.shift > 2 ^ 32 - 1 ∨ (start + count - 1) >>> r.shift > 2 ^ 32 - 1
    · rw [if_pos hbig]
      exact ⟨_, rfl⟩
    · rw [if_neg hbig]
      by_cases hs : start >>> r.shift < r.map.count
      · simp only [PersistMap.validateIndex, if_pos hs, ok_bind, if_neg (Nat.not_lt.mpr hunits),
          bail, error_bind]
        exact ⟨_, rfl⟩
      · simp only [PersistMap.validateIndex, if_neg hs, bail, error_bind]
        exact ⟨_, rfl⟩

theorem getRange_units_three_units :
    ((100 + 12188 - 1) >>> threeUnitMap.shift < threeUnitMap.map.count →
      ∃ a b, threeUnitMap.getRange 100 12188 = .ok (a, b) ∧
        ∀ u, (a ≤ u ∧ u < b ↔ u <<< threeUnitMap.shift < 100 + 12188 ∧
          100 < (u + 1) <<< threeUnitMap.shift)) ∧
    (threeUnitMap.map.count ≤ (100 + 12188 - 1) >>> threeUnitMap.shift →
      ∃ msg, threeUnitMap.getRange 100 12188 = bail msg) :=
  getRange_units threeUnitMap (by decide) (by norm_num) (by norm_num [threeUnitMap])

/-- The start offsets of the units from `a` to `b` whose bit is clear. -/
def notReadyOffsets (r : BlobRangeMap) (a b : Nat) : List Nat :=
  ((List.range' a (b - a)).filter fun u => !get r.map.bitmap u).map (· <<< r.shift)

section Units

variable {r : BlobRangeMap}

theorem byte_of_lt {u : Nat} (hlen : r.map.bitmap.length = (r.map.count + 7) / 8)
    (hu : u < r.map.count) : ∃ c, r.map.bitmap[u / 8]? = some c :=
  ⟨_, List.getElem?_eq_getElem (by omega)⟩

theorem isRangeReady_unit {u : Nat} (hall : r.map.isRangeAllReady = false)
    (hlen : r.map.bitmap.length = (r.map.count + 7) / 8) (hu : u < r.map.count)
    (hmax : r.map.count < 2 ^ 32) (hoff : u <<< r.shift + 1 < 2 ^ 64) :
    r.isRangeReady (u <<< r.shift) 1 = .ok (get r.map.bitmap u) := by
  have hunit : (u <<< r.shift + 1 - 1) >>> r.shift = u := by
    rw [Nat.add_sub_cancel, Nat.shiftLeft_shiftRight]
  obtain ⟨c, hc⟩ := byte_of_lt hlen hu
  have hrange := getRange_of_lt (r := r) Nat.one_pos hoff (by rw [hunit]; exact hu) hmax
  rw [hunit, Nat.shiftLeft_shiftRight] at hrange
  simp only [isRangeReady, hall, Bool.not_false, if_true, hrange, ok_bind, Nat.add_sub_cancel_left,
    List.range'_one, List.allM_cons, PersistMap.isChunkReady_eq hc]
  cases get r.map.bitmap u <;> rfl

theorem foldl_push_offsets (l acc : List Nat) :
    l.foldl (fun vec u => if !get r.map.bitmap u then vec ++ [u <<< r.shift] else vec) acc =
      acc ++ (l.filter fun u => !get r.map.bitmap u).map (· <<< r.shift) := by
  induction l generalizing acc with
  | nil => simp
  | cons u l ih =>
    rw [List.foldl_cons, ih, List.filter_cons]
    cases get r.map.bitmap u <;> simp

theorem checkRangeReadyAndMarkPending_eq {start count : Nat} (hall : r.map.isRangeAllReady = false)
    (hlen : r.map.bitmap.length = (r.map.count + 7) / 8) (hcount : 0 < count)
    (hsmall : count < 2 ^ 60) (hend : start + count < 2 ^ 64)
    (hunits : (start + count - 1) >>> r.shift < r.map.count) (hmax : r.map.count < 2 ^ 32) :
    r.checkRangeReadyAndMarkPending start count =
      .ok (if (r.notReadyOffsets (start >>> r.shift) ((start + count - 1) >>> r.shift + 1)).isEmpty
        then none
        else some (r.notReadyOffsets (start >>> r.shift) ((start + count - 1) >>> r.shift + 1))) := by
  have hloop : ∀ vec, ∀ u ∈ List.range' (start >>> r.shift)
      ((start + count - 1) >>> r.shift + 1 - start >>> r.shift),
      (do
        let c ← r.map.isChunkReady u
        pure (if !c.1 then vec ++ [(u <<< r.shift) % 2 ^ 64] else vec) : Outcome (List Nat)) =
      .ok (if !get r.map.bitmap u then vec ++ [u <<< r.shift] else vec) := by
    intro vec u hu
    obtain ⟨hle, hoff⟩ := mem_units hcount hu
    obtain ⟨c, hc⟩ := byte_of_lt hlen (show u < r.map.count by omega)
    simp only [PersistMap.isChunkReady_eq hc, Nat.mod_eq_of_lt (show u <<< r.shift < 2 ^ 64 by omega),
      ok_bind, pure_eq_ok]
  simp only [checkRangeReadyAndMarkPending, hall, Bool.false_eq_true, if_false,
    getRange_of_lt hcount hend hunits hmax, ok_bind, withCapacity,
    if_neg (show ¬8 * count > 2 ^ 63 - 1 by omega)]
  rw [foldlM_eq_ok_foldl hloop]
  simp only [foldl_push_offsets, List.nil_append, ok_bind, pure_eq_ok]
  rfl

theorem nodup_notReadyOffsets (a b : Nat) : (r.notReadyOffsets a b).Nodup := by
  apply List.Nodup.map
  · intro u v huv
    simp only [Nat.shiftLeft_eq] at huv
    exact Nat.eq_of_mul_eq_mul_right (Nat.two_pow_pos r.shift) huv
  · exact (List.nodup_range' ..).filter _

end Units

end BlobRangeMap

namespace BlobRangeStateMap

/-- `clear_range_pending` of `BlobStateMap<BlobRangeMap, u64>`: drop the slots of the range's
units; a range `get_range` rejects fails the `debug_assert!`. -/
def clearRangePending (r : BlobRangeMap) (guard : List Nat) (start count : Nat) :
    Outcome (List Nat) :=
  match r.getRange start count with
  | .ok (startIndex, endIndex) =>
    .ok (guard.filter fun idx =>
      idx ∉ (List.range' startIndex (endIndex - startIndex)).map fun index =>
        (index <<< r.shift) % 2 ^ 64)
  | .error (.err _) => Outcome.panic "assertion failed: false"
  | .error (.panic msg) => Outcome.panic msg

/-- `set_range_ready_and_clear_pending` of `BlobStateMap<BlobRangeMap, u64>`: the inner map's
call, then `clear_range_pending`; the inner call's result comes back with the tracer. -/
def setRangeReadyAndClearPending (r : BlobRangeMap) (guard : List Nat) (start count : Nat) :
    Outcome (Outcome BlobRangeMap × List Nat) := do
  let res := r.setRangeReadyAndClearPending start count
  let guard' ← clearRangePending r guard start count
  pure (res, guard')

end BlobRangeStateMap

/-- A map of one unit of `2 ^ 60` bytes, not ready. -/
def oneUnitMap : BlobRangeMap := ⟨60, oneChunkMap, by decide⟩

theorem checkRangeReadyAndMarkPending_capacity_overflow (r : BlobRangeMap) (guard : List Nat)
    (start count : Nat) (hall : r.map.notReadyCount ≠ 0) (hcount : 2 ^ 60 ≤ count)
    (hend : start + count < 2 ^ 64) (hunits : (start + count - 1) >>> r.shift < r.map.count)
    (hmax : r.map.count < 2 ^ 32) :
    BlobStateMap.checkRangeReadyAndMarkPending (BlobRangeMap.rangeMap r) guard start count =
      (Outcome.panic "capacity overflow", guard) := by
  have hall' : r.map.isRangeAllReady = false := by simpa [PersistMap.isRangeAllReady] using hall
  have hinner : r.checkRangeReadyAndMarkPending start count = Outcome.panic "capacity overflow" := by
    simp only [BlobRangeMap.checkRangeReadyAndMarkPending, hall',
      BlobRangeMap.getRange_of_lt (by omega) hend hunits hmax, withCapacity,
      if_pos (show 8 * count > 2 ^ 63 - 1 by omega)]
    rfl
  simp only [BlobStateMap.checkRangeReadyAndMarkPending, BlobRangeMap.rangeMap, hinner]
  rfl

theorem checkRangeReadyAndMarkPending_capacity_overflow_one_unit :
    BlobStateMap.checkRangeReadyAndMarkPending (BlobRangeMap.rangeMap oneUnitMap) [] 0 (2 ^ 60) =
      (Outcome.panic "capacity overflow", []) :=
  checkRangeReadyAndMarkPending_capacity_overflow oneUnitMap [] 0 (2 ^ 60) (by decide) le_rfl
    (by norm_num) (by decide) (by norm_num [oneUnitMap, oneChunkMap])

theorem blobRange_checkRangeReadyAndMarkPending_exact (r : BlobRangeMap) (guard : List Nat)
    (start count : Nat) (hall : r.map.notReadyCount ≠ 0)
    (hlen : r.map.bitmap.length = (r.map.count + 7) / 8) (hcount : 0 < count)
    (hsmall : count < 2 ^ 60) (hend : start + count < 2 ^ 64)
    (hunits : (start + count - 1) >>> r.shift < r.map.count) (hmax : r.map.count < 2 ^ 32)
    (offsets : List Nat)
    (hoffsets : offsets = r.notReadyOffsets (start >>> r.shift) ((start + count - 1) >>> r.shift + 1)) :
    BlobStateMap.checkRangeReadyAndMarkPending (BlobRangeMap.rangeMap r) guard start count =
      if offsets.isEmpty then (.ok none, guard)
      else (.ok (some (offsets.filter (· ∉ guard))), guard ++ offsets.filter (· ∉ guard)) := by
  have hall' : r.map.isRangeAllReady = false := by simpa [PersistMap.isRangeAllReady] using hall
  -- every offset handed out is a unit of the range whose bit the double check reads again
  have hready : ∀ i ∈ offsets, i ∉ guard → r.isRangeReady i 1 = .ok false := by
    intro i hi _
    rw [hoffsets, BlobRangeMap.notReadyOffsets, List.mem_map] at hi
    obtain ⟨u, hu, rfl⟩ := hi
    rw [List.mem_filter] at hu
    obtain ⟨hle, hoff⟩ := BlobRangeMap.mem_units hcount hu.1
    rw [BlobRangeMap.isRangeReady_unit hall' hlen (by omega) hmax (by omega)]
    simpa using hu.2
  simp only [BlobStateMap.checkRangeReadyAndMarkPending, BlobRangeMap.rangeMap,
    BlobRangeMap.checkRangeReadyAndMarkPending_eq hall' hlen hcount hsmall hend hunits hmax,
    ← hoffsets]
  split_ifs with hempty
  · rfl
  · simp only [hempty, Bool.false_eq_true, if_false]
    rw [BlobStateMap.markRangePending_of_not_ready
      (hoffsets ▸ BlobRangeMap.nodup_notReadyOffsets _ _) hready]
    rfl

theorem blobRange_checkRangeReadyAndMarkPending_exact_three_units :
    BlobStateMap.checkRangeReadyAndMarkPending (BlobRangeMap.rangeMap BlobRangeMap.threeUnitMap) [0] 100 12188 =
      if (BlobRangeMap.threeUnitMap.notReadyOffsets (100 >>> BlobRangeMap.threeUnitMap.shift)
          ((100 + 12188 - 1) >>> BlobRangeMap.threeUnitMap.shift + 1)).isEmpty then (.ok none, [0])
      else (.ok (some ((BlobRangeMap.threeUnitMap.notReadyOffsets (100 >>> BlobRangeMap.threeUnitMap.shift)
          ((100 + 12188 - 1) >>> BlobRangeMap.threeUnitMap.shift + 1)).filter (· ∉ [0]))),
        [0] ++ (BlobRangeMap.threeUnitMap.notReadyOffsets (100 >>> BlobRangeMap.threeUnitMap.shift)
          ((100 + 12188 - 1) >>> BlobRangeMap.threeUnitMap.shift + 1)).filter (· ∉ [0])) :=
  blobRange_checkRangeReadyAndMarkPending_exact BlobRangeMap.threeUnitMap [0] 100 12188 (by decide) (by decide)
    (by decide) (by norm_num) (by norm_num) (by decide) (by norm_num [BlobRangeMap.threeUnitMap]) _ rfl

theorem blobRange_setRangeReadyAndClearPending_exact (r : BlobRangeMap) (guard : List Nat)
    (start count : Nat) (hall : r.map.notReadyCount ≠ 0)
    (hlen : r.map.bitmap.length = (r.map.count + 7) / 8) (hcount : 0 < count)
    (hend : start + count < 2 ^ 64) (hunits : (start + count - 1) >>> r.shift < r.map.count)
    (hmax : r.map.count < 2 ^ 32) :
    ∃ r', BlobRangeStateMap.setRangeReadyAndClearPending r guard start count =
        .ok (.ok r', guard.filter fun idx => idx ∉ (List.range' (start >>> r.shift)
          ((start + count - 1) >>> r.shift + 1 - start >>> r.shift)).map (· <<< r.shift)) ∧
      r'.shift = r.shift ∧ r'.map.count = r.map.count ∧
      ∀ u, get r'.map.bitmap u = (get r.map.bitmap u ||
        decide (start >>> r.shift ≤ u ∧ u < (start + count - 1) >>> r.shift + 1)) := by
  have hall' : r.map.isRangeAllReady = false := by simpa [PersistMap.isRangeAllReady] using hall
  have hrange := BlobRangeMap.getRange_of_lt hcount hend hunits hmax
  obtain ⟨m', hm', hcount', hget'⟩ := PersistMap.foldlM_setChunkReady
    (List.range' (start >>> r.shift) ((start + count - 1) >>> r.shift + 1 - start >>> r.shift))
    r.map hlen (fun u hu => by have := BlobRangeMap.mem_units hcount hu; omega)
  -- the offsets of the range's units fit in a `u64`
  have hoffsets : ((List.range' (start >>> r.shift)
      ((start + count - 1) >>> r.shift + 1 - start >>> r.shift)).map
        fun index => (index <<< r.shift) % 2 ^ 64) =
      (List.range' (start >>> r.shift)
        ((start + count - 1) >>> r.shift + 1 - start >>> r.shift)).map (· <<< r.shift) := by
    apply List.map_congr_left
    intro u hu
    have := BlobRangeMap.mem_units hcount hu
    exact Nat.mod_eq_of_lt (by omega)
  refine ⟨{ r with map := m' }, ?_, rfl, hcount', fun u => ?_⟩
  · simp only [BlobRangeStateMap.setRangeReadyAndClearPending, BlobRangeMap.setRangeReadyAndClearPending,
      BlobRangeStateMap.clearRangePending, hall', Bool.not_false, if_true, hrange, ok_bind, hm',
      hoffsets, pure_eq_ok]
  · rw [hget']
    congr 2
    simp only [List.mem_range'_1, eq_iff_iff]
    omega

theorem blobRange_setRangeReadyAndClearPending_exact_three_units :
    ∃ r', BlobRangeStateMap.setRangeReadyAndClearPending BlobRangeMap.threeUnitMap [0, 8192] 100 12188 =
        .ok (.ok r', [0, 8192].filter fun idx => idx ∉
          (List.range' (100 >>> BlobRangeMap.threeUnitMap.shift)
            ((100 + 12188 - 1) >>> BlobRangeMap.threeUnitMap.shift + 1 -
              100 >>> BlobRangeMap.threeUnitMap.shift)).map (· <<< BlobRangeMap.threeUnitMap.shift)) ∧
      r'.shift = BlobRangeMap.threeUnitMap.shift ∧
      r'.map.count = BlobRangeMap.threeUnitMap.map.count ∧
      ∀ u, get r'.map.bitmap u = (get BlobRangeMap.threeUnitMap.map.bitmap u ||
        decide (100 >>> BlobRangeMap.threeUnitMap.shift ≤ u ∧
          u < (100 + 12188 - 1) >>> BlobRangeMap.threeUnitMap.shift + 1)) :=
  blobRange_setRangeReadyAndClearPending_exact BlobRangeMap.threeUnitMap [0, 8192] 100 12188
    (by decide) (by decide) (by decide) (by norm_num) (by decide)
    (by norm_num [BlobRangeMap.threeUnitMap])

end Nydus.Storage
