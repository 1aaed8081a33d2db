import Mathlib.Data.List.Basic

/-!
# Chunk readiness maps (`storage/src/cache/state/mod.rs`)

A `ChunkMap` records which chunks of a blob are already in the local cache. `BlobStateMap`
uses a base map through two calls, `is_ready` and `set_ready_and_clear_pending`. `ChunkMap σ ι`
is such a base map, with state `σ` and chunk index `ι` (`ChunkIndexGetter::Index`); an `Err` of
`is_ready` is `none`. The structure carries the laws the adapter relies on: a ready chunk stays
ready whatever chunk is marked next, and marking a chunk leaves the others as they were.

`DigestedChunkMap` (`digested_chunk_map.rs`) is the set of ready chunk digests. The other base
map, `IndexedChunkMap`, lives over a `PersistMap` bitmap (`Nydus.Storage.PersistMap`).
-/

namespace Nydus.Storage

/-- A base chunk map, as `BlobStateMap` uses it. -/
structure ChunkMap (σ ι : Type) where
  /-- `is_ready`; `none` is an `Err`. -/
  isReady : σ → ι → Option Bool
  /-- The effect of `set_ready_and_clear_pending` on the map. -/
  setReady : σ → ι → σ
  /-- Marking a chunk never makes a ready chunk unready. -/
  ready_mono : ∀ s i j, isReady s j = some true → isReady (setReady s i) j = some true
  /-- Marking a chunk leaves every other chunk as it was. -/
  isReady_setReady_of_ne : ∀ s i j, j ≠ i → isReady (setReady s i) j = isReady s j

namespace DigestedChunkMap

variable {δ : Type} [DecidableEq δ]

/-- `is_ready`: `cache.contains(chunk_id)`. -/
def isReady (cache : List δ) (d : δ) : Option Bool := some (decide (d ∈ cache))

/-- `set_ready_and_clear_pending`: `cache.insert(chunk_id)`. -/
def setReadyAndClearPending (cache : List δ) (d : δ) : List δ :=
  if d ∈ cache then cache else d :: cache

theorem mem_setReadyAndClearPending {cache : List δ} {d e : δ} (h : e ∈ cache) :
    e ∈ setReadyAndClearPending cache d := by
  unfold setReadyAndClearPending
  split
  · exact h
  · exact List.mem_cons_of_mem d h

theorem mem_setReadyAndClearPending_iff {cache : List δ} {d e : δ} (hne : e ≠ d) :
    e ∈ setReadyAndClearPending cache d ↔ e ∈ cache := by
  unfold setReadyAndClearPending
  split
  · rfl
  · simp [hne]

end DigestedChunkMap

/-- `DigestedChunkMap` as a base map, indexed by chunk digest. -/
def digestedChunkMap (δ : Type) [DecidableEq δ] : ChunkMap (List δ) δ where
  isReady := DigestedChunkMap.isReady
  setReady := DigestedChunkMap.setReadyAndClearPending
  ready_mono s i j h := by
    simp only [DigestedChunkMap.isReady, Option.some.injEq, decide_eq_true_eq] at h ⊢
    exact DigestedChunkMap.mem_setReadyAndClearPending h
  isReady_setReady_of_ne s i j hne := by
    simp only [DigestedChunkMap.isReady, DigestedChunkMap.mem_setReadyAndClearPending_iff hne]

end Nydus.Storage
