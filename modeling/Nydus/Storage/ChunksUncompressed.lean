import Mathlib
import Nydus.Lib.Outcome
import Nydus.Storage.ChunkArray
import Nydus.Storage.ChunkExtend
import Nydus.Storage.MetaFile

/-!
# The chunks of an uncompressed range (`get_chunks_uncompressed`, `storage/src/meta/mod.rs`)

`BlobCompressionContextInfo::get_chunks_uncompressed(start, size, batch_size)` lists the
chunks that hold the uncompressed range `[start, start + size)` of a blob. It looks up the
chunk of `start` (`_get_chunk_index_nocheck`) and walks the array forward from it, taking each
next chunk while it begins at the 4K-aligned end of the one before. A `batch_size` larger than
`size` moves the end of the walk to `batch_end`, up to `start + batch_size` within the blob, so
that one backend read fetches what later reads will want; the walk stops early before a chunk
that would read past `batch_end` once the range itself is covered. A ZRan chunk takes another
branch: back to the first chunk of its ZRan context, then forward over whole contexts.

Chunks are returned by their index in the array (`BlobMetaChunk`).

For an array without ZRan chunks whose entries pass validation:
* `getChunksUncompressed_sound`: a returned list is the run of chunks `i..=k`, each beginning
  at the aligned end of the one before, from a chunk that covers `start` to one whose aligned
  end reaches `start + size` (`RunCovers`);
* `getChunksUncompressed_exact`: on a sorted array the call returns exactly when the run from
  the chunk that the lookup finds reaches `batch_end`, or reaches `start + size` at the last
  chunk of the array (`RunReaches`), and fails with an error otherwise. A range that chunks do
  cover fails when the walk past it towards `batch_end` meets a hole between two chunks
  (`getChunksUncompressed_fails_at_hole`).
-/

namespace Nydus.Storage.Meta

open Nydus.Lib BlobMetaChunkInfo
open Nydus.Lib.Outcome (bail)

section Walk

variable {T : Type} [BlobMetaChunkInfo T] (state : BlobCompressionContext) (arr : List T)

/-- `aligned_uncompressed_end`: `round_up_4k` of the end of the chunk, which has at most 45
bits and so never overflows. -/
def alignedUncompressedEnd (e : T) : Nat := (uncompressedEnd e + 0xfff) / 0x1000 * 0x1000

/-- The `while index + 1 < chunk_info_array.len()` loop of the branch without ZRan: `index` is
the last chunk taken and `lastEnd` its aligned end. -/
def extendUncompressed (stop batchEnd index lastEnd : Nat) (vec : List Nat) :
    Outcome (List Nat) :=
  if index + 1 < arr.length then do
    let entry ← getChunkEntry state arr (index + 1)
    if uncompressedOffset entry ≠ lastEnd then
      let offset := uncompressedOffset entry
      let size := uncompressedSize entry
      bail s!"mismatch uncompressed {offset} size {size} last_end {lastEnd}"
    else if lastEnd ≥ stop ∧ alignedUncompressedEnd entry ≥ batchEnd then
      -- the range is covered and the next chunk would read past `batch_end`
      pure vec
    else
      let vec := vec ++ [← blobMetaChunkNew (index + 1)]
      if alignedUncompressedEnd entry ≥ batchEnd then pure vec
      else extendUncompressed stop batchEnd (index + 1) (alignedUncompressedEnd entry) vec
  else if lastEnd ≥ stop then pure vec
  else
    let len := arr.length
    let lastEndHex := hex lastEnd
    let stopHex := hex stop
    let sizeHex := hex state.uncompressedSize
    bail s!"entry not found index {index} chunk_info_array.len {len}, last_end 0x{lastEndHex}, end 0x{stopHex}, blob compressed size 0x{sizeHex}"
termination_by arr.length - index

/-- The step back of the ZRan branch: the chunk before must be a ZRan chunk, and is taken when
it belongs to the same context. -/
def zranSameContext (zranIndex : Nat) (e : T) : Outcome Bool :=
  if !isZran e then bail "inconsistent ZRan and non-ZRan chunk compression information entries"
  else do pure ((← getZranIndex e) == zranIndex)

/-- The `for entry in &chunk_info_array[index..]` loop of the ZRan branch and the check after
it: `count` is the output size of the contexts taken, `zranLast` the last of them and `zranEnd`
the aligned end of the last chunk taken. -/
def zranUncompressed (start stop batchSize : Nat) :
    List T → (index count zranLast zranEnd : Nat) → List Nat → Outcome (List Nat)
  | [], index, _, _, zranEnd, vec =>
    if zranEnd ≥ stop then pure vec
    else
      let len := arr.length
      let lastEndHex := hex (((vec.getLast?.bind fun i => arr[i]?).map uncompressedEnd).getD 0)
      let startHex := hex start
      let stopHex := hex stop
      bail s!"entry not found index {index} chunk_info_array.len {len}, end 0x{lastEndHex}, range [0x{startHex}-0x{stopHex}]"
  | e :: rest, index, count, zranLast, _, vec => do
    validate state e
    if !isZran e then
      bail "inconsistent ZRan and non-ZRan chunk compression information entries"
    else
      let zranIndex ← getZranIndex e
      if zranIndex ≠ zranLast then
        let ctx ← Outcome.get state.zranInfoArray zranIndex
        if count + ctx.outSize ≥ 2 ^ 64 then Outcome.panic "attempt to add with overflow"
        else if count + ctx.outSize ≥ batchSize ∧ uncompressedOffset e ≥ stop then pure vec
        else
          zranUncompressed start stop batchSize rest (index + 1) (count + ctx.outSize) zranIndex
            (alignedUncompressedEnd e) (vec ++ [← blobMetaChunkNew index])
      else
        zranUncompressed start stop batchSize rest (index + 1) count zranLast
          (alignedUncompressedEnd e) (vec ++ [← blobMetaChunkNew index])

/-- `BlobMetaChunkArray::_get_chunks_uncompressed`. -/
def getChunksUncompressed (start stop batchEnd batchSize : Nat) : Outcome (List Nat) := do
  let index ← getChunkIndexNocheck state arr start false false
  let entry ← getChunkEntry state arr index
  if isZran entry then
    let zranIndex ← getZranIndex entry
    let count := (← Outcome.get state.zranInfoArray zranIndex).outSize
    let index ← scanBack state arr (zranSameContext zranIndex) index
    zranUncompressed state arr start stop batchSize (arr.drop index) index count zranIndex
      (alignedUncompressedEnd entry) []
  else
    let vec := [← blobMetaChunkNew index]
    let lastEnd := alignedUncompressedEnd entry
    if lastEnd ≥ batchEnd then pure vec
    else extendUncompressed state arr stop batchEnd index lastEnd vec

end Walk

/-- `BlobMetaChunkArray::get_chunks_uncompressed`. -/
def BlobMetaChunkArray.getChunksUncompressed (a : BlobMetaChunkArray)
    (state : BlobCompressionContext) (start stop batchEnd batchSize : Nat) : Outcome (List Nat) :=
  match a with
  | .v1 v => Meta.getChunksUncompressed state v start stop batchEnd batchSize
  | .v2 v => Meta.getChunksUncompressed state v start stop batchEnd batchSize

/-- `p` holds of the entries of the array, in whichever layout they are stored. -/
def BlobMetaChunkArray.Holds (a : BlobMetaChunkArray)
    (p : {T : Type} → [BlobMetaChunkInfo T] → List T → Prop) : Prop :=
  match a with
  | .v1 v => p v
  | .v2 v => p v

/-- The `batch_end` of `get_chunks_uncompressed`: a batch larger than the request moves the end
of the walk to `start + batch_size`, within the blob. -/
def uncompressedBatchEnd (start size stop batchSize uncompressedSize : Nat) : Nat :=
  if batchSize ≤ size then stop
  else min (if start + batchSize < 2 ^ 64 then start + batchSize else stop) uncompressedSize

/-- `BlobCompressionContextInfo::get_chunks_uncompressed`. -/
def BlobCompressionContextInfo.getChunksUncompressed (info : BlobCompressionContextInfo)
    (start size batchSize : Nat) : Outcome (List Nat) :=
  if start + size ≥ 2 ^ 64 then
    bail s!"get_chunks_uncompressed: invalid start {start}/size {size}"
  else
    let stop := start + size
    let state := info.state
    if stop > state.uncompressedSize then
      let uncompressedSize := state.uncompressedSize
      bail s!"get_chunks_uncompressed: invalid end {stop}/uncompressed_size {uncompressedSize}"
    else
      let batchEnd := uncompressedBatchEnd start size stop batchSize state.uncompressedSize
      let batchSize := if batchSize < size then size else batchSize
      state.chunkInfoArray.getChunksUncompressed state start stop batchEnd batchSize

/-! ## Runs of chunks -/

section Runs

variable {T : Type} [BlobMetaChunkInfo T]

/-- The chunks `i..=k` follow each other in the uncompressed space: each after the first
begins at the aligned end of the one before. -/
inductive ContiguousRun (chunks : List T) : Nat → Nat → Prop
  | single {i : Nat} : i < chunks.length → ContiguousRun chunks i i
  | cons {i k : Nat} {a b : T} : chunks[i]? = some a → chunks[i + 1]? = some b →
      uncompressedOffset b = alignedUncompressedEnd a → ContiguousRun chunks (i + 1) k →
      ContiguousRun chunks i k

/-- The walk from chunk `i` returns: the run from `i` reaches `batchEnd`, or reaches `stop` at
the last chunk of the array. -/
def RunReaches (chunks : List T) (i stop batchEnd : Nat) : Prop :=
  ∃ k e, ContiguousRun chunks i k ∧ chunks[k]? = some e ∧
    (batchEnd ≤ alignedUncompressedEnd e ∨ k + 1 = chunks.length ∧ stop ≤ alignedUncompressedEnd e)

/-- What `get_chunks_uncompressed` returns: the indices `i..=k` of a run whose first chunk
covers `start` and whose last chunk's aligned end reaches `stop`. -/
def RunCovers (chunks : List T) (start stop : Nat) (v : List Nat) : Prop :=
  ∃ i k, v = List.range' i (k + 1 - i) ∧ ContiguousRun chunks i k ∧
    (∃ e, chunks[i]? = some e ∧ Covers e start) ∧
    ∃ e, chunks[k]? = some e ∧ stop ≤ alignedUncompressedEnd e

/-- The walk from the chunk of `start` returns: a chunk covers `start` and is not a later member
of a batch, which the lookup finds on a sorted array, and the run from it reaches. -/
def ReachesFromHit (chunks : List T) (start stop batchEnd : Nat) : Prop :=
  ∃ i e, chunks[i]? = some e ∧ IsHit e start ∧ RunReaches chunks i stop batchEnd

variable {chunks : List T} {i k stop batchEnd : Nat} {a b : T}

theorem ContiguousRun.le (h : ContiguousRun chunks i k) : i ≤ k := by
  induction h with
  | single => exact le_rfl
  | cons _ _ _ _ ih => omega

theorem RunReaches.cons (ha : chunks[i]? = some a) (hb : chunks[i + 1]? = some b)
    (hoff : uncompressedOffset b = alignedUncompressedEnd a)
    (h : RunReaches chunks (i + 1) stop batchEnd) : RunReaches chunks i stop batchEnd := by
  obtain ⟨k, e, hrun, he, hend⟩ := h
  exact ⟨k, e, .cons ha hb hoff hrun, he, hend⟩

theorem RunReaches.inv (h : RunReaches chunks i stop batchEnd) (ha : chunks[i]? = some a) :
    (batchEnd ≤ alignedUncompressedEnd a ∨
        i + 1 = chunks.length ∧ stop ≤ alignedUncompressedEnd a) ∨
      ∃ b, chunks[i + 1]? = some b ∧ uncompressedOffset b = alignedUncompressedEnd a ∧
        RunReaches chunks (i + 1) stop batchEnd := by
  obtain ⟨k, e, hrun, he, hend⟩ := h
  cases hrun with
  | single _ =>
    rw [ha, Option.some.injEq] at he
    subst he
    exact .inl hend
  | cons ha' hb hoff hrest =>
    rw [ha, Option.some.injEq] at ha'
    subst ha'
    exact .inr ⟨_, hb, hoff, k, e, hrest, he, hend⟩

theorem not_runReaches (ha : chunks[i]? = some a) (hbatch : alignedUncompressedEnd a < batchEnd)
    (hlast : i + 1 = chunks.length → alignedUncompressedEnd a < stop)
    (hnext : ∀ b, chunks[i + 1]? = some b → uncompressedOffset b = alignedUncompressedEnd a →
      ¬RunReaches chunks (i + 1) stop batchEnd) :
    ¬RunReaches chunks i stop batchEnd := by
  intro h
  rcases h.inv ha with (hend | ⟨hlen, hstop⟩) | ⟨b, hb, hoff, hrest⟩
  · omega
  · have := hlast hlen
    omega
  · exact hnext b hb hoff hrest

end Runs

/-! ## The walk without ZRan -/

section Spec

variable {T : Type} [BlobMetaChunkInfo T] {state : BlobCompressionContext} {arr : List T}
  {stop batchEnd : Nat}

theorem getChunkEntry_eq_ok {index : Nat} {e : T} :
    getChunkEntry state arr index = .ok e ↔ arr[index]? = some e ∧ validate state e = .ok () := by
  unfold getChunkEntry
  split_ifs with h
  · simp only [bind_eq_ok, Outcome.get_eq_ok, pure_eq_ok, Except.ok.injEq]
    constructor
    · rintro ⟨e', he', u, hu, rfl⟩
      exact ⟨he', hu⟩
    · rintro ⟨he, hv⟩
      exact ⟨e, he, (), hv, rfl⟩
  · simp only [Outcome.panic, reduceCtorEq, false_iff, not_and]
    intro he
    exact absurd (List.getElem?_eq_some_iff.mp he).1 h

theorem blobMetaChunkNew_eq_ok {index j : Nat} :
    blobMetaChunkNew index = .ok j ↔ index ≤ rafsMaxChunksPerBlob ∧ index = j := by
  unfold blobMetaChunkNew
  split_ifs with h <;> simp [h, Outcome.panic]

theorem extendUncompressed_sound (hbe : stop ≤ batchEnd) {index lastEnd : Nat}
    {vec v : List Nat} {a : T} (ha : arr[index]? = some a)
    (hlast : lastEnd = alignedUncompressedEnd a)
    (h : extendUncompressed state arr stop batchEnd index lastEnd vec = .ok v) :
    (∃ k e, v = vec ++ List.range' (index + 1) (k - index) ∧ ContiguousRun arr index k ∧
        arr[k]? = some e ∧ stop ≤ alignedUncompressedEnd e) ∧
      RunReaches arr index stop batchEnd := by
  fun_induction extendUncompressed state arr stop batchEnd index lastEnd vec generalizing a with
  | case1 index lastEnd vec hlt ih =>
    obtain ⟨b, hb, h⟩ := bind_eq_ok.mp h
    obtain ⟨hb, -⟩ := getChunkEntry_eq_ok.mp hb
    split_ifs at h with hoff hcut hreach
    · cases h
    · cases h
      have hrun : ContiguousRun arr index (index + 1) :=
        .cons ha hb (by omega) (.single (List.getElem?_eq_some_iff.mp hb).1)
      exact ⟨⟨index, a, by simp, .single (List.getElem?_eq_some_iff.mp ha).1, ha, by omega⟩,
        index + 1, b, hrun, hb, .inl hcut.2⟩
    all_goals
      obtain ⟨x, hx, h⟩ := bind_eq_ok.mp h
      obtain ⟨-, rfl⟩ := blobMetaChunkNew_eq_ok.mp hx
      have hoff : uncompressedOffset b = alignedUncompressedEnd a := by omega
      have hrun : ContiguousRun arr index (index + 1) :=
        .cons ha hb hoff (.single (List.getElem?_eq_some_iff.mp hb).1)
    · cases h
      exact ⟨⟨index + 1, b, by simp, hrun, hb, by omega⟩, index + 1, b, hrun, hb, .inl hreach⟩
    · obtain ⟨⟨k, e, rfl, hk, he, hstop⟩, hrest⟩ := ih b (index + 1) hb rfl h
      have hle := hk.le
      refine ⟨⟨k, e, ?_, .cons ha hb hoff hk, he, hstop⟩, hrest.cons ha hb hoff⟩
      rw [show k - index = k - (index + 1) + 1 by omega, List.range'_succ, List.append_assoc]
      rfl
  | case2 index lastEnd vec hge hstop =>
    cases h
    have hi := (List.getElem?_eq_some_iff.mp ha).1
    exact ⟨⟨index, a, by simp, .single hi, ha, by omega⟩,
      index, a, .single hi, ha, .inr ⟨by omega, by omega⟩⟩
  | case3 => cases h

theorem extendUncompressed_ok_or_fails (hvalid : ∀ e ∈ arr, validate state e = .ok ())
    (hlen : arr.length ≤ rafsMaxChunksPerBlob) {index lastEnd : Nat} {vec : List Nat} {a : T}
    (ha : arr[index]? = some a) (hlast : lastEnd = alignedUncompressedEnd a)
    (hlt : lastEnd < batchEnd) :
    (∃ v, extendUncompressed state arr stop batchEnd index lastEnd vec = .ok v) ∨
      (∃ msg, extendUncompressed state arr stop batchEnd index lastEnd vec = bail msg) ∧
        ¬RunReaches arr index stop batchEnd := by
  fun_induction extendUncompressed state arr stop batchEnd index lastEnd vec generalizing a with
  | case1 index lastEnd vec hnext ih =>
    obtain ⟨b, hb⟩ : ∃ b, arr[index + 1]? = some b := ⟨_, List.getElem?_eq_getElem hnext⟩
    have hentry : getChunkEntry state arr (index + 1) = .ok b :=
      getChunkEntry_eq_ok.mpr ⟨hb, hvalid b (List.mem_of_getElem? hb)⟩
    have hnew : blobMetaChunkNew (index + 1) = .ok (index + 1) :=
      blobMetaChunkNew_eq_ok.mpr ⟨by omega, rfl⟩
    rw [hentry, ok_bind]
    split_ifs with hoff hcut hreach
    · refine .inr ⟨⟨_, rfl⟩, not_runReaches ha (by omega) (by omega) fun b' hb' hoff' => ?_⟩
      rw [hb, Option.some.injEq] at hb'
      subst hb'
      omega
    · exact .inl ⟨_, rfl⟩
    · rw [hnew, ok_bind]
      exact .inl ⟨_, rfl⟩
    · rw [hnew, ok_bind]
      rcases ih b (index + 1) hb rfl (by omega) with hok | ⟨hfail, hno⟩
      · exact .inl hok
      · refine .inr ⟨hfail, not_runReaches ha (by omega) (by omega) fun b' hb' _ => ?_⟩
        rw [hb, Option.some.injEq] at hb'
        subst hb'
        exact hno
  | case2 => exact .inl ⟨_, rfl⟩
  | case3 index lastEnd vec hnext hstop =>
    refine .inr ⟨⟨_, rfl⟩, not_runReaches ha (by omega) (fun _ => by omega) fun b hb _ => ?_⟩
    exact absurd (List.getElem?_eq_some_iff.mp hb).1 hnext

theorem getChunksUncompressed_of_found {start batchSize index : Nat} {a : T}
    (hidx : getChunkIndexNocheck state arr start false false = .ok index)
    (ha : arr[index]? = some a) (hv : validate state a = .ok ()) (hz : isZran a = false)
    (hi : index ≤ rafsMaxChunksPerBlob) :
    getChunksUncompressed state arr start stop batchEnd batchSize =
      if alignedUncompressedEnd a ≥ batchEnd then .ok [index]
      else extendUncompressed state arr stop batchEnd index (alignedUncompressedEnd a) [index] := by
  rw [getChunksUncompressed, hidx, ok_bind, getChunkEntry_eq_ok.mpr ⟨ha, hv⟩, ok_bind,
    if_neg (by simp [hz]), blobMetaChunkNew_eq_ok.mpr ⟨hi, rfl⟩, ok_bind]
  rfl

/-- A list the call returns is a run that covers `[start, stop)`, from a chunk that the lookup
may return, and that chunk's run reaches. -/
theorem getChunksUncompressed_sound (hz : ∀ e ∈ arr, isZran e = false) (hbe : stop ≤ batchEnd)
    {start batchSize : Nat} {v : List Nat}
    (h : getChunksUncompressed state arr start stop batchEnd batchSize = .ok v) :
    RunCovers arr start stop v ∧ ReachesFromHit arr start stop batchEnd := by
  obtain ⟨index, hidx, h⟩ := bind_eq_ok.mp h
  obtain ⟨a, ha, h⟩ := bind_eq_ok.mp h
  obtain ⟨ha, -⟩ := getChunkEntry_eq_ok.mp ha
  obtain ⟨e, he, hit⟩ := getChunkIndexNocheck_sound hidx
  rw [ha, Option.some.injEq] at he
  subst he
  rw [if_neg (by simp [hz a (List.mem_of_getElem? ha)])] at h
  obtain ⟨x, hx, h⟩ := bind_eq_ok.mp h
  obtain ⟨-, rfl⟩ := blobMetaChunkNew_eq_ok.mp hx
  have hi := (List.getElem?_eq_some_iff.mp ha).1
  dsimp only at h
  split_ifs at h with hreach
  · cases h
    exact ⟨⟨index, index, by simp, .single hi, ⟨a, ha, hit.1⟩, a, ha, by omega⟩,
      index, a, ha, hit, index, a, .single hi, ha, .inl hreach⟩
  · obtain ⟨⟨k, e, rfl, hk, he, hstop⟩, hrest⟩ := extendUncompressed_sound hbe ha rfl h
    refine ⟨⟨index, k, ?_, hk, ⟨a, ha, hit.1⟩, e, he, hstop⟩, index, a, ha, hit, hrest⟩
    have := hk.le
    rw [show k + 1 - index = k - index + 1 by omega, List.range'_succ]
    rfl

theorem getChunksUncompressed_ok_or_fails (hz : ∀ e ∈ arr, isZran e = false)
    (hvalid : ∀ e ∈ arr, validate state e = .ok ()) (hlen : arr.length ≤ rafsMaxChunksPerBlob)
    (hb : BatchReadable arr) (hs : UncompressedSorted arr) {start batchSize : Nat} :
    (∃ v, getChunksUncompressed state arr start stop batchEnd batchSize = .ok v) ∨
      (∃ msg, getChunksUncompressed state arr start stop batchEnd batchSize = bail msg) ∧
        ¬ReachesFromHit arr start stop batchEnd := by
  by_cases hhit : ∃ (i : Nat) (e : T), arr[i]? = some e ∧ IsHit e start
  · obtain ⟨i, a, ha, hit⟩ := hhit
    have hidx : getChunkIndexNocheck state arr start false false = .ok i :=
      getChunkIndexNocheck_complete hs ha hit
    have hi := (List.getElem?_eq_some_iff.mp ha).1
    have hmem := List.mem_of_getElem? ha
    rw [getChunksUncompressed_of_found hidx ha (hvalid a hmem) (hz a hmem) (by omega)]
    split_ifs with hreach
    · exact .inl ⟨_, rfl⟩
    · obtain hok | ⟨hfail, hno⟩ : (∃ v, extendUncompressed state arr stop batchEnd i
          (alignedUncompressedEnd a) [i] = .ok v) ∨ _ :=
        extendUncompressed_ok_or_fails hvalid hlen ha rfl (by omega)
      · exact .inl hok
      · refine .inr ⟨hfail, ?_⟩
        -- on a sorted array the lookup finds every hit, so there is only one
        rintro ⟨j, e, he, hit', hrest⟩
        have hj : getChunkIndexNocheck state arr start false false = .ok j :=
          getChunkIndexNocheck_complete hs he hit'
        rw [hidx] at hj
        cases hj
        exact hno hrest
  · have hnone : ∀ (k : Nat) (e : T), arr[k]? = some e → ¬IsHit e start :=
      fun k e he hit => hhit ⟨k, e, he, hit⟩
    obtain ⟨msg, hmsg⟩ : ∃ msg, getChunkIndexNocheck state arr start false false = bail msg :=
      getChunkIndexNocheck_no_hit hb hnone
    refine .inr ⟨⟨msg, ?_⟩, fun ⟨i, e, he, hit, _⟩ => hhit ⟨i, e, he, hit⟩⟩
    rw [getChunksUncompressed, hmsg]
    rfl

theorem getChunksUncompressed_iff (hb : BatchReadable arr) (hbe : stop ≤ batchEnd)
    {start batchSize : Nat} :
    (∀ e ∈ arr, isZran e = false ∧ validate state e = .ok ()) →
      (∀ v, getChunksUncompressed state arr start stop batchEnd batchSize = .ok v →
          RunCovers arr start stop v) ∧
        (UncompressedSorted arr → arr.length ≤ rafsMaxChunksPerBlob →
          ((∃ v, getChunksUncompressed state arr start stop batchEnd batchSize = .ok v) ↔
              ReachesFromHit arr start stop batchEnd) ∧
            ((∃ msg, getChunksUncompressed state arr start stop batchEnd batchSize = bail msg) ↔
              ¬ReachesFromHit arr start stop batchEnd)) := by
  intro hentries
  have hz : ∀ e ∈ arr, isZran e = false := fun e he => (hentries e he).1
  have hvalid : ∀ e ∈ arr, validate state e = .ok () := fun e he => (hentries e he).2
  refine ⟨fun v h => (getChunksUncompressed_sound hz hbe h).1, fun hs hlen => ?_⟩
  have hcases : (∃ v, getChunksUncompressed state arr start stop batchEnd batchSize = .ok v) ∨
      (∃ msg, getChunksUncompressed state arr start stop batchEnd batchSize = bail msg) ∧
        ¬ReachesFromHit arr start stop batchEnd :=
    getChunksUncompressed_ok_or_fails hz hvalid hlen hb hs
  constructor
  · constructor
    · rintro ⟨v, h⟩
      exact (getChunksUncompressed_sound hz hbe h).2
    · intro hreach
      rcases hcases with hok | ⟨-, hno⟩
      · exact hok
      · exact absurd hreach hno
  · constructor
    · rintro ⟨msg, hmsg⟩
      rcases hcases with ⟨v, hv⟩ | ⟨-, hno⟩
      · rw [hmsg] at hv
        cases hv
      · exact hno
    · intro hno
      rcases hcases with ⟨v, hv⟩ | ⟨hfail, -⟩
      · exact absurd (getChunksUncompressed_sound hz hbe hv).2 hno
      · exact hfail

end Spec

theorem BlobCompressionContextInfo.getChunksUncompressed_eq {info : BlobCompressionContextInfo}
    {start size batchSize : Nat} (hend : start + size < 2 ^ 64)
    (hsize : start + size ≤ info.state.uncompressedSize) :
    info.getChunksUncompressed start size batchSize =
      info.state.chunkInfoArray.getChunksUncompressed info.state start (start + size)
        (uncompressedBatchEnd start size (start + size) batchSize info.state.uncompressedSize)
        (if batchSize < size then size else batchSize) := by
  unfold BlobCompressionContextInfo.getChunksUncompressed
  rw [if_neg (Nat.not_le.mpr hend)]
  dsimp only
  rw [if_neg (Nat.not_lt.mpr hsize)]

theorem le_uncompressedBatchEnd {start size batchSize uncompressedSize : Nat}
    (hsize : start + size ≤ uncompressedSize) :
    start + size ≤ uncompressedBatchEnd start size (start + size) batchSize uncompressedSize := by
  unfold uncompressedBatchEnd
  split_ifs <;> omega

/-! ## The call on a blob -/

theorem getChunksUncompressed_exact (info : BlobCompressionContextInfo)
    (start size batchSize : Nat) (hend : start + size < 2 ^ 64)
    (hsize : start + size ≤ info.state.uncompressedSize) :
    info.state.chunkInfoArray.Holds fun chunks =>
      (∀ e ∈ chunks, isZran e = false ∧ validate info.state e = .ok ()) →
        (∀ v, info.getChunksUncompressed start size batchSize = .ok v →
            RunCovers chunks start (start + size) v) ∧
          (UncompressedSorted chunks → chunks.length ≤ rafsMaxChunksPerBlob →
            ((∃ v, info.getChunksUncompressed start size batchSize = .ok v) ↔
                ReachesFromHit chunks start (start + size)
                  (uncompressedBatchEnd start size (start + size) batchSize
                    info.state.uncompressedSize)) ∧
              ((∃ msg, info.getChunksUncompressed start size batchSize = bail msg) ↔
                ¬ReachesFromHit chunks start (start + size)
                  (uncompressedBatchEnd start size (start + size) batchSize
                    info.state.uncompressedSize))) := by
  have hbe : start + size ≤
      uncompressedBatchEnd start size (start + size) batchSize info.state.uncompressedSize :=
    le_uncompressedBatchEnd hsize
  rw [BlobCompressionContextInfo.getChunksUncompressed_eq hend hsize]
  cases info.state.chunkInfoArray with
  | v1 v => exact getChunksUncompressed_iff batchReadable_v1 hbe
  | v2 v => exact getChunksUncompressed_iff (batchReadable_v2 v) hbe

theorem getChunksUncompressed_exact_two_chunks :
    0 + 4096 < 2 ^ 64 ∧ 0 + 4096 ≤ v1TwoChunks.uncompressedSize ∧
      v1TwoChunks.chunkInfoArray.Holds fun chunks =>
        (∀ e ∈ chunks, isZran e = false ∧ validate v1TwoChunks e = .ok ()) →
          (∀ v, (⟨v1TwoChunks⟩ : BlobCompressionContextInfo).getChunksUncompressed 0 4096 8192 =
              .ok v → RunCovers chunks 0 (0 + 4096) v) ∧
            (UncompressedSorted chunks → chunks.length ≤ rafsMaxChunksPerBlob →
              ((∃ v, (⟨v1TwoChunks⟩ : BlobCompressionContextInfo).getChunksUncompressed 0 4096 8192 =
                  .ok v) ↔
                  ReachesFromHit chunks 0 (0 + 4096)
                    (uncompressedBatchEnd 0 4096 (0 + 4096) 8192 v1TwoChunks.uncompressedSize)) ∧
                ((∃ msg, (⟨v1TwoChunks⟩ : BlobCompressionContextInfo).getChunksUncompressed 0 4096
                    8192 = bail msg) ↔
                  ¬ReachesFromHit chunks 0 (0 + 4096)
                    (uncompressedBatchEnd 0 4096 (0 + 4096) 8192 v1TwoChunks.uncompressedSize))) :=
  ⟨by norm_num, by decide, getChunksUncompressed_exact ⟨v1TwoChunks⟩ 0 4096 8192 (by norm_num)
    (by decide)⟩

/-- Two V1 chunks of one page each, with a hole of one page between them. -/
def holeChunks : List BlobChunkInfoV1Ondisk := [v1Chunk 0, v1Chunk 2]

def holeBlob : BlobCompressionContextInfo := ⟨⟨0, 0, 12288, 12288, .v1 holeChunks, [], []⟩⟩

/-- The first page of the blob is covered by its first chunk, yet the request for it with a
batch of two pages fails: the walk towards `batch_end` meets the hole before the second
chunk. -/
theorem getChunksUncompressed_fails_at_hole :
    (∀ e ∈ holeChunks, isZran e = false ∧ validate holeBlob.state e = .ok ()) ∧
      UncompressedSorted holeChunks ∧ 0 + 4096 < 2 ^ 64 ∧
      0 + 4096 ≤ holeBlob.state.uncompressedSize ∧ RunCovers holeChunks 0 (0 + 4096) [0] ∧
      holeBlob.getChunksUncompressed 0 4096 8192 =
        bail "mismatch uncompressed 8192 size 4096 last_end 4096" := by
  have hs : UncompressedSorted holeChunks := by decide
  have hit : IsHit (v1Chunk 0) 0 := isHit_v1_iff.mpr (by decide)
  have hidx : getChunkIndexNocheck holeBlob.state holeChunks 0 false false = .ok 0 :=
    getChunkIndexNocheck_complete hs rfl hit
  have hwalk : getChunksUncompressed holeBlob.state holeChunks 0 4096 8192 8192 =
      bail "mismatch uncompressed 8192 size 4096 last_end 4096" := by
    rw [getChunksUncompressed_of_found hidx rfl (by decide) rfl (by decide), if_neg (by decide),
      extendUncompressed, if_pos (by decide), getChunkEntry_eq_ok.mpr ⟨rfl, by decide⟩, ok_bind,
      if_pos (by decide)]
    rfl
  refine ⟨by decide, hs, by norm_num, by decide,
    ⟨0, 0, rfl, .single (by decide), ⟨v1Chunk 0, rfl, by decide⟩, v1Chunk 0, rfl, by decide⟩, ?_⟩
  rw [BlobCompressionContextInfo.getChunksUncompressed_eq (by norm_num) (by decide)]
  exact hwalk

end Nydus.Storage.Meta
