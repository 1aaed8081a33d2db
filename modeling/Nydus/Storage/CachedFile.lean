import Mathlib
import Nydus.Lib.Outcome
import Nydus.Storage.ChunkMap
import Nydus.Storage.IoRegion

/-!
# Pending chunks on the read path of the cache (`storage/src/cache/cachedfile.rs`)

`FileCacheEntry::read_iter` serves a user read as a list of merged ranges (`BlobIoRange`), each a
list of chunks with their tags: the part of the chunk a user request reads, or internal IO. For
each range, `dispatch_one_range` calls `check_ready_and_mark_pending` on every chunk and pushes
the chunk to a region of its `FileIoMergeState` (`Nydus.Storage.Cache.FileCacheEntry.pushChunk`):
* a ready chunk of a plaintext cache without data validation is read from the cache file as it
  is (`CacheFast`); internal IO there only closes the region;
* a ready chunk otherwise, and every chunk when the chunk map is not a direct one, goes to a
  `CacheSlow` region, read and validated chunk by chunk by `read_single_chunk`, which falls back
  to the backend; internal IO is dropped there, and cleared when not ready;
* every other chunk goes to a `Backend` region, at its compressed range, which the blob meta
  gives when there is one.
The regions are dispatched in order. `dispatch_backend` clears the chunks of a region without
user IO, extends a region to more chunks of the blob (`extend_pending_chunks`), reads it, and
persists each chunk that decompresses: at once for raw data, otherwise by a delayed task
(`delay_persist_chunk_data`) that later sets the chunk ready or clears it. When a range fails,
`read_iter` calls `update_chunk_pending_status(chunk, false)` on every chunk of that range and of
every range after it; a panic unwinds past that handler.

The state is the chunk map as the read path uses it: the base map, the inflight tracer, and the
persist tasks spawned and not yet run. Each slot also records the thread whose call inserted it.
This is ghost state: the source keeps no owner. A call runs with no other thread stepping in
between, which is one of the schedules the code allows. A slot another thread holds is therefore
never completed meanwhile, and waiting on it times out.

The results:
* `readIter_settles_own_slots`: in every configuration, whatever the cache file, the backend and
  the blob meta answer, once a call that does not panic and the persist tasks it spawned have
  run, the tracer holds no slot but those it held before the call;
* `readIter_clears_slot_of_other_reader`: `read_iter` also clears slots that other threads
  hold. A thread holds chunk 1. A read of ranges `[0]` and `[1]` that fails on chunk 0 removes
  that slot. A third thread then marks chunk 1 pending too, while the first still fetches it.

The proof follows the call. The classification adds slots only for chunks that are not ready,
and puts each of them in a region or clears it (`classifyChunks_marks`, `classifyChunks_ok`).
Every dispatch step adds no slot (`Frame`) and, when it succeeds, is done with each chunk of its
region that is not ready (`dispatchRegion_done`): the backend path keeps such a chunk through the
extension by the blob meta (`backendRegion_mem`). The error handler clears the rest.

Model notes. What a `FileCacheEntry` fixes for a call is an `Entry`: its configuration and its
blob meta, whose `add_more_chunks` keeps the chunks it is given. What the cache file, the
backend, decompression, encryption and the copies into the user's buffers do is an `Oracle`; the
messages of the errors they return stand for the I/O errors. Buffers and the cursor are left
out, and of the byte counts only those `dispatch_cache_slow` computes with. A chunk is keyed in
the chunk map by its `ChunkInfo`. The requests are those `merge_requests_for_user` returned.
-/

namespace Nydus.Storage.CachedFile

open Nydus.Lib
open Nydus.Lib.Outcome (bail)
open Nydus.Storage.Cache (ChunkInfo BlobIoTag BlobIoRange Region FileIoMergeState FileCacheEntry)

/-- The blob meta (`BlobCompressionContextInfo`), as the read path uses it, by chunk index. -/
structure BlobMeta where
  /-- `get_compressed_info`: a chunk's compressed range, its batch's for a batch chunk. -/
  getCompressedInfo : Nat → Outcome (Nat × Nat)
  /-- `add_more_chunks`: the chunks to read with the given ones, within a batch size. -/
  addMoreChunks : List ChunkInfo → Nat → Outcome (List ChunkInfo)
  isBatchChunk : Nat → Bool
  getZranIndex : Nat → Nat
  /-- `get_zran_context`: the compressed offset and size of a ZRan context. -/
  getZranContext : Nat → Option (Nat × Nat)
  /-- The chunks `add_more_chunks` returns include the chunks it was given. -/
  mem_addMoreChunks : ∀ cs n v, addMoreChunks cs n = .ok v → ∀ c ∈ cs, c ∈ v

/-- What a `FileCacheEntry` fixes for a read: its configuration and its blob meta. -/
structure Entry where
  isRawData : Bool
  isCacheEncrypted : Bool
  needValidation : Bool
  isDirectChunkmap : Bool
  isZran : Bool
  isBatch : Bool
  batchSize : Nat
  /-- `meta`: `none` for an entry without blob meta, `some none` where `get_blob_meta()` fails. -/
  blobMeta : Option (Option BlobMeta)

namespace Entry

variable (e : Entry)

/-- `get_blob_meta_info`. -/
def getBlobMetaInfo : Outcome (Option BlobMeta) :=
  match e.blobMeta with
  | none => .ok none
  | some none => bail "failed to get blob meta object for cache file"
  | some (some bm) => .ok (some bm)

/-- `get_blob_meta_info()?.ok_or_else(..)?`: the blob meta, which the caller needs. -/
def requireBlobMeta : Outcome BlobMeta := do
  match ← e.getBlobMetaInfo with
  | some bm => pure bm
  | none => bail "failed to get blob meta object"

/-- The entry as the merge of `dispatch_one_range` reads it: `if let Ok(Some(meta)) =
self.get_blob_meta_info()` takes the compressed range from the blob meta. -/
def toFileCacheEntry : FileCacheEntry where
  isRawData := e.isRawData
  isCacheEncrypted := e.isCacheEncrypted
  needValidation := e.needValidation
  isDirectChunkmap := e.isDirectChunkmap
  blobMeta := match e.blobMeta with
    | some (some bm) => some bm.getCompressedInfo
    | _ => none
  batchSize := e.batchSize

/-- `ondemand_batch_size`. -/
def ondemandBatchSize : Nat := e.toFileCacheEntry.ondemandBatchSize

end Entry

/-- The chunk map and the runtime, as the read path sees them. -/
structure CacheState (σ ι τ : Type) where
  /-- The base map. -/
  base : σ
  /-- `inflight_tracer`: the slot of each pending chunk. -/
  tracer : ι → Option Nat
  /-- The thread whose `check_ready_and_mark_pending` inserted each slot. -/
  creator : Nat → Option τ
  /-- The number of the next slot. -/
  nextSlot : Nat
  /-- The delayed persist tasks spawned on the runtime and not yet run. -/
  tasks : List ι

/-- No chunk pending and no task spawned. -/
def CacheState.init {σ ι τ : Type} (base : σ) : CacheState σ ι τ :=
  ⟨base, fun _ => none, fun _ => none, 0, []⟩

/-- What the environment answers. -/
structure Oracle where
  /-- `readv` of `len` bytes at `offset` of the cache file, for a `CacheFast` region. -/
  readCache : Nat × Nat → Bool
  /-- `read_file_cache` of a chunk, with its decompression and validation. -/
  readFileCache : ChunkInfo → Bool
  /-- `read_chunk_from_backend` of a chunk. -/
  readChunkFromBackend : ChunkInfo → Bool
  /-- `read_chunks_from_backend` of a region. -/
  readBackend : Region → Bool
  /-- The chunk's buffer from the backend's iterator decompresses. -/
  decompress : ChunkInfo → Bool
  /-- `copyv` of a backend region into the user's buffers. -/
  copy : Region → Bool
  /-- `copyv` of `size` bytes from an offset of a chunk `read_single_chunk` read: the bytes it
  copied, or `none` for an error. -/
  copyChunk : ChunkInfo → Nat → Nat → Option Nat
  /-- `persist_cached_data` of a region's raw data. -/
  persistRegion : Region → Bool
  /-- The delayed persist task's encryption and write of the chunk. -/
  persist : ChunkInfo → Bool
  /-- `copyv` copies at most the bytes it is asked for. -/
  copyChunk_le : ∀ c offset size n, copyChunk c offset size = some n → n ≤ size

variable {σ ι τ : Type} [DecidableEq ι]

/-! ## The chunk map -/

section Map

variable (m : ChunkMap σ ι)

/-- A new slot for chunk `i`, inserted by thread `t`. -/
def insertSlot (s : CacheState σ ι τ) (t : τ) (i : ι) : CacheState σ ι τ :=
  { s with
    tracer := Function.update s.tracer i (some s.nextSlot)
    creator := Function.update s.creator s.nextSlot (some t)
    nextSlot := s.nextSlot + 1 }

/-- `BlobStateMap::check_ready_and_mark_pending` by thread `t`, while no other thread steps: a
slot found in the tracer is never completed, so `wait_for_inflight` times out. -/
def checkReadyAndMarkPending (s : CacheState σ ι τ) (t : τ) (i : ι) :
    CacheState σ ι τ × Except StorageError Bool :=
  match m.isReady s.base i with
  | none => (s, .error .cacheIndex)
  | some true => (s, .ok true)
  | some false =>
    match s.tracer i with
    | some _ => (s, .error .timeout)
    | none =>
      -- the double check under the tracer's lock
      match m.isReady s.base i with
      | none => (s, .error .cacheIndex)
      | some true => (s, .ok true)
      | some false => (insertSlot s t i, .ok false)

/-- `BlobStateMap::clear_pending`: the chunk's slot, whoever inserted it, leaves the tracer. -/
def clearPending (s : CacheState σ ι τ) (i : ι) : CacheState σ ι τ :=
  { s with tracer := Function.update s.tracer i none }

/-- `BlobStateMap::set_ready_and_clear_pending`. -/
def setReadyAndClearPending (s : CacheState σ ι τ) (i : ι) : CacheState σ ι τ :=
  clearPending { s with base := m.setReady s.base i } i

/-- `_update_chunk_pending_status`. -/
def updateChunkPendingStatus (s : CacheState σ ι τ) (i : ι) (success : Bool) :
    CacheState σ ι τ :=
  if success then setReadyAndClearPending m s i else clearPending s i

end Map

/-! ## The read path -/

section ReadPath

variable (m : ChunkMap σ ChunkInfo) (e : Entry) (o : Oracle) (t : τ)

/-- One turn of the loop of `dispatch_one_range`: the chunk is checked, and marked pending when
it is not ready, then pushed to its region. The slow path drops internal IO, and clears a chunk
that is not ready. -/
def classifyChunk (s : CacheState σ ChunkInfo τ) (st : FileIoMergeState) (c : ChunkInfo)
    (tag : BlobIoTag) : CacheState σ ChunkInfo τ × Outcome FileIoMergeState :=
  let r := checkReadyAndMarkPending m s t c
  let dropped := match FileCacheEntry.isReadyOf r.2 with
    | .ok false => !e.isDirectChunkmap && !tag.isUserIo
    | _ => false
  (if dropped then clearPending r.1 c else r.1, e.toFileCacheEntry.pushChunk st c tag r.2)

/-- The loop of `dispatch_one_range` over the chunks of a range and their tags. -/
def classifyChunks : CacheState σ ChunkInfo τ → FileIoMergeState → List (ChunkInfo × BlobIoTag) →
    CacheState σ ChunkInfo τ × Outcome FileIoMergeState
  | s, st, [] => (s, .ok st)
  | s, st, (c, tag) :: rest =>
    let r := classifyChunk m e t s st c tag
    match r.2 with
    | .ok st => classifyChunks r.1 st rest
    | .error f => (r.1, .error f)

/-- `dispatch_cache_fast`: `readv` of the region's user bytes from the cache file. -/
def dispatchCacheFast (r : Region) : Outcome Unit := do
  let range ← Cache.dispatchCacheFast r
  if o.readCache range then pure () else bail "failed to read from the cache file"

/-- `read_single_chunk` of `size` bytes from `userOffset`: called with the chunk ready or
pending, it leaves the chunk ready, with a persist task, or cleared when the backend read fails,
and returns the bytes copied. -/
def readSingleChunk (s : CacheState σ ChunkInfo τ) (c : ChunkInfo) (userOffset size : Nat) :
    CacheState σ ChunkInfo τ × Outcome Nat :=
  match m.isReady s.base c with
  | none => (s, bail "failed to check the chunk map")
  | some isReady =>
    let r : CacheState σ ChunkInfo τ × Outcome Unit :=
      if (isReady || !e.isDirectChunkmap) && o.readFileCache c then
        (setReadyAndClearPending m s c, .ok ())
      else if o.readChunkFromBackend c then
        -- `delay_persist_chunk_data`, of raw data or not
        ({ s with tasks := s.tasks ++ [c] }, .ok ())
      else (clearPending s c, bail "failed to read the chunk from backend")
    match r.2 with
    | .ok _ =>
      (r.1, match o.copyChunk c userOffset size with
        | some n => .ok n
        | none => bail "failed to copy from chunk buf to buf")
    | .error f => (r.1, .error f)

/-- The offset and size `dispatch_cache_slow` reads a chunk with: from the segment's offset in
the first chunk, and no more than the chunk or the rest of the segment holds. -/
def slowSize (r : Region) (first : Bool) (totalRead : Nat) (c : ChunkInfo) :
    Outcome (Nat × Nat) :=
  let userOffset := if first then r.seg.offset else 0
  if c.uncompressedSize < userOffset then Outcome.panic "attempt to subtract with overflow"
  -- `region.seg.len - total_read as u32`
  else if r.seg.len < totalRead % 2 ^ 32 then Outcome.panic "attempt to subtract with overflow"
  else .ok (userOffset, min (c.uncompressedSize - userOffset) (r.seg.len - totalRead % 2 ^ 32))

/-- `dispatch_cache_slow`: `read_single_chunk` on each chunk of the region, with the bytes read
so far. -/
def dispatchCacheSlow (r : Region) :
    CacheState σ ChunkInfo τ → Bool → Nat → List ChunkInfo → CacheState σ ChunkInfo τ × Outcome Unit
  | s, _, _, [] => (s, .ok ())
  | s, first, totalRead, c :: cs =>
    match slowSize r first totalRead c with
    | .error f => (s, .error f)
    | .ok (userOffset, size) =>
      let d := readSingleChunk m e o s c userOffset size
      match d.2 with
      | .ok n => dispatchCacheSlow r d.1 false (totalRead + n) cs
      | .error f => (d.1, .error f)

/-- The assertions of `dispatch_backend` on consecutive chunks of a region: in blob order, with
gaps of at most the batch size's share, and by increasing id. -/
def checkOrder : List ChunkInfo → Outcome Unit
  | c :: d :: rest =>
    let chunkEnd := c.compressedOffset + c.compressedSize
    let start := d.compressedOffset
    if ¬ chunkEnd ≤ start then Outcome.panic "assertion failed: end <= start"
    else if ¬ start - chunkEnd ≤ e.ondemandBatchSize >>> Cache.rafsBatchSizeToGapShift then
      Outcome.panic
        "assertion failed: start - end <= self.ondemand_batch_size() >> RAFS_BATCH_SIZE_TO_GAP_SHIFT"
    else if ¬ c.id < d.id then
      Outcome.panic "assertion failed: region.chunks[idx].id() < region.chunks[idx + 1].id()"
    else checkOrder (d :: rest)
  | _ => .ok ()

/-- The first loop of `strip_ready_chunks` for ZRan: how many chunks it skips before the first
one it keeps; it stops at the last chunk in any case. -/
def zranStart {α : Type} (keep : α → Bool) : List α → Nat
  | c :: d :: rest => if keep c then 0 else zranStart keep (d :: rest) + 1
  | _ => 0

/-- `strip_ready_chunks`: without ZRan, the ready chunks at the end are dropped; with ZRan, the
chunks before the first and after the last that the old chunks or a ZRan context of a chunk not
ready keeps. -/
def stripReadyChunks (bm : BlobMeta) (base : σ) (old v : List ChunkInfo) :
    Outcome (List ChunkInfo) :=
  let ready := fun c => m.isReady base c == some true
  if e.isZran then
    match old.head?, old.getLast? with
    | some c₀, some cₙ =>
      if v = [] then Outcome.panic "attempt to subtract with overflow"
      else
        let set := (v.filter fun c => !ready c).map fun c => bm.getZranIndex c.id
        let keepFirst := fun c : ChunkInfo => c.id == c₀.id || decide (bm.getZranIndex c.id ∈ set)
        let keepLast := fun c : ChunkInfo => c.id == cₙ.id || decide (bm.getZranIndex c.id ∈ set)
        let w := v.drop (zranStart keepFirst v)
        -- the second loop drops chunks from the end, down to the first one kept
        .ok (w.take 1 ++ (w.drop 1).rdropWhile fun c => !keepLast c)
    | _, _ => Outcome.panic "index out of bounds"
  else .ok (v.rdropWhile ready)

/-- `extend_pending_chunks`: the chunks the blob meta adds to the region's. -/
def extendPendingChunks (base : σ) (chunks : List ChunkInfo) :
    Outcome (Option (List ChunkInfo)) := do
  if chunks = [] then Outcome.panic "assertion failed: !chunks.is_empty()"
  match ← e.getBlobMetaInfo with
  | none => pure none
  | some bm =>
    let v ← bm.addMoreChunks chunks e.ondemandBatchSize
    some <$> stripReadyChunks m e bm base chunks v

/-- The compressed range `Region::with` gives chunks from `c₀` to `cₙ`: their batch's when they
are a batch, else from the first chunk's start to the last one's end. -/
def withRange (bm : BlobMeta) (c₀ cₙ : ChunkInfo) : Outcome (Nat × Nat) :=
  if e.isBatch && bm.isBatchChunk c₀.id then bm.getCompressedInfo c₀.id
  else do
    let ba := c₀.compressedOffset
    if cₙ.compressedOffset < ba then Outcome.panic "attempt to subtract with overflow"
    let sz := cₙ.compressedOffset - ba
    if ¬ sz < 0xFFFF_FFFF then Outcome.panic "assertion failed: sz < u32::MAX as u64"
    if sz + cₙ.compressedSize ≥ 2 ^ 32 then Outcome.panic "attempt to add with overflow"
    pure (ba, sz + cₙ.compressedSize)

/-- `Region::with`: the region over other chunks, none of them tagged yet. -/
def regionWith (r : Region) (chunks : List ChunkInfo) : Outcome Region :=
  match chunks.head?, chunks.getLast? with
  | some c₀, some cₙ => do
    let bm ← e.requireBlobMeta
    (fun range => { r with
        blobAddress := range.1
        blobLen := range.2
        chunks := chunks
        tags := List.replicate chunks.length false }) <$> withRange e bm c₀ cₙ
  | _, _ => Outcome.panic "assertion failed: !chunks.is_empty()"

/-- `get_blob_range`: the compressed range of the blob that the chunks lie in. -/
def getBlobRange (chunks : List ChunkInfo) : Outcome (Nat × Nat × Nat) := do
  match chunks.head?, chunks.getLast? with
  | some c₀, some cₙ =>
    let range ← if e.isZran then do
        let bm ← e.requireBlobMeta
        let some ctx₀ := bm.getZranContext (bm.getZranIndex c₀.id)
          | bail "failed to get ZRan context for chunk"
        let some ctxₙ := bm.getZranContext (bm.getZranIndex cₙ.id)
          | bail "failed to get ZRan context for chunk"
        pure (ctx₀.1, ctxₙ.1 + ctxₙ.2)
      else if e.isBatch then do
        let bm ← e.requireBlobMeta
        let first ← bm.getCompressedInfo c₀.id
        let last ← bm.getCompressedInfo cₙ.id
        pure (first.1, last.1 + last.2)
      else pure (c₀.compressedOffset, cₙ.compressedEnd)
    if range.2 < range.1 then Outcome.panic "attempt to subtract with overflow"
    if range.2 - range.1 > 0xFFFF_FFFF then
      bail "requested blob range is too bigger, larger than u32::MAX"
    pure (range.1, range.2, range.2 - range.1)
  | _, _ => Outcome.panic "assertion failed: !chunks.is_empty()"

/-- The region `dispatch_backend` extends a region to, when the blob meta finds more chunks:
the tags of the chunks it had stay. -/
def extendedRegion (base : σ) (r : Region) : Outcome Region := do
  match ← extendPendingChunks m e base r.chunks with
  | some v =>
    if v.length > r.chunks.length then do
      let tagSet := ((r.chunks.zip r.tags).filter fun p => p.2).map fun p => p.1.id
      let hold ← regionWith e r v
      pure { hold with tags := hold.chunks.map fun c => decide (c.id ∈ tagSet) }
    else pure r
  | none => pure r

/-- The region `dispatch_backend` reads: the extended one, over whole ZRan contexts for a ZRan
blob. -/
def backendRegion (base : σ) (r : Region) : Outcome Region := do
  let region ← extendedRegion m e base r
  if e.isZran then
    (fun range => { region with blobAddress := range.1, blobLen := range.2.2 }) <$>
      getBlobRange e region.chunks
  else pure region

/-- The loop of `dispatch_backend` over the chunk buffers: the first that does not decompress
ends the call; out of raw-data mode each other gets a delayed persist task. -/
def delayPersist : CacheState σ ChunkInfo τ → List ChunkInfo → CacheState σ ChunkInfo τ × Outcome Unit
  | s, [] => (s, .ok ())
  | s, c :: cs =>
    if o.decompress c then
      delayPersist (if e.isRawData then s else { s with tasks := s.tasks ++ [c] }) cs
    else (s, bail "failed to decompress chunk")

/-- Raw data is written to the cache file at once, and each chunk of the region set ready or
cleared by the result. -/
def persistRaw (s : CacheState σ ChunkInfo τ) (region : Region) : CacheState σ ChunkInfo τ :=
  if e.isRawData then
    region.chunks.foldl (fun s c => updateChunkPendingStatus m s c (o.persistRegion region)) s
  else s

/-- What `dispatch_backend` does with a region the backend returned: raw data is written, the
chunk buffers decompressed and persisted, and the user's part copied. -/
def persistAndCopy (s : CacheState σ ChunkInfo τ) (region : Region) :
    CacheState σ ChunkInfo τ × Outcome Unit :=
  let s := persistRaw m e o s region
  if e.isRawData && !o.persistRegion region then (s, bail "failed to write data to file cache")
  else
    let d := delayPersist e o s region.chunks
    (d.1, d.2 >>= fun _ =>
      if o.copy region then .ok () else bail "failed to copy from chunk buf to buf")

/-- `FileCacheEntry::dispatch_backend`. -/
def dispatchBackend (s : CacheState σ ChunkInfo τ) (r : Region) :
    CacheState σ ChunkInfo τ × Outcome Unit :=
  if r.chunks = [] then (s, .ok ())
  else if !r.hasUserIo then (r.chunks.foldl clearPending s, .ok ())
  else
    match checkOrder e r.chunks >>= fun _ => backendRegion m e s.base r with
    | .error f => (s, .error f)
    | .ok region =>
      if !o.readBackend region then
        (region.chunks.foldl clearPending s, bail "failed to read chunks from backend")
      else persistAndCopy m e o s region

/-- One region, by its type. -/
def dispatchRegion (s : CacheState σ ChunkInfo τ) (r : Region) :
    CacheState σ ChunkInfo τ × Outcome Unit :=
  match r.type with
  | .cacheFast => (s, dispatchCacheFast o r)
  | .cacheSlow => dispatchCacheSlow m e o r s true 0 r.chunks
  | .backend => dispatchBackend m e o s r

/-- The loop of `dispatch_one_range` over its regions, in order, up to the first failure. -/
def dispatchRegions : CacheState σ ChunkInfo τ → List Region → CacheState σ ChunkInfo τ × Outcome Unit
  | s, [] => (s, .ok ())
  | s, r :: rs =>
    let d := dispatchRegion m e o s r
    match d.2 with
    | .ok _ => dispatchRegions d.1 rs
    | .error f => (d.1, .error f)

/-- `FileCacheEntry::dispatch_one_range`, from the state `read_iter` resets for each range. -/
def dispatchOneRange (s : CacheState σ ChunkInfo τ) (req : BlobIoRange) :
    CacheState σ ChunkInfo τ × Outcome Unit :=
  let r := classifyChunks m e t s FileIoMergeState.new (req.chunks.zip req.tags)
  match r.2 with
  | .ok st => dispatchRegions m e o r.1 st.regions
  | .error f => (r.1, .error f)

/-- The error handler of `read_iter`: `update_chunk_pending_status(chunk, false)` on every chunk
of the given ranges. -/
def clearRanges (s : CacheState σ ChunkInfo τ) (reqs : List BlobIoRange) : CacheState σ ChunkInfo τ :=
  reqs.foldl (fun s req => req.chunks.foldl (fun s c => updateChunkPendingStatus m s c false) s) s

/-- `FileCacheEntry::read_iter` over the merged ranges `requests`, by thread `t`. -/
def readIter : CacheState σ ChunkInfo τ → List BlobIoRange → CacheState σ ChunkInfo τ × Outcome Unit
  | s, [] => (s, .ok ())
  | s, req :: reqs =>
    let r := dispatchOneRange m e o t s req
    match r.2 with
    | .ok _ => readIter r.1 reqs
    -- `requests.iter().skip(idx)`: the failed range and every range after it
    | .error (.err msg) => (clearRanges m r.1 (req :: reqs), bail msg)
    | .error (.panic msg) => (r.1, Outcome.panic msg)

/-- The runtime runs the delayed persist tasks in the order they were spawned: the cache-file
write, then `_update_chunk_pending_status`. -/
def runTasks (s : CacheState σ ChunkInfo τ) : CacheState σ ChunkInfo τ :=
  s.tasks.foldl (fun s c => updateChunkPendingStatus m s c (o.persist c)) { s with tasks := [] }

end ReadPath

/-! ## Steps that add no slot -/

section Frame

variable (m : ChunkMap σ ι)

/-- A step that adds no slot to the tracer, drops no spawned task, and leaves the readiness of
every chunk that keeps its slot as it was. -/
structure Frame (s s' : CacheState σ ι τ) : Prop where
  tracer : ∀ i sl, s'.tracer i = some sl → s.tracer i = some sl
  tasks : ∀ c ∈ s.tasks, c ∈ s'.tasks
  ready : ∀ i sl, s'.tracer i = some sl → m.isReady s'.base i = m.isReady s.base i

omit [DecidableEq ι] in
theorem Frame.refl (s : CacheState σ ι τ) : Frame m s s :=
  ⟨fun _ _ h => h, fun _ h => h, fun _ _ _ => rfl⟩

omit [DecidableEq ι] in
theorem Frame.trans {s₁ s₂ s₃ : CacheState σ ι τ} (h₁ : Frame m s₁ s₂) (h₂ : Frame m s₂ s₃) :
    Frame m s₁ s₃ :=
  ⟨fun i sl h => h₁.tracer i sl (h₂.tracer i sl h), fun c h => h₂.tasks c (h₁.tasks c h),
    fun i sl h => (h₂.ready i sl h).trans (h₁.ready i sl (h₂.tracer i sl h))⟩

omit [DecidableEq ι] in
theorem Frame.tracer_none {s s' : CacheState σ ι τ} (hf : Frame m s s') {i : ι}
    (h : s.tracer i = none) : s'.tracer i = none := by
  cases h' : s'.tracer i with
  | none => rfl
  | some sl => simp [hf.tracer i sl h'] at h

omit [DecidableEq ι] in
theorem frame_spawn (s : CacheState σ ι τ) (c : ι) :
    Frame m s { s with tasks := s.tasks ++ [c] } :=
  ⟨fun _ _ h => h, fun _ h => List.mem_append_left _ h, fun _ _ _ => rfl⟩

/-- A step on chunks that adds no slot and clears the slot of its chunk. -/
def Clears (f : CacheState σ ι τ → ι → CacheState σ ι τ) : Prop :=
  ∀ s c, Frame m s (f s c) ∧ (f s c).tracer c = none

omit [DecidableEq ι] in
/-- **Clearing loop.** A loop of clearing steps adds no slot and clears every chunk it visits. -/
theorem foldl_clears {f : CacheState σ ι τ → ι → CacheState σ ι τ} (hf : Clears m f) :
    ∀ (cs : List ι) (s : CacheState σ ι τ),
      Frame m s (cs.foldl f s) ∧ ∀ c ∈ cs, (cs.foldl f s).tracer c = none
  | [], s => ⟨Frame.refl m s, by simp⟩
  | c :: cs, s => by
    obtain ⟨hframe, hclear⟩ := foldl_clears hf cs (f s c)
    refine ⟨(hf s c).1.trans m hframe, ?_⟩
    intro d hd
    rcases List.mem_cons.mp hd with rfl | hd
    · exact hframe.tracer_none m (hf s d).2
    · exact hclear d hd

theorem clears_clearPending : Clears m (clearPending : CacheState σ ι τ → ι → CacheState σ ι τ) := by
  intro s c
  refine ⟨⟨fun i sl h => ?_, fun _ h => h, fun _ _ _ => rfl⟩, by simp [clearPending]⟩
  by_cases hic : i = c
  · subst hic
    simp [clearPending] at h
  · simpa [clearPending, Function.update_of_ne hic] using h

theorem clears_setReadyAndClearPending :
    Clears m (setReadyAndClearPending m : CacheState σ ι τ → ι → CacheState σ ι τ) := by
  intro s c
  obtain ⟨⟨htr, htasks, -⟩, hc⟩ := clears_clearPending m { s with base := m.setReady s.base c } c
  refine ⟨⟨htr, htasks, fun i sl h => ?_⟩, hc⟩
  -- the chunk set ready has no slot left, and marking it leaves every other chunk alone
  have hic : i ≠ c := by
    rintro rfl
    rw [setReadyAndClearPending, hc] at h
    cases h
  exact m.isReady_setReady_of_ne s.base c i hic

theorem clears_updateChunkPendingStatus (success : ι → Bool) :
    Clears m fun (s : CacheState σ ι τ) c => updateChunkPendingStatus m s c (success c) := by
  intro s c
  dsimp only [updateChunkPendingStatus]
  split
  · exact clears_setReadyAndClearPending m s c
  · exact clears_clearPending m s c

/-- Chunk `i` holds no slot that `s₀` did not hold, unless it has a persist task. -/
def Settled (s₀ s : CacheState σ ι τ) (i : ι) : Prop :=
  ∀ sl, s.tracer i = some sl → s₀.tracer i = some sl ∨ i ∈ s.tasks

omit [DecidableEq ι] in
theorem Frame.settled {s₀ s s' : CacheState σ ι τ} (hf : Frame m s s') {i : ι}
    (h : Settled s₀ s i) : Settled s₀ s' i :=
  fun sl hsl => (h sl (hf.tracer i sl hsl)).imp id (hf.tasks i)

/-- Every slot that `s` holds and `s₀` did not is of a chunk that is not ready. -/
def NewNotReady (s₀ s : CacheState σ ι τ) : Prop :=
  ∀ i sl, s.tracer i = some sl → s₀.tracer i ≠ some sl → m.isReady s.base i = some false

omit [DecidableEq ι] in
theorem Frame.newNotReady {s₀ s s' : CacheState σ ι τ} (hf : Frame m s s')
    (h : NewNotReady m s₀ s) : NewNotReady m s₀ s' :=
  fun i sl hsl hnew => (hf.ready i sl hsl).trans (h i sl (hf.tracer i sl hsl) hnew)

omit [DecidableEq ι] in
theorem Settled.trans {s₀ s s' : CacheState σ ι τ} {i : ι} (h₁ : Settled s₀ s i)
    (h₂ : Settled s s' i) (htasks : ∀ c ∈ s.tasks, c ∈ s'.tasks) : Settled s₀ s' i :=
  fun sl h => (h₂ sl h).elim (fun h => (h₁ sl h).imp id (htasks i)) .inr

/-- The chunk holds no slot, or has a persist task. -/
def Done (s : CacheState σ ι τ) (c : ι) : Prop := s.tracer c = none ∨ c ∈ s.tasks

omit [DecidableEq ι] in
theorem Frame.done {s s' : CacheState σ ι τ} (hf : Frame m s s') {c : ι} (h : Done s c) :
    Done s' c :=
  h.imp (hf.tracer_none m) (hf.tasks c)

omit [DecidableEq ι] in
theorem settled_of_done {s₀ s s' : CacheState σ ι τ} (hnew : NewNotReady m s₀ s)
    (hf : Frame m s s') {c : ι} (hdone : m.isReady s.base c ≠ some true → Done s' c) :
    Settled s₀ s' c := by
  intro sl hsl
  by_cases hold : s₀.tracer c = some sl
  · exact .inl hold
  have hready := hnew c sl (hf.tracer c sl hsl) hold
  rcases hdone (by rw [hready]; simp) with hnone | htask
  · rw [hnone] at hsl
    cases hsl
  · exact .inr htask

end Frame

/-! ## Marking -/

section Marks

variable (m : ChunkMap σ ι) (t : τ)

/-- A step of the classification: it leaves the base map and the tasks alone, and adds slots
only for chunks of `cs` that are not ready. -/
structure Marks (s s' : CacheState σ ι τ) (cs : List ι) : Prop where
  base : s'.base = s.base
  tasks : s'.tasks = s.tasks
  tracer : ∀ i sl, s'.tracer i = some sl →
    s.tracer i = some sl ∨ i ∈ cs ∧ m.isReady s.base i = some false

omit [DecidableEq ι] in
theorem Marks.refl (s : CacheState σ ι τ) (cs : List ι) : Marks m s s cs :=
  ⟨rfl, rfl, fun _ _ h => .inl h⟩

omit [DecidableEq ι] in
theorem Marks.trans {s₁ s₂ s₃ : CacheState σ ι τ} {cs : List ι} (h₁ : Marks m s₁ s₂ cs)
    (h₂ : Marks m s₂ s₃ cs) : Marks m s₁ s₃ cs := by
  refine ⟨h₂.base.trans h₁.base, h₂.tasks.trans h₁.tasks, fun i sl h => ?_⟩
  rcases h₂.tracer i sl h with h | ⟨hi, hr⟩
  · exact h₁.tracer i sl h
  · rw [h₁.base] at hr
    exact .inr ⟨hi, hr⟩

omit [DecidableEq ι] in
theorem Marks.mono {s s' : CacheState σ ι τ} {cs ds : List ι} (h : Marks m s s' cs)
    (hsub : cs ⊆ ds) : Marks m s s' ds :=
  ⟨h.base, h.tasks, fun i sl hi => (h.tracer i sl hi).imp id fun ⟨hi, hr⟩ => ⟨hsub hi, hr⟩⟩

omit [DecidableEq ι] in
theorem Marks.newNotReady {s s' : CacheState σ ι τ} {cs : List ι} (h : Marks m s s' cs) :
    NewNotReady m s s' := by
  intro i sl hi hnew
  rw [h.base]
  exact ((h.tracer i sl hi).resolve_left hnew).2

theorem marks_clearPending (s : CacheState σ ι τ) (c : ι) (cs : List ι) :
    Marks m s (clearPending s c) cs :=
  ⟨rfl, rfl, fun i sl h => .inl ((clears_clearPending m s c).1.tracer i sl h)⟩

theorem checkReadyAndMarkPending_of_not_ready {s : CacheState σ ι τ} {c : ι}
    (hc : m.isReady s.base c ≠ some true) :
    checkReadyAndMarkPending m s t c = (s, .error .cacheIndex) ∨
      checkReadyAndMarkPending m s t c = (s, .error .timeout) ∨
      checkReadyAndMarkPending m s t c = (insertSlot s t c, .ok false) ∧
        m.isReady s.base c = some false := by
  unfold checkReadyAndMarkPending
  cases hr : m.isReady s.base c with
  | none => simp
  | some b =>
    cases b with
    | true => exact absurd hr hc
    | false => cases s.tracer c <;> simp

theorem checkReadyAndMarkPending_marks (s : CacheState σ ι τ) (c : ι) :
    Marks m s (checkReadyAndMarkPending m s t c).1 [c] := by
  by_cases hc : m.isReady s.base c = some true
  · -- a ready chunk is answered at once
    simp only [checkReadyAndMarkPending, hc]
    exact Marks.refl m s [c]
  rcases checkReadyAndMarkPending_of_not_ready m t hc with h | h | ⟨h, hr⟩ <;> rw [h]
  · exact Marks.refl m s [c]
  · exact Marks.refl m s [c]
  · refine ⟨rfl, rfl, fun i sl hi => ?_⟩
    by_cases hic : i = c
    · subst hic
      exact .inr ⟨List.mem_singleton_self i, hr⟩
    · left
      simpa [insertSlot, Function.update_of_ne hic] using hi

end Marks

/-! ## Classification -/

section Classify

variable (m : ChunkMap σ ChunkInfo) (e : Entry) (t : τ)

theorem classifyChunk_marks (s : CacheState σ ChunkInfo τ) (st : FileIoMergeState) (c : ChunkInfo)
    (tag : BlobIoTag) : Marks m s (classifyChunk m e t s st c tag).1 [c] := by
  unfold classifyChunk
  dsimp only
  split_ifs
  · exact (checkReadyAndMarkPending_marks m t s c).trans m (marks_clearPending m _ c [c])
  · exact checkReadyAndMarkPending_marks m t s c

theorem classifyChunk_placed {s : CacheState σ ChunkInfo τ} {st st' : FileIoMergeState}
    {c : ChunkInfo} {tag : BlobIoTag} (h : (classifyChunk m e t s st c tag).2 = .ok st')
    (hc : m.isReady s.base c ≠ some true) :
    c ∈ st'.chunks ∨ (classifyChunk m e t s st c tag).1.tracer c = none := by
  -- the chunk counts as not ready, unless `is_ready` failed and the turn with it
  have hready : FileCacheEntry.isReadyOf (checkReadyAndMarkPending m s t c).2 = .ok false := by
    rcases checkReadyAndMarkPending_of_not_ready m t hc with hr | hr | ⟨hr, -⟩
    · simp [classifyChunk, hr, FileCacheEntry.pushChunk, FileCacheEntry.isReadyOf, bail] at h
    · rw [hr]
      rfl
    · rw [hr]
      rfl
  simp only [classifyChunk] at h ⊢
  rcases FileCacheEntry.mem_pushChunk hready h with hmem | ⟨hdirect, huser⟩
  · exact .inl hmem
  · have hdirect : e.isDirectChunkmap = false := hdirect
    right
    simp [hready, hdirect, huser, clearPending]

theorem classifyChunks_cons_of_ok {s : CacheState σ ChunkInfo τ} {st st₁ : FileIoMergeState}
    {c : ChunkInfo} {tag : BlobIoTag} (rest : List (ChunkInfo × BlobIoTag))
    (h : (classifyChunk m e t s st c tag).2 = .ok st₁) :
    classifyChunks m e t s st ((c, tag) :: rest) =
      classifyChunks m e t (classifyChunk m e t s st c tag).1 st₁ rest := by
  simp only [classifyChunks, h]

/-- **Classification loop.** The loop of `dispatch_one_range` adds slots only for the chunks of
the range that are not ready. -/
theorem classifyChunks_marks : ∀ (req : List (ChunkInfo × BlobIoTag)) (s : CacheState σ ChunkInfo τ)
    (st : FileIoMergeState), Marks m s (classifyChunks m e t s st req).1 (req.map Prod.fst)
  | [], s, _ => Marks.refl m s []
  | (c, tag) :: rest, s, st => by
    have hstep : Marks m s (classifyChunk m e t s st c tag).1 (c :: rest.map Prod.fst) :=
      (classifyChunk_marks m e t s st c tag).mono m (by simp)
    cases hc : (classifyChunk m e t s st c tag).2 with
    | error f => simpa [classifyChunks, hc] using hstep
    | ok st₁ =>
      rw [classifyChunks_cons_of_ok m e t rest hc]
      exact hstep.trans m ((classifyChunks_marks rest _ st₁).mono m (List.subset_cons_self _ _))

/-- **Classification loop, on success.** The chunks of the regions grow, no fast region gets a
chunk, and each slot the loop added is of a chunk in a region. -/
theorem classifyChunks_ok : ∀ (req : List (ChunkInfo × BlobIoTag)) (s : CacheState σ ChunkInfo τ)
    (st st' : FileIoMergeState), (classifyChunks m e t s st req).2 = .ok st' →
      st.chunks ⊆ st'.chunks ∧ (st.FastEmpty → st'.FastEmpty) ∧
        ∀ i sl, (classifyChunks m e t s st req).1.tracer i = some sl →
          s.tracer i = some sl ∨ i ∈ st'.chunks
  | [], s, st, st', h => by
    cases h
    exact ⟨fun _ h => h, id, fun _ _ h => .inl h⟩
  | (c, tag) :: rest, s, st, st', h => by
    cases hc : (classifyChunk m e t s st c tag).2 with
    | error f => simp [classifyChunks, hc] at h
    | ok st₁ =>
      rw [classifyChunks_cons_of_ok m e t rest hc] at h ⊢
      obtain ⟨hsub₁, hfast₁⟩ := FileCacheEntry.pushChunk_chunks hc
      obtain ⟨hsub, hfast, htr⟩ := classifyChunks_ok rest _ st₁ st' h
      refine ⟨List.Subset.trans hsub₁ hsub, hfast ∘ hfast₁, fun i sl hi => ?_⟩
      rcases htr i sl hi with hi | hi
      · -- a slot after the first turn: an old one, or the chunk's own, placed or cleared
        rcases (classifyChunk_marks m e t s st c tag).tracer i sl hi with hold | ⟨hic, hr⟩
        · exact .inl hold
        · obtain rfl := List.mem_singleton.mp hic
          rcases classifyChunk_placed m e t hc (by rw [hr]; simp) with hmem | hnone
          · exact .inr (hsub hmem)
          · rw [hnone] at hi
            cases hi
      · exact .inr hi

end Classify

/-! ## Dispatch -/

section Dispatch

variable (m : ChunkMap σ ChunkInfo) (e : Entry) (o : Oracle)

theorem readSingleChunk_done (s : CacheState σ ChunkInfo τ) (c : ChunkInfo) (userOffset size : Nat) :
    Frame m s (readSingleChunk m e o s c userOffset size).1 ∧
      ∀ n, (readSingleChunk m e o s c userOffset size).2 = .ok n →
        Done (readSingleChunk m e o s c userOffset size).1 c := by
  unfold readSingleChunk
  split
  · exact ⟨Frame.refl m s, fun _ h => by cases h⟩
  -- from the cache file, from the backend, or failed
  split_ifs <;> dsimp only
  · exact ⟨(clears_setReadyAndClearPending m s c).1,
      fun _ _ => .inl (clears_setReadyAndClearPending m s c).2⟩
  · exact ⟨frame_spawn m s c, fun _ _ => .inr (List.mem_append_right _ (List.mem_singleton_self c))⟩
  · exact ⟨(clears_clearPending m s c).1, fun _ h => by cases h⟩

/-- **Slow path.** `dispatch_cache_slow` adds no slot and, when it succeeds, is done with every
chunk of the region. -/
theorem dispatchCacheSlow_done (r : Region) : ∀ (cs : List ChunkInfo) (s : CacheState σ ChunkInfo τ)
    (first : Bool) (totalRead : Nat),
    Frame m s (dispatchCacheSlow m e o r s first totalRead cs).1 ∧
      ((dispatchCacheSlow m e o r s first totalRead cs).2 = .ok () →
        ∀ c ∈ cs, Done (dispatchCacheSlow m e o r s first totalRead cs).1 c)
  | [], s, _, _ => ⟨Frame.refl m s, fun _ _ h => by cases h⟩
  | c :: cs, s, first, totalRead => by
    cases hsz : slowSize r first totalRead c with
    | error f =>
      simp only [dispatchCacheSlow, hsz]
      exact ⟨Frame.refl m s, fun h => by cases h⟩
    | ok p =>
      obtain ⟨userOffset, size⟩ := p
      obtain ⟨hf, hdone⟩ := readSingleChunk_done m e o s c userOffset size
      cases hd : (readSingleChunk m e o s c userOffset size).2 with
      | error f =>
        simp only [dispatchCacheSlow, hsz, hd]
        exact ⟨hf, fun h => by cases h⟩
      | ok n =>
        simp only [dispatchCacheSlow, hsz, hd]
        obtain ⟨hf', hdone'⟩ := dispatchCacheSlow_done r cs
          (readSingleChunk m e o s c userOffset size).1 false (totalRead + n)
        refine ⟨hf.trans m hf', fun h d hd' => ?_⟩
        rcases List.mem_cons.mp hd' with rfl | hd'
        · exact hf'.done m (hdone n hd)
        · exact hdone' h d hd'

theorem delayPersist_done : ∀ (cs : List ChunkInfo) (s : CacheState σ ChunkInfo τ),
    Frame m s (delayPersist e o s cs).1 ∧
      ((delayPersist e o s cs).2 = .ok () → e.isRawData = false →
        ∀ c ∈ cs, c ∈ (delayPersist e o s cs).1.tasks)
  | [], s => ⟨Frame.refl m s, fun _ _ _ h => by cases h⟩
  | c :: cs, s => by
    by_cases hd : o.decompress c = true
    · rw [delayPersist, if_pos hd]
      -- the task is spawned out of raw-data mode only
      have hspawn : Frame m s (if e.isRawData then s else { s with tasks := s.tasks ++ [c] }) := by
        split
        · exact Frame.refl m s
        · exact frame_spawn m s c
      obtain ⟨hf, htasks⟩ :=
        delayPersist_done cs (if e.isRawData then s else { s with tasks := s.tasks ++ [c] })
      refine ⟨hspawn.trans m hf, fun h hraw d hd => ?_⟩
      rcases List.mem_cons.mp hd with rfl | hd
      · refine hf.tasks d ?_
        simp [hraw]
      · exact htasks h hraw d hd
    · rw [delayPersist, if_neg hd]
      exact ⟨Frame.refl m s, fun h => by cases h⟩

omit [DecidableEq ι] in
theorem mem_rdropWhile {p : ι → Bool} {l : List ι} {c : ι} (hc : c ∈ l) (hp : p c = false) :
    c ∈ l.rdropWhile p := by
  have hsplit : l.rdropWhile p ++ l.rtakeWhile p = l := List.rdropWhile_append_rtakeWhile
  rw [← hsplit] at hc
  rcases List.mem_append.mp hc with hc | hc
  · exact hc
  · rw [List.mem_rtakeWhile_imp hc] at hp
    cases hp

omit [DecidableEq ι] in
theorem mem_drop_zranStart {keep : ι → Bool} :
    ∀ {v : List ι} {c : ι}, c ∈ v → keep c = true → c ∈ v.drop (zranStart keep v)
  | [_], _, hc, _ => by simpa [zranStart] using hc
  | d :: d' :: rest, c, hc, hk => by
    unfold zranStart
    split_ifs with hd
    · simpa using hc
    · -- the first chunk is skipped only when it is not kept, so it is not `c`
      have hc' : c ∈ d' :: rest := (List.mem_cons.mp hc).resolve_left (by rintro rfl; exact hd hk)
      simpa using mem_drop_zranStart hc' hk

omit [DecidableEq ι] in
theorem mem_zranStrip {keepFirst keepLast : ι → Bool} {v : List ι} {c : ι} (hc : c ∈ v)
    (hfirst : keepFirst c = true) (hlast : keepLast c = true) :
    c ∈ (v.drop (zranStart keepFirst v)).take 1 ++
      ((v.drop (zranStart keepFirst v)).drop 1).rdropWhile fun c => !keepLast c := by
  have hw := mem_drop_zranStart hc hfirst
  rw [← List.take_append_drop 1 (v.drop _)] at hw
  rcases List.mem_append.mp hw with hw | hw
  · exact List.mem_append_left _ hw
  · exact List.mem_append_right _ (mem_rdropWhile hw (by simp [hlast]))

theorem stripReadyChunks_mem {bm : BlobMeta} {base : σ} {old v w : List ChunkInfo}
    (h : stripReadyChunks m e bm base old v = .ok w) {c : ChunkInfo} (hc : c ∈ v)
    (hr : m.isReady base c ≠ some true) : c ∈ w := by
  have hready : (m.isReady base c == some true) = false := by simpa using hr
  unfold stripReadyChunks at h
  dsimp only at h
  by_cases hz : e.isZran = true
  · rw [if_pos hz] at h
    split at h
    · rw [if_neg (List.ne_nil_of_mem hc)] at h
      cases h
      have hset : bm.getZranIndex c.id ∈
          (v.filter fun c => !(m.isReady base c == some true)).map fun c => bm.getZranIndex c.id :=
        List.mem_map_of_mem (f := fun c => bm.getZranIndex c.id)
          (List.mem_filter.mpr ⟨hc, by simp [hready]⟩)
      exact mem_zranStrip hc (by simp [hset]) (by simp [hset])
    · cases h
  · rw [if_neg hz] at h
    cases h
    exact mem_rdropWhile hc hready

theorem extendPendingChunks_mem {base : σ} {cs v : List ChunkInfo}
    (h : extendPendingChunks m e base cs = .ok (some v)) {c : ChunkInfo} (hc : c ∈ cs)
    (hr : m.isReady base c ≠ some true) : c ∈ v := by
  unfold extendPendingChunks at h
  dsimp only at h
  rw [if_neg (List.ne_nil_of_mem hc)] at h
  obtain ⟨info, -, h⟩ := bind_eq_ok.mp h
  cases info with
  | none => cases h
  | some bm =>
    -- the blob meta adds chunks to the region's, and the strip keeps those not ready
    obtain ⟨more, hmore, h⟩ := bind_eq_ok.mp h
    obtain ⟨w, hw, hwv⟩ := fmap_eq_ok.mp h
    cases hwv
    exact stripReadyChunks_mem m e hw (bm.mem_addMoreChunks _ _ _ hmore c hc) hr

theorem regionWith_chunks {r r' : Region} {chunks : List ChunkInfo} (h : regionWith e r chunks = .ok r') :
    r'.chunks = chunks := by
  unfold regionWith at h
  split at h
  · obtain ⟨bm, -, h⟩ := bind_eq_ok.mp h
    obtain ⟨range, -, rfl⟩ := fmap_eq_ok.mp h
    rfl
  · cases h

/-- The region `dispatch_backend` reads holds every chunk of the region it was given that is not
ready. -/
theorem backendRegion_mem {base : σ} {r region : Region}
    (h : backendRegion m e base r = .ok region) {c : ChunkInfo} (hc : c ∈ r.chunks)
    (hr : m.isReady base c ≠ some true) : c ∈ region.chunks := by
  obtain ⟨ext, hext, h⟩ := bind_eq_ok.mp h
  -- the ZRan range leaves the chunks as they are
  have hchunks : region.chunks = ext.chunks := by
    split at h
    · obtain ⟨range, -, rfl⟩ := fmap_eq_ok.mp h
      rfl
    · cases h
      rfl
  rw [hchunks]
  unfold extendedRegion at hext
  obtain ⟨more, hmore, hext⟩ := bind_eq_ok.mp hext
  cases more with
  | none =>
    cases hext
    exact hc
  | some v =>
    dsimp only at hext
    split_ifs at hext
    · obtain ⟨hold, hhold, hext⟩ := bind_eq_ok.mp hext
      cases hext
      rw [regionWith_chunks e hhold]
      exact extendPendingChunks_mem m e hmore hc hr
    · cases hext
      exact hc

theorem persistRaw_done (s : CacheState σ ChunkInfo τ) (region : Region) :
    Frame m s (persistRaw m e o s region) ∧
      (e.isRawData = true → ∀ c ∈ region.chunks, (persistRaw m e o s region).tracer c = none) := by
  unfold persistRaw
  split
  · obtain ⟨hf, hclear⟩ := foldl_clears m
      (clears_updateChunkPendingStatus m fun _ => o.persistRegion region) region.chunks s
    exact ⟨hf, fun _ => hclear⟩
  · rename_i hraw
    exact ⟨Frame.refl m s, fun h => absurd h hraw⟩

theorem persistAndCopy_done (s : CacheState σ ChunkInfo τ) (region : Region) :
    Frame m s (persistAndCopy m e o s region).1 ∧
      ((persistAndCopy m e o s region).2 = .ok () →
        ∀ c ∈ region.chunks, Done (persistAndCopy m e o s region).1 c) := by
  obtain ⟨hf₁, hclear⟩ := persistRaw_done m e o s region
  obtain ⟨hf₂, htasks⟩ := delayPersist_done m e o region.chunks (persistRaw m e o s region)
  unfold persistAndCopy
  dsimp only
  by_cases hp : (e.isRawData && !o.persistRegion region) = true
  · rw [if_pos hp]
    exact ⟨hf₁, fun h => by cases h⟩
  rw [if_neg hp]
  refine ⟨hf₁.trans m hf₂, fun h c hc => ?_⟩
  obtain ⟨u, hd, -⟩ := bind_eq_ok.mp h
  cases hraw : e.isRawData
  · exact .inr (htasks hd hraw c hc)
  · exact hf₂.done m (.inl (hclear hraw c hc))

/-- **Backend path.** `dispatch_backend` adds no slot and, when it succeeds, is done with every
chunk of the region that is not ready. -/
theorem dispatchBackend_done (s : CacheState σ ChunkInfo τ) (r : Region) :
    Frame m s (dispatchBackend m e o s r).1 ∧
      ((dispatchBackend m e o s r).2 = .ok () →
        ∀ c ∈ r.chunks, m.isReady s.base c ≠ some true → Done (dispatchBackend m e o s r).1 c) := by
  unfold dispatchBackend
  split_ifs with hnil huser
  · exact ⟨Frame.refl m s, fun _ c hc => by simp [hnil] at hc⟩
  · -- a region without user IO is only cleared
    obtain ⟨hf, hclear⟩ := foldl_clears m (clears_clearPending m) r.chunks s
    exact ⟨hf, fun _ c hc _ => .inl (hclear c hc)⟩
  split
  · exact ⟨Frame.refl m s, fun h => by cases h⟩
  rename_i region hreg
  obtain ⟨u, -, hreg⟩ := bind_eq_ok.mp hreg
  split_ifs
  · obtain ⟨hf, -⟩ := foldl_clears m (clears_clearPending m) region.chunks s
    exact ⟨hf, fun h => by cases h⟩
  · obtain ⟨hf, hdone⟩ := persistAndCopy_done m e o s region
    exact ⟨hf, fun h c hc hr => hdone h c (backendRegion_mem m e hreg hc hr)⟩

theorem dispatchRegion_done (s : CacheState σ ChunkInfo τ) (r : Region)
    (hfast : r.type = .cacheFast → r.chunks = []) :
    Frame m s (dispatchRegion m e o s r).1 ∧
      ((dispatchRegion m e o s r).2 = .ok () →
        ∀ c ∈ r.chunks, m.isReady s.base c ≠ some true → Done (dispatchRegion m e o s r).1 c) := by
  unfold dispatchRegion
  cases htype : r.type with
  | cacheFast => exact ⟨Frame.refl m s, fun _ c hc => by simp [hfast htype] at hc⟩
  | cacheSlow =>
    obtain ⟨hf, hdone⟩ := dispatchCacheSlow_done m e o r r.chunks s true 0
    exact ⟨hf, fun h c hc _ => hdone h c hc⟩
  | backend => exact dispatchBackend_done m e o s r

/-- **Dispatch loop.** The regions of a range, dispatched in order, add no slot; when they all
succeed, each of their chunks holding a slot added since `s₀` has a persist task. -/
theorem dispatchRegions_settles (s₀ : CacheState σ ChunkInfo τ) :
    ∀ (rs : List Region) (s : CacheState σ ChunkInfo τ), NewNotReady m s₀ s →
      (∀ r ∈ rs, r.type = .cacheFast → r.chunks = []) →
      Frame m s (dispatchRegions m e o s rs).1 ∧
        ((dispatchRegions m e o s rs).2 = .ok () →
          ∀ c ∈ rs.flatMap Region.chunks, Settled s₀ (dispatchRegions m e o s rs).1 c)
  | [], s, _, _ => ⟨Frame.refl m s, fun _ c hc => by simp at hc⟩
  | r :: rs, s, hnew, hfast => by
    obtain ⟨hf, hdone⟩ := dispatchRegion_done m e o s r (hfast r List.mem_cons_self)
    cases hd : (dispatchRegion m e o s r).2 with
    | error f =>
      simp only [dispatchRegions, hd]
      exact ⟨hf, fun h => by cases h⟩
    | ok u =>
      simp only [dispatchRegions, hd]
      obtain ⟨hf', hset⟩ := dispatchRegions_settles s₀ rs _ (hf.newNotReady m hnew)
        fun r' hr' => hfast r' (List.mem_cons_of_mem r hr')
      refine ⟨hf.trans m hf', fun h c hc => ?_⟩
      rw [List.flatMap_cons] at hc
      rcases List.mem_append.mp hc with hc | hc
      · exact hf'.settled m (settled_of_done m hnew hf (hdone hd c hc))
      · exact hset h c hc

end Dispatch

/-! ## `read_iter` -/

section ReadIter

variable (m : ChunkMap σ ChunkInfo) (e : Entry) (o : Oracle) (t : τ)

/-- **A range.** `dispatch_one_range` keeps the spawned tasks and settles each slot it adds when
it succeeds; when it fails, every slot outside the range is still settled. -/
theorem dispatchOneRange_settles (s : CacheState σ ChunkInfo τ) (req : BlobIoRange) :
    (∀ c ∈ s.tasks, c ∈ (dispatchOneRange m e o t s req).1.tasks) ∧
      ∀ i, (i ∉ req.chunks ∨ (dispatchOneRange m e o t s req).2 = .ok ()) →
        Settled s (dispatchOneRange m e o t s req).1 i := by
  -- the classified pairs are those of `req.chunks.iter().zip(req.tags.iter())`
  have hzip : ∀ c ∈ (req.chunks.zip req.tags).map Prod.fst, c ∈ req.chunks := by
    intro c hc
    obtain ⟨⟨c, tag⟩, hmem, rfl⟩ := List.mem_map.mp hc
    exact (List.of_mem_zip hmem).1
  have hm := (classifyChunks_marks m e t (req.chunks.zip req.tags) s FileIoMergeState.new).mono
    m hzip
  cases hc : (classifyChunks m e t s FileIoMergeState.new (req.chunks.zip req.tags)).2 with
  | error f =>
    simp only [dispatchOneRange, hc]
    refine ⟨fun c h => by rw [hm.tasks]; exact h, fun i hi sl hsl => ?_⟩
    rcases hm.tracer i sl hsl with hold | ⟨hreq, -⟩
    · exact .inl hold
    · rcases hi with hi | hi
      · exact absurd hreq hi
      · cases hi
  | ok st =>
    simp only [dispatchOneRange, hc]
    obtain ⟨-, hfast, hplaced⟩ :=
      classifyChunks_ok m e t (req.chunks.zip req.tags) s FileIoMergeState.new st hc
    obtain ⟨hf, hset⟩ := dispatchRegions_settles m e o s st.regions _ (hm.newNotReady m)
      (hfast fun _ h => by cases h)
    refine ⟨fun c h => hf.tasks c (by rw [hm.tasks]; exact h), fun i hi sl hsl => ?_⟩
    -- a slot added by the call is of a chunk of the range, placed in one of its regions
    rcases hm.tracer i sl (hf.tracer i sl hsl) with hold | ⟨hreq, -⟩
    · exact .inl hold
    have hok := hi.resolve_left (not_not_intro hreq)
    rcases hplaced i sl (hf.tracer i sl hsl) with hold | hmem
    · exact .inl hold
    · exact hset hok i hmem sl hsl

theorem clearRanges_clears (s : CacheState σ ChunkInfo τ) (reqs : List BlobIoRange) :
    Frame m s (clearRanges m s reqs) ∧
      ∀ req ∈ reqs, ∀ c ∈ req.chunks, (clearRanges m s reqs).tracer c = none := by
  -- the nested loops are one loop over the chunks of all the ranges
  have heq : clearRanges m s reqs =
      (reqs.map BlobIoRange.chunks).flatten.foldl
        (fun s c => updateChunkPendingStatus m s c false) s := by
    simp only [clearRanges, List.foldl_flatten, List.foldl_map]
  obtain ⟨hf, hclear⟩ := foldl_clears m (clears_updateChunkPendingStatus m fun _ => false)
    (reqs.map BlobIoRange.chunks).flatten s
  rw [heq]
  exact ⟨hf, fun req hreq c hc =>
    hclear c (List.mem_flatten.mpr ⟨req.chunks, List.mem_map_of_mem hreq, hc⟩)⟩

/-- **Run lemma.** A call of `read_iter` that does not panic keeps the spawned tasks and settles
each slot it adds: the slot is cleared, or its chunk has a persist task. -/
theorem readIter_settles : ∀ (reqs : List BlobIoRange) (s : CacheState σ ChunkInfo τ),
    NoPanic (readIter m e o t s reqs).2 →
      (∀ c ∈ s.tasks, c ∈ (readIter m e o t s reqs).1.tasks) ∧
        ∀ i, Settled s (readIter m e o t s reqs).1 i
  | [], s, _ => ⟨fun _ h => h, fun _ _ h => .inl h⟩
  | req :: reqs, s, hnp => by
    obtain ⟨htasks, hset⟩ := dispatchOneRange_settles m e o t s req
    cases hd : (dispatchOneRange m e o t s req).2 with
    | ok u =>
      simp only [readIter, hd] at hnp ⊢
      obtain ⟨htasks', hset'⟩ := readIter_settles reqs _ hnp
      exact ⟨fun c h => htasks' c (htasks c h),
        fun i => (hset i (.inr hd)).trans (hset' i) htasks'⟩
    | error f =>
      cases f with
      | err msg =>
        simp only [readIter, hd]
        -- the handler clears every chunk of the failed range and of the ranges after it
        obtain ⟨hf, hclear⟩ :=
          clearRanges_clears m (dispatchOneRange m e o t s req).1 (req :: reqs)
        refine ⟨fun c h => hf.tasks c (htasks c h), fun i sl hsl => ?_⟩
        by_cases hi : i ∈ req.chunks
        · rw [hclear req List.mem_cons_self i hi] at hsl
          cases hsl
        · exact hf.settled m (hset i (.inl hi)) sl hsl
      | panic msg =>
        simp only [readIter, hd] at hnp
        exact absurd rfl (hnp msg)

theorem runTasks_tracer {s : CacheState σ ChunkInfo τ} {i : ChunkInfo} {sl : Nat}
    (h : (runTasks m o s).tracer i = some sl) : s.tracer i = some sl ∧ i ∉ s.tasks := by
  obtain ⟨hframe, hclear⟩ :=
    foldl_clears m (clears_updateChunkPendingStatus (τ := τ) m o.persist) s.tasks
      { s with tasks := [] }
  refine ⟨hframe.tracer i sl h, fun hi => ?_⟩
  rw [runTasks, hclear i hi] at h
  cases h

/-- **Every slot `read_iter` adds is settled.** In every configuration, whatever the cache file,
the backend, the blob meta and decompression answer, once a call that does not panic and the
persist tasks it spawned have run, the tracer holds only slots it held before the call. -/
theorem readIter_settles_own_slots (s : CacheState σ ChunkInfo τ) (reqs : List BlobIoRange)
    (hnp : NoPanic (readIter m e o t s reqs).2) (i : ChunkInfo) (sl : Nat)
    (h : (runTasks m o (readIter m e o t s reqs).1).tracer i = some sl) :
    s.tracer i = some sl := by
  obtain ⟨h, hnot⟩ := runTasks_tracer m o h
  rcases (readIter_settles m e o t reqs s hnp).2 i sl h with h | h
  · exact h
  · exact absurd h hnot

end ReadIter

/-! ## Two readers of a digested chunk map -/

/-- Chunk `n` of a blob of 4 KiB chunks, stored as they are. -/
def pageChunk (n : Nat) : ChunkInfo := ⟨n, 0, n * 4096, 4096, n * 4096, 4096⟩

/-- A cache over a digested chunk map, as `FileCacheManager` sets one up: not a direct chunk
map, so with data validation; plaintext and without blob meta. -/
def digestedEntry : Entry where
  isRawData := false
  isCacheEncrypted := false
  needValidation := true
  isDirectChunkmap := false
  isZran := false
  isBatch := false
  batchSize := 0
  blobMeta := none

/-- An environment where the reads of the cache file answer `fileCache`, those of the backend
`backend`, and everything else succeeds. -/
def answers (fileCache backend : Bool) : Oracle where
  readCache _ := fileCache
  readFileCache _ := fileCache
  readChunkFromBackend _ := backend
  readBackend _ := backend
  decompress _ := true
  copy _ := true
  copyChunk _ _ size := some size
  persistRegion _ := true
  persist _ := true
  copyChunk_le _ _ size _ h := (Option.some.inj h) ▸ le_refl size

/-- Thread 2 holds chunk 5. Thread 1 reads chunks 0 and 1 from the cache file: the slot of
chunk 5 is the only one left. -/
theorem readIter_settles_own_slots_two_chunks :
    NoPanic (readIter (digestedChunkMap ChunkInfo) digestedEntry (answers true true) 1
        (checkReadyAndMarkPending (digestedChunkMap ChunkInfo) (CacheState.init []) 2
          (pageChunk 5)).1
        [⟨0, 8192, [pageChunk 0, pageChunk 1], [.user 0 4096, .user 0 4096]⟩]).2 ∧
      ∀ i sl, (runTasks (digestedChunkMap ChunkInfo) (answers true true)
          (readIter (digestedChunkMap ChunkInfo) digestedEntry (answers true true) 1
            (checkReadyAndMarkPending (digestedChunkMap ChunkInfo) (CacheState.init []) 2
              (pageChunk 5)).1
            [⟨0, 8192, [pageChunk 0, pageChunk 1], [.user 0 4096, .user 0 4096]⟩]).1).tracer i =
            some sl →
        (checkReadyAndMarkPending (digestedChunkMap ChunkInfo) (CacheState.init []) 2
          (pageChunk 5)).1.tracer i = some sl := by
  have hnp : NoPanic (readIter (digestedChunkMap ChunkInfo) digestedEntry (answers true true) 1
      (checkReadyAndMarkPending (digestedChunkMap ChunkInfo) (CacheState.init []) 2
        (pageChunk 5)).1
      [⟨0, 8192, [pageChunk 0, pageChunk 1], [.user 0 4096, .user 0 4096]⟩]).2 := by
    rw [show (readIter (digestedChunkMap ChunkInfo) digestedEntry (answers true true) 1
        (checkReadyAndMarkPending (digestedChunkMap ChunkInfo) (CacheState.init []) 2
          (pageChunk 5)).1
        [⟨0, 8192, [pageChunk 0, pageChunk 1], [.user 0 4096, .user 0 4096]⟩]).2 = .ok () from rfl]
    exact noPanic_ok ()
  exact ⟨hnp, readIter_settles_own_slots (digestedChunkMap ChunkInfo) digestedEntry
    (answers true true) 1 _ _ hnp⟩

/-- Thread 2 holds chunk 1 of a digested map. Thread 1 reads the ranges `[0]` and `[1]`, and
both the cache file and the backend fail on chunk 0. The error handler of `read_iter` then clears
the slot of chunk 1, which thread 1 never marked. Thread 3 next finds chunk 1 neither ready nor
pending and marks it, while thread 2 still fetches it. -/
theorem readIter_clears_slot_of_other_reader :
    ∃ (s₀ s₁ : CacheState (List ChunkInfo) ChunkInfo Nat) (f : Fault),
      checkReadyAndMarkPending (digestedChunkMap ChunkInfo) (CacheState.init []) 2 (pageChunk 1) =
          (s₀, .ok false) ∧
        s₀.tracer (pageChunk 1) = some 0 ∧ s₀.creator 0 = some 2 ∧
        readIter (digestedChunkMap ChunkInfo) digestedEntry (answers false false) 1 s₀
            [⟨0, 4096, [pageChunk 0], [.user 0 4096]⟩,
              ⟨4096, 4096, [pageChunk 1], [.user 0 4096]⟩] = (s₁, .error f) ∧
        s₁.tracer (pageChunk 1) = none ∧
        (checkReadyAndMarkPending (digestedChunkMap ChunkInfo) s₁ 3 (pageChunk 1)).2 = .ok false :=
  ⟨_, _, _, rfl, rfl, rfl, rfl, rfl, rfl⟩

end Nydus.Storage.CachedFile
