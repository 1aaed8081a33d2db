import Mathlib
import Nydus.Lib.Outcome
import Nydus.Storage.IoMerge
import Nydus.Storage.CopyV

/-!
# Regions of a merged range (`FileIoMergeState`, `storage/src/cache/cachedfile.rs`)

`FileCacheEntry::read_iter` merges the descriptors of a user read into ranges
(`merge_requests_for_user`: `max_comp_size` is the on-demand batch size, `max_gap` that size
shifted right by `RAFS_BATCH_SIZE_TO_GAP_SHIFT`) and hands each range to `dispatch_one_range`.
That function walks the chunks of the range and pushes each into a `FileIoMergeState`. A chunk
that is ready in a plaintext cache without validation goes to a `CacheFast` region, read from
the cache file at the chunk's uncompressed offset. Otherwise a ready chunk, or any chunk when the
chunk map is not direct, goes to a `CacheSlow` region. A chunk that is not ready goes to a
`Backend` region, read from the blob at its compressed range (its batch's range for a batch
chunk). A chunk joins the last region when the types agree and no internal chunk has committed
that region since; on the cache paths an internal chunk only commits. `Region::append` grows the
region's address range to the chunk's end, and the region's `seg` by the chunk's user segment.

`dispatch_cache_fast` then reads `seg.len` bytes of the cache file at `blob_address +
seg.offset`. These are the user's bytes only when the region's chunks lie end to end in the
cache file. The merge joins chunks with a compressed gap of up to `max_gap` between them, and the
cache file keeps the uncompressed layout of the blob. A read of two chunks of a file with a third
chunk between them in the blob therefore returns the third chunk's bytes in place of the second's
(`readIter_fast_region_reads_skipped_chunk`).

Whatever the readiness of the chunks, the segments of the regions add up to the bytes that the
user tags of the range ask for (`collectRegions_seg_len`).

Model notes. What `check_ready_and_mark_pending` answers for each chunk is an input, and so is
the blob meta (`get_blob_meta_info` when it is `Ok(Some(meta))`, as its `get_compressed_info`
from a chunk's id to the compressed range to read, which may fail). Marking and clearing pending
chunks, and dispatching the regions, is `Nydus.Storage.CachedFile`, which builds on these
regions. A range's chunks are taken with their tags pairwise (the merge
pushes one tag with each chunk). `Region::count`, kept for tracing, is left out. Arithmetic that
overflows panics, as in a debug build; `sz as u32` truncates.
-/

namespace Nydus.Storage.Cache

open Nydus.Lib
open Nydus.Lib.Outcome (bail)

/-- `RAFS_DEFAULT_CHUNK_SIZE`. -/
def rafsDefaultChunkSize : Nat := 1024 * 1024

/-- `RAFS_BATCH_SIZE_TO_GAP_SHIFT`. -/
def rafsBatchSizeToGapShift : Nat := 7

/-- `BlobIoTag::is_user_io`. -/
def BlobIoTag.isUserIo : BlobIoTag → Bool
  | .user _ _ => true
  | .internal => false

/-- `RegionType`. -/
inductive RegionType where
  /-- Read from the cache file straight into the user's buffer. -/
  | cacheFast
  /-- Read from the cache file, to decompress or validate. -/
  | cacheSlow
  /-- Read from the storage backend. -/
  | backend
  deriving DecidableEq, Repr

/-- `RegionType::joinable`. -/
def RegionType.joinable (t other : RegionType) : Bool := decide (t = other)

/-- `RegionStatus`. -/
inductive RegionStatus where
  | init
  | «open»
  | committed
  deriving DecidableEq, Repr

/-- `BlobIoSegment`: the bytes a user request wants, as an offset and a length. -/
structure BlobIoSegment where
  offset : Nat
  len : Nat
  deriving DecidableEq, Repr

/-- `BlobIoSegment::is_empty`. -/
def BlobIoSegment.isEmpty (s : BlobIoSegment) : Bool := s.offset == 0 && s.len == 0

/-- `BlobIoSegment::append`: a later segment must start its chunk. -/
def BlobIoSegment.append (s : BlobIoSegment) (offset len : Nat) : Outcome BlobIoSegment :=
  if offset + len ≥ 2 ^ 32 then Outcome.panic "assertion failed: offset.checked_add(len).is_some()"
  else if offset ≠ 0 then Outcome.panic "assertion `left == right` failed"
  else if s.len + len ≥ 2 ^ 32 then Outcome.panic "attempt to add with overflow"
  else .ok { s with len := s.len + len }

/-- The fields of a `Region` that the read path sets and reads. -/
structure Region where
  type : RegionType
  status : RegionStatus
  chunks : List ChunkInfo
  tags : List Bool
  blobAddress : Nat
  blobLen : Nat
  seg : BlobIoSegment
  deriving DecidableEq, Repr

namespace Region

/-- `Region::new`. -/
def new (t : RegionType) : Region := ⟨t, .init, [], [], 0, 0, ⟨0, 0⟩⟩

/-- The address part of `Region::append`: the first chunk opens the region at its range, a later
one extends the region to its end. -/
def extend (r : Region) (start len : Nat) : Outcome Region :=
  match r.status with
  | .committed => Outcome.panic "assertion `left != right` failed"
  | .init => .ok { r with status := .open, blobAddress := start, blobLen := len }
  | .open =>
    let regionEnd := r.blobAddress + r.blobLen
    if regionEnd ≥ 2 ^ 64 ∨ regionEnd + rafsDefaultChunkSize ≥ 2 ^ 64 then
      Outcome.panic "attempt to add with overflow"
    else if regionEnd + rafsDefaultChunkSize < start ∨ start + len ≥ 2 ^ 64 then
      bail "address ranges are not continuous"
    else if start + len < regionEnd then Outcome.panic "attempt to subtract with overflow"
    else
      let sz := start + len - regionEnd
      if r.blobLen + sz % 2 ^ 32 ≥ 2 ^ 32 then Outcome.panic "attempt to add with overflow"
      else .ok { r with blobLen := r.blobLen + sz % 2 ^ 32 }

/-- The user part of `Region::append`: the first user segment becomes the region's, a later one is
appended to it. -/
def addSeg (r : Region) : BlobIoTag → Outcome Region
  | .user offset len =>
    if r.seg.isEmpty then .ok { r with seg := ⟨offset, len⟩ }
    else do
      let seg ← r.seg.append offset len
      pure { r with seg }
  | .internal => .ok r

/-- `Region::has_user_io`. -/
def hasUserIo (r : Region) : Bool := !r.seg.isEmpty

/-- `Region::append`. -/
def append (r : Region) (start len : Nat) (tag : BlobIoTag) (chunk : Option ChunkInfo) :
    Outcome Region := do
  let r ← r.extend start len
  let r ← r.addSeg tag
  match chunk with
  | some c => pure { r with chunks := r.chunks ++ [c], tags := r.tags ++ [tag.isUserIo] }
  | none => pure r

end Region

/-- `FileIoMergeState`. -/
structure FileIoMergeState where
  regions : List Region
  lastRegionJoinable : Bool
  deriving DecidableEq, Repr

namespace FileIoMergeState

/-- `FileIoMergeState::new`, and the state `reset` leaves. -/
def new : FileIoMergeState := ⟨[], true⟩

/-- `FileIoMergeState::joinable`, with the test `regions.is_empty()` of `push` before it. -/
def joinable (s : FileIoMergeState) (t : RegionType) : Bool :=
  match s.regions.getLast? with
  | some last => last.type.joinable t && s.lastRegionJoinable
  | none => false

/-- `FileIoMergeState::push`: the chunk goes to the last region, a new one unless the last is
joinable. -/
def push (s : FileIoMergeState) (t : RegionType) (start len : Nat) (tag : BlobIoTag)
    (chunk : Option ChunkInfo) : Outcome FileIoMergeState :=
  if s.joinable t then do
    let r ← (s.regions.getLast?.getD (Region.new t)).append start len tag chunk
    pure { s with regions := s.regions.dropLast ++ [r] }
  else do
    let r ← (Region.new t).append start len tag chunk
    pure ⟨s.regions ++ [r], true⟩

/-- `FileIoMergeState::commit`. -/
def commit (s : FileIoMergeState) : FileIoMergeState := { s with lastRegionJoinable := false }

end FileIoMergeState

/-- The fields of a `FileCacheEntry` that `dispatch_one_range` reads. -/
structure FileCacheEntry where
  isRawData : Bool
  isCacheEncrypted : Bool
  needValidation : Bool
  isDirectChunkmap : Bool
  /-- `get_compressed_info` of the blob meta, when `get_blob_meta_info` returns one. -/
  blobMeta : Option (Nat → Outcome (Nat × Nat))
  batchSize : Nat

namespace FileCacheEntry

/-- `FileCacheEntry::ondemand_batch_size`. -/
def ondemandBatchSize (e : FileCacheEntry) : Nat :=
  if e.batchSize < 0x20000 then 0x20000 else e.batchSize

/-- The compressed range a backend region reads for a chunk. -/
def compressedInfo (e : FileCacheEntry) (chunk : ChunkInfo) : Outcome (Nat × Nat) :=
  match e.blobMeta with
  | some info => info chunk.id
  | none => .ok (chunk.compressedOffset, chunk.compressedSize)

/-- The match of `dispatch_one_range` on what `check_ready_and_mark_pending` returned: a timeout
while waiting for another reader's fetch counts as not ready. -/
def isReadyOf : Except StorageError Bool → Outcome Bool
  | .ok b => .ok b
  | .error .timeout => .ok false
  -- `Err(e) => return Err(einval!(e))`: the chunk map fails only with `CacheIndex`
  | .error _ => bail "Wrong cache index"

/-- One turn of the loop of `dispatch_one_range`, for a chunk with its tag, given what
`check_ready_and_mark_pending` returned for it. -/
def pushChunk (e : FileCacheEntry) (s : FileIoMergeState) (chunk : ChunkInfo) (tag : BlobIoTag)
    (ready : Except StorageError Bool) : Outcome FileIoMergeState := do
  let isReady ← isReadyOf ready
  if isReady && !e.isRawData && !e.isCacheEncrypted && !e.needValidation then
    if tag.isUserIo then
      s.push .cacheFast chunk.uncompressedOffset chunk.uncompressedSize tag none
    else pure s.commit
  else if !e.isDirectChunkmap || isReady then
    if tag.isUserIo then
      s.push .cacheSlow chunk.uncompressedOffset chunk.uncompressedSize tag (some chunk)
    else pure s.commit
  else do
    let range ← e.compressedInfo chunk
    s.push .backend range.1 range.2 tag (some chunk)

/-- The loop of `dispatch_one_range` over the chunks of a range and their tags, from the state
that `read_iter` resets for each range. -/
def collectRegions (e : FileCacheEntry) (ready : ChunkInfo → Except StorageError Bool)
    (req : BlobIoRange) : Outcome FileIoMergeState :=
  (req.chunks.zip req.tags).foldlM (fun s ct => e.pushChunk s ct.1 ct.2 (ready ct.1))
    FileIoMergeState.new

end FileCacheEntry

/-- `FileCacheEntry::merge_requests_for_user`. -/
def mergeRequestsForUser (bios : List BlobIoDesc) (maxCompSize : Nat) :
    Outcome (Option (List BlobIoRange)) := do
  let requests ← mergeAndIssue bios maxCompSize (maxCompSize >>> rafsBatchSizeToGapShift)
  pure (if requests.isEmpty then none else some requests)

/-- What `dispatch_cache_fast` reads of the cache file: `seg.len` bytes at
`blob_address + seg.offset`. -/
def dispatchCacheFast (r : Region) : Outcome (Nat × Nat) :=
  if r.blobAddress + r.seg.offset ≥ 2 ^ 64 then Outcome.panic "attempt to add with overflow"
  else .ok (r.blobAddress + r.seg.offset, r.seg.len)

/-! ## The user's bytes -/

/-- The bytes of the cache file that the user tags of a range ask for, one (offset, length)
interval for each user chunk: its segment within the chunk's uncompressed data. -/
def userSpans (req : BlobIoRange) : List (Nat × Nat) :=
  (req.chunks.zip req.tags).filterMap fun ct =>
    match ct.2 with
    | .user offset len => some (ct.1.uncompressedOffset + offset, len)
    | .internal => none

/-- Three chunks of `0x1000` bytes stored one after the other; the middle one compresses to
`0x100` bytes. -/
def chunkX : ChunkInfo := ⟨0, 0, 0, 0x800, 0, 0x1000⟩
def chunkY : ChunkInfo := ⟨1, 0, 0x800, 0x100, 0x1000, 0x1000⟩
def chunkZ : ChunkInfo := ⟨2, 0, 0x900, 0x800, 0x2000, 0x1000⟩

/-- A user read of the whole of a chunk of a blob that is not legacy stargz. -/
def wholeChunk (c : ChunkInfo) : BlobIoDesc := ⟨c, false, 0, c.uncompressedSize, true⟩

/-- A plaintext cache over a direct chunk map, without validation, of a blob without meta, with
the default batch size. -/
def plainCache : FileCacheEntry := ⟨false, false, false, true, none, 0⟩

/-- **A fast region over a gap.** A file made of `chunkX` and `chunkZ` of a blob that holds
`chunkY` between them: the compressed gap is below `max_gap`, so the read is one range, and with
both chunks in the cache it is one `CacheFast` region. That region reads the bytes of `chunkX`
and `chunkY`, where the user asked for those of `chunkX` and `chunkZ`. -/
theorem readIter_fast_region_reads_skipped_chunk :
    ∃ req st, mergeRequestsForUser [wholeChunk chunkX, wholeChunk chunkZ]
        plainCache.ondemandBatchSize = .ok (some [req]) ∧
      plainCache.collectRegions (fun _ => .ok true) req = .ok st ∧
      st.regions.map (·.type) = [.cacheFast] ∧
      st.regions.map dispatchCacheFast =
        [.ok (chunkX.uncompressedOffset, chunkX.uncompressedSize + chunkY.uncompressedSize)] ∧
      userSpans req = [(chunkX.uncompressedOffset, chunkX.uncompressedSize),
        (chunkZ.uncompressedOffset, chunkZ.uncompressedSize)] ∧
      chunkX.uncompressedOffset + chunkX.uncompressedSize = chunkY.uncompressedOffset ∧
      chunkY.uncompressedOffset + chunkY.uncompressedSize = chunkZ.uncompressedOffset :=
  ⟨_, _, rfl, rfl, rfl, rfl, rfl, rfl, rfl⟩

/-! ## The user's byte count -/

/-- The number of bytes a tag asks for. -/
def BlobIoTag.userLen : BlobIoTag → Nat
  | .user _ len => len
  | .internal => 0

/-- The number of bytes the regions of a state hand to the user. -/
def FileIoMergeState.segLen (s : FileIoMergeState) : Nat := (s.regions.map (·.seg.len)).sum

section SegLen

variable {r r' : Region} {s s' : FileIoMergeState} {start len : Nat} {tag : BlobIoTag}
  {chunk : Option ChunkInfo}

theorem BlobIoTag.userLen_of_not_isUserIo (h : tag.isUserIo = false) : tag.userLen = 0 := by
  cases tag with
  | user => cases h
  | internal => rfl

theorem BlobIoSegment.len_append {seg seg' : BlobIoSegment} {offset : Nat}
    (h : seg.append offset len = .ok seg') : seg'.len = seg.len + len := by
  unfold BlobIoSegment.append Outcome.panic at h
  split_ifs at h
  cases h
  rfl

theorem Region.seg_extend (h : r.extend start len = .ok r') : r'.seg = r.seg := by
  unfold Region.extend Outcome.panic bail at h
  split at h
  · cases h
  · cases h
    rfl
  · dsimp only at h
    split_ifs at h
    cases h
    rfl

theorem Region.seg_len_addSeg (h : r.addSeg tag = .ok r') : r'.seg.len = r.seg.len + tag.userLen := by
  cases tag with
  | internal =>
    cases h
    rfl
  | user offset len =>
    simp only [Region.addSeg] at h
    split at h
    -- an empty segment has length 0, whatever replaces it
    · rename_i hempty
      cases h
      simp only [BlobIoSegment.isEmpty, Bool.and_eq_true, beq_iff_eq] at hempty
      simp [hempty.2, BlobIoTag.userLen]
    · rw [bind_eq_ok] at h
      obtain ⟨seg, hseg, h⟩ := h
      cases h
      exact BlobIoSegment.len_append hseg

theorem Region.seg_len_append (h : r.append start len tag chunk = .ok r') :
    r'.seg.len = r.seg.len + tag.userLen := by
  unfold Region.append at h
  rw [bind_eq_ok] at h
  obtain ⟨r₁, h₁, h⟩ := h
  rw [bind_eq_ok] at h
  obtain ⟨r₂, h₂, h⟩ := h
  have hseg : r₂.seg.len = r.seg.len + tag.userLen := by
    rw [Region.seg_len_addSeg h₂, Region.seg_extend h₁]
  cases chunk <;> cases h <;> exact hseg

theorem FileIoMergeState.segLen_push (h : s.push t start len tag chunk = .ok s') :
    s'.segLen = s.segLen + tag.userLen := by
  unfold FileIoMergeState.push at h
  split at h
  · rename_i hjoin
    obtain ⟨last, hlast⟩ : ∃ last, s.regions.getLast? = some last := by
      unfold FileIoMergeState.joinable at hjoin
      split at hjoin
      · exact ⟨_, ‹_›⟩
      · cases hjoin
    rw [hlast, Option.getD_some, bind_eq_ok] at h
    obtain ⟨r, hr, h⟩ := h
    cases h
    have hsplit : s.regions = s.regions.dropLast ++ [last] :=
      (List.dropLast_append_getLast? last hlast).symm
    unfold FileIoMergeState.segLen
    conv_rhs => rw [hsplit]
    simp only [List.map_append, List.map_singleton, List.sum_append, List.sum_singleton,
      Region.seg_len_append hr, Nat.add_assoc]
  · rw [bind_eq_ok] at h
    obtain ⟨r, hr, h⟩ := h
    cases h
    have hnew : r.seg.len = tag.userLen := by
      rw [Region.seg_len_append hr]
      simp [Region.new]
    simp [FileIoMergeState.segLen, hnew]

theorem FileIoMergeState.segLen_commit : s.commit.segLen = s.segLen := rfl

theorem FileCacheEntry.segLen_pushChunk {e : FileCacheEntry} {c : ChunkInfo}
    {ready : Except StorageError Bool} (h : e.pushChunk s c tag ready = .ok s') :
    s'.segLen = s.segLen + tag.userLen := by
  unfold FileCacheEntry.pushChunk at h
  rw [bind_eq_ok] at h
  obtain ⟨isReady, -, h⟩ := h
  -- the internal chunks of the two cache paths only commit
  have hcommit (hint : tag.isUserIo = false) : s.commit.segLen = s.segLen + tag.userLen := by
    rw [BlobIoTag.userLen_of_not_isUserIo hint, FileIoMergeState.segLen_commit, Nat.add_zero]
  split_ifs at h with _ huser _ huser'
  · exact FileIoMergeState.segLen_push h
  · cases h
    exact hcommit (Bool.eq_false_iff.mpr huser)
  · exact FileIoMergeState.segLen_push h
  · cases h
    exact hcommit (Bool.eq_false_iff.mpr huser')
  · obtain ⟨range, -, h⟩ := bind_eq_ok.mp h
    exact FileIoMergeState.segLen_push h

end SegLen

/-- **The user's byte count.** Whatever the readiness of the chunks of a range and the cache's
configuration, when `dispatch_one_range` builds its regions, their segments add up to the bytes
that the user tags of the range ask for. -/
theorem collectRegions_seg_len {e : FileCacheEntry}
    {ready : ChunkInfo → Except StorageError Bool} {req : BlobIoRange}
    {st : FileIoMergeState} (h : e.collectRegions ready req = .ok st) :
    (st.regions.map (·.seg.len)).sum = ((req.chunks.zip req.tags).map (·.2.userLen)).sum := by
  have hrun := foldlM_measure (m := FileIoMergeState.segLen) (w := fun ct => ct.2.userLen)
    (fun s ct s' _ hs => FileCacheEntry.segLen_pushChunk hs) h
  simpa [FileIoMergeState.segLen, FileIoMergeState.new] using hrun

/-- The read of `chunkX` and `chunkZ` asks for `0x2000` bytes, and its one fast region hands out
`0x2000` bytes, if not the right ones. -/
theorem collectRegions_seg_len_skipped_chunk :
    ∃ st, plainCache.collectRegions (fun _ => .ok true)
        (rangeOf (wholeChunk chunkX) [wholeChunk chunkZ]) = .ok st ∧
      (st.regions.map (·.seg.len)).sum =
        (((rangeOf (wholeChunk chunkX) [wholeChunk chunkZ]).chunks.zip
          (rangeOf (wholeChunk chunkX) [wholeChunk chunkZ]).tags).map (·.2.userLen)).sum :=
  ⟨_, rfl, @collectRegions_seg_len plainCache (fun _ => .ok true) _ _ rfl⟩

/-! ## The chunks of the regions -/

/-- The chunks of the regions of a state, in order. -/
def FileIoMergeState.chunks (s : FileIoMergeState) : List ChunkInfo := s.regions.flatMap (·.chunks)

/-- No `CacheFast` region holds a chunk: `dispatch_one_range` pushes none there. -/
def FileIoMergeState.FastEmpty (s : FileIoMergeState) : Prop :=
  ∀ r ∈ s.regions, r.type = .cacheFast → r.chunks = []

section Chunks

variable {r r' : Region} {s s' : FileIoMergeState} {t : RegionType} {start len : Nat}
  {tag : BlobIoTag} {chunk : Option ChunkInfo}

theorem Region.extend_keeps (h : r.extend start len = .ok r') :
    r'.type = r.type ∧ r'.chunks = r.chunks := by
  unfold Region.extend Outcome.panic bail at h
  split at h
  · cases h
  · cases h
    exact ⟨rfl, rfl⟩
  · dsimp only at h
    split_ifs at h
    cases h
    exact ⟨rfl, rfl⟩

theorem Region.addSeg_keeps (h : r.addSeg tag = .ok r') :
    r'.type = r.type ∧ r'.chunks = r.chunks := by
  cases tag with
  | internal =>
    cases h
    exact ⟨rfl, rfl⟩
  | user offset len =>
    simp only [Region.addSeg] at h
    split at h
    · cases h
      exact ⟨rfl, rfl⟩
    · obtain ⟨seg, -, h⟩ := bind_eq_ok.mp h
      cases h
      exact ⟨rfl, rfl⟩

theorem Region.append_chunks (h : r.append start len tag chunk = .ok r') :
    r'.type = r.type ∧ r'.chunks = r.chunks ++ chunk.toList := by
  unfold Region.append at h
  obtain ⟨r₁, h₁, h⟩ := bind_eq_ok.mp h
  obtain ⟨r₂, h₂, h⟩ := bind_eq_ok.mp h
  obtain ⟨htype₁, hchunks₁⟩ := Region.extend_keeps h₁
  obtain ⟨htype₂, hchunks₂⟩ := Region.addSeg_keeps h₂
  cases chunk <;> cases h <;> simp [htype₁, htype₂, hchunks₁, hchunks₂]

theorem fastEmpty_append {rs : List Region} {r : Region}
    (hrs : ∀ r' ∈ rs, r'.type = .cacheFast → r'.chunks = [])
    (hr : r.type = .cacheFast → r.chunks = []) :
    ∀ r' ∈ rs ++ [r], r'.type = .cacheFast → r'.chunks = [] := by
  intro r' hr' hfast
  rcases List.mem_append.mp hr' with hr' | hr'
  · exact hrs r' hr' hfast
  · rw [List.mem_singleton.mp hr'] at hfast ⊢
    exact hr hfast

theorem FileIoMergeState.push_chunks (h : s.push t start len tag chunk = .ok s') :
    s'.chunks = s.chunks ++ chunk.toList ∧
      (s.FastEmpty → (t = .cacheFast → chunk = none) → s'.FastEmpty) := by
  unfold FileIoMergeState.push at h
  split at h
  · -- the chunk joins the last region, which is of type `t`
    rename_i hjoin
    obtain ⟨last, hlast, htype⟩ : ∃ last, s.regions.getLast? = some last ∧ last.type = t := by
      unfold FileIoMergeState.joinable at hjoin
      split at hjoin
      · rename_i last hl
        have hj : last.type = t ∧ s.lastRegionJoinable = true := by
          simpa [RegionType.joinable] using hjoin
        exact ⟨last, hl, hj.1⟩
      · cases hjoin
    rw [hlast, Option.getD_some] at h
    obtain ⟨r, hr, h⟩ := bind_eq_ok.mp h
    cases h
    obtain ⟨hrtype, hrchunks⟩ := Region.append_chunks hr
    have hsplit : s.regions.dropLast ++ [last] = s.regions := List.dropLast_append_getLast? last hlast
    have hmem : last ∈ s.regions := by
      rw [← hsplit]
      exact List.mem_append_right _ List.mem_cons_self
    refine ⟨?_, fun hfast hnone =>
      fastEmpty_append (fun r' hr' => hfast r' (List.mem_of_mem_dropLast hr')) fun hfast' => ?_⟩
    · rw [FileIoMergeState.chunks, FileIoMergeState.chunks, ← hsplit]
      simp [hrchunks]
    -- a fast last region had no chunk, and gets none
    rw [hrtype, htype] at hfast'
    rw [hrchunks, hfast _ hmem (htype.trans hfast'), hnone hfast']
    rfl
  · -- a new region of type `t`
    obtain ⟨r, hr, h⟩ := bind_eq_ok.mp h
    cases h
    obtain ⟨hrtype, hrchunks⟩ := Region.append_chunks hr
    refine ⟨by simp [FileIoMergeState.chunks, hrchunks, Region.new],
      fun hfast hnone => fastEmpty_append hfast fun hfast' => ?_⟩
    rw [hrtype] at hfast'
    rw [hrchunks, hnone hfast']
    rfl

theorem FileCacheEntry.pushChunk_chunks {e : FileCacheEntry} {c : ChunkInfo}
    {ready : Except StorageError Bool} (h : e.pushChunk s c tag ready = .ok s') :
    s.chunks ⊆ s'.chunks ∧ (s.FastEmpty → s'.FastEmpty) := by
  have hpush {t : RegionType} {start len : Nat} {chunk : Option ChunkInfo}
      (h : s.push t start len tag chunk = .ok s') (hnone : t = .cacheFast → chunk = none) :
      s.chunks ⊆ s'.chunks ∧ (s.FastEmpty → s'.FastEmpty) := by
    obtain ⟨hchunks, hfast⟩ := FileIoMergeState.push_chunks h
    rw [hchunks]
    exact ⟨List.subset_append_left _ _, fun h => hfast h hnone⟩
  unfold FileCacheEntry.pushChunk at h
  obtain ⟨isReady, -, h⟩ := bind_eq_ok.mp h
  split_ifs at h
  · exact hpush h fun _ => rfl
  · cases h
    exact ⟨fun _ h => h, id⟩
  · exact hpush h nofun
  · cases h
    exact ⟨fun _ h => h, id⟩
  · obtain ⟨range, -, h⟩ := bind_eq_ok.mp h
    exact hpush h nofun

theorem FileCacheEntry.mem_pushChunk {e : FileCacheEntry} {c : ChunkInfo}
    {ready : Except StorageError Bool} (hready : isReadyOf ready = .ok false)
    (h : e.pushChunk s c tag ready = .ok s') :
    c ∈ s'.chunks ∨ e.isDirectChunkmap = false ∧ tag.isUserIo = false := by
  have hpush {t : RegionType} {start len : Nat} (h : s.push t start len tag (some c) = .ok s') :
      c ∈ s'.chunks := by
    simp [(FileIoMergeState.push_chunks h).1]
  unfold FileCacheEntry.pushChunk at h
  rw [hready, ok_bind] at h
  simp only [Bool.false_and, Bool.false_eq_true, if_false, Bool.or_false] at h
  split_ifs at h with hdirect huser
  · exact .inl (hpush h)
  · exact .inr ⟨by simpa using hdirect, by simpa using huser⟩
  · obtain ⟨range, -, h⟩ := bind_eq_ok.mp h
    exact .inl (hpush h)

end Chunks

end Nydus.Storage.Cache
