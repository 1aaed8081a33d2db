import Mathlib
import Nydus.Lib.Outcome
import Nydus.Storage.ChunkArray
import Nydus.Storage.ChunkExtend

/-!
# Opening the compression context of a blob (`BlobCompressionContextInfo::new`)

The compression context of a data blob is cached in a file `<blob>.blob.meta`: the chunk
information table from offset 0, a 4 KiB header after it, at the table's size rounded up to
4 KiB, and, for ZRan and batch blobs, a table of ZRan or batch contexts that the header places.
`new` maps the file, checks its length and the header against the `BlobInfo` of the bootstrap
(`validate_header`), and takes the tables as arrays over the mapping.

The file is untrusted: it may have been downloaded from the backend. It is modelled as a
mapping, a length and a byte function, and the header and the tables are read from it
little-endian at the offsets of their layouts. `new` is modelled with the cache file in place,
no backend reader and no chunk digests.

The results: an opened context has one chunk entry per chunk of the blob
(`new_chunkInfoArray_len`); `get_compressed_info` of a chunk of the blob fails only by
the `unwrap` of a batch context whose index is past the batch table (`getCompressedInfo_cases`),
and `new` checks no batch index, so an opened context can panic there
(`getCompressedInfo_batch_index_unchecked`).
-/

namespace Nydus.Storage.Meta

open Nydus.Lib
open Nydus.Lib.Outcome (bail)
open BlobMetaChunkInfo

/-! ## Constants -/

def blobCctMagic : Nat := 0xb10bb10b
def blobCctHeaderSize : Nat := 0x1000
def blobCctV1MaxSize : Nat := rafsMaxChunkSize * 16
def blobCctV2MaxSize : Nat := rafsMaxChunkSize * 24

def blobFeatureChunkInfoV2 : UInt32 := 0x0000_0004
def blobFeatureBatch : UInt32 := 0x0000_0080

/-- `size_of` of the on-disk records. -/
def chunkInfoV1Size : Nat := 16
def chunkInfoV2Size : Nat := 24
def zranInflateContextSize : Nat := 40
def batchInflateContextSize : Nat := 40

/-- `round_up_4k` on a 64-bit value: the sum panics past `u64`. -/
def roundUp4k (x : Nat) : Outcome Nat :=
  if x + 0xfff ≥ 2 ^ 64 then Outcome.panic "attempt to add with overflow"
  else .ok ((x + 0xfff) / 0x1000 * 0x1000)

/-! ## The mapped file -/

/-- A file mapped by `FileMapState`: its length and its bytes. -/
structure MappedFile where
  size : Nat
  byte : Nat → UInt8

namespace MappedFile

/-- The little-endian value of the `n` bytes at `off`. -/
def readLE (m : MappedFile) (off : Nat) : Nat → Nat
  | 0 => 0
  | n + 1 => (m.byte off).toNat + 256 * m.readLE (off + 1) n

variable (m : MappedFile)

/-- `validate_range(offset, size)`: the range lies inside the mapping. Its pointer sums wrap,
but a wrapped sum falls below the start of the mapping or below the other end, and is refused
as here. -/
def validateRange (offset size : Nat) : Outcome Unit :=
  if offset + size ≤ m.size then .ok () else bail "invalid range"

/-- The V1 chunk entry at `off`. -/
def chunkV1 (off : Nat) : BlobChunkInfoV1Ondisk :=
  ⟨(m.readLE off 8).toUInt64, (m.readLE (off + 8) 8).toUInt64⟩

/-- The V2 chunk entry at `off`. -/
def chunkV2 (off : Nat) : BlobChunkInfoV2Ondisk :=
  ⟨(m.readLE off 8).toUInt64, (m.readLE (off + 8) 8).toUInt64, (m.readLE (off + 16) 8).toUInt64⟩

/-- The batch context at `off`: `compressed_offset: u64`, then `compressed_size: u32`. -/
def batchContext (off : Nat) : BatchInflateContext :=
  ⟨m.readLE off 8, m.readLE (off + 8) 4⟩

/-- The ZRan context at `off`: `out_len: u32` follows three `u64` and `in_len: u32`. -/
def zranContext (off : Nat) : ZranInflateContext :=
  ⟨m.readLE (off + 28) 4⟩

end MappedFile

/-- The `count` records of `size` bytes from `off` on, each read by `read`. -/
def readTable {β : Type} (read : Nat → β) (off size count : Nat) : List β :=
  (List.range count).map fun i => read (off + size * i)

/-! ## The header -/

/-- The fields of `BlobCompressionContextHeader` that `new` reads. -/
structure BlobCompressionContextHeader where
  sMagic : Nat
  sCiCompressor : Nat
  sCiEntries : Nat
  sCiOffset : Nat
  sCiCompressedSize : Nat
  sCiUncompressedSize : Nat
  sCiZranOffset : Nat
  sCiZranSize : Nat
  sCiZranCount : Nat
  sMagic2 : Nat
  deriving DecidableEq, Repr

/-- The header at `base`: `s_magic`, `s_features`, `s_ci_compressor` and `s_ci_entries` are
`u32`, the next five fields `u64`, `s_ci_zran_count` a `u32`, and `s_magic2` the last `u32` of
the 4 KiB. -/
def MappedFile.header (m : MappedFile) (base : Nat) : BlobCompressionContextHeader :=
  ⟨m.readLE base 4, m.readLE (base + 8) 4, m.readLE (base + 12) 4, m.readLE (base + 16) 8,
    m.readLE (base + 24) 8, m.readLE (base + 32) 8, m.readLE (base + 40) 8,
    m.readLE (base + 48) 8, m.readLE (base + 56) 4, m.readLE (base + 4092) 4⟩

/-- The fields of `BlobInfo` that `new` reads, as its accessors return them. -/
structure BlobInfo where
  blobIndex : Nat
  chunkCount : Nat
  features : UInt32
  /-- `meta_ci_compressor() as u32`. -/
  metaCiCompressor : Nat
  metaCiOffset : Nat
  metaCiCompressedSize : Nat
  metaCiUncompressedSize : Nat
  /-- `compressed_data_size()`. -/
  compressedDataSize : Nat
  uncompressedSize : Nat
  deriving DecidableEq, Repr

def BlobInfo.hasFeature (info : BlobInfo) (f : UInt32) : Bool := info.features &&& f == f

/-- The size checks of `validate_header` on the uncompressed table of `infoSize` bytes, by
the layout of the entries. -/
def checkInfoSize (info : BlobInfo) (infoSize alignedInfoSize : Nat) : Outcome Unit :=
  let chunkCount := info.chunkCount
  if info.hasFeature blobFeatureChunkInfoV2 &&
      (info.hasFeature blobFeatureZran || info.hasFeature blobFeatureBatch) then
    if infoSize < chunkCount * chunkInfoV2Size then
      bail "uncompressed size in blob meta header is invalid!"
    else .ok ()
  else if info.hasFeature blobFeatureChunkInfoV2 then
    if infoSize != chunkCount * chunkInfoV2Size || decide (alignedInfoSize > blobCctV2MaxSize) then
      bail "uncompressed size in blob meta header is invalid!"
    else .ok ()
  else if info.hasFeature blobFeatureZran || info.hasFeature blobFeatureBatch then
    bail "invalid feature flags in blob meta header!"
  else if infoSize != chunkCount * chunkInfoV1Size || decide (alignedInfoSize > blobCctV1MaxSize)
  then bail "uncompressed size in blob meta header is invalid!"
  else .ok ()

/-- The ZRan checks of `validate_header`: the ZRan data follows the chunk table inside the
uncompressed table, and holds at most one context per chunk. -/
def checkZran (info : BlobInfo) (header : BlobCompressionContextHeader) (infoSize : Nat) :
    Outcome Bool :=
  if !info.hasFeature blobFeatureZran then .ok true
  else
    let offset := header.sCiZranOffset
    if offset != info.chunkCount * chunkInfoV2Size then .ok false
    -- `offset + header.s_ci_zran_size` is a `u64` sum
    else if offset + header.sCiZranSize ≥ 2 ^ 64 then Outcome.panic "attempt to add with overflow"
    else if offset + header.sCiZranSize > infoSize then .ok false
    else if header.sCiZranCount > info.chunkCount then .ok false
    else if header.sCiZranCount * zranInflateContextSize > header.sCiZranSize then .ok false
    else .ok true

/-- `validate_header`: `false` when the header does not belong to the blob, an error when it
does but describes an impossible table. -/
def validateHeader (info : BlobInfo) (header : BlobCompressionContextHeader) : Outcome Bool :=
  if header.sMagic != blobCctMagic || header.sMagic2 != blobCctMagic
      || header.sCiEntries != info.chunkCount || header.sCiCompressor != info.metaCiCompressor
      || header.sCiOffset != info.metaCiOffset
      || header.sCiCompressedSize != info.metaCiCompressedSize
      || header.sCiUncompressedSize != info.metaCiUncompressedSize then .ok false
  else if info.chunkCount == 0 || decide (info.chunkCount > rafsMaxChunksPerBlob) then
    let countHex := hex info.chunkCount
    bail s!"chunk count {countHex} in blob meta header is invalid!"
  else do
    let alignedInfoSize ← roundUp4k header.sCiUncompressedSize
    checkInfoSize info header.sCiUncompressedSize alignedInfoSize
    checkZran info header header.sCiUncompressedSize

/-! ## Opening the context -/

/-- `BlobMetaChunkArray::len`. -/
def BlobMetaChunkArray.len : BlobMetaChunkArray → Nat
  | .v1 v => v.length
  | .v2 v => v.length

/-- `BlobMetaChunkArray::from_file_map`: the chunk table at the start of the mapping. -/
def BlobMetaChunkArray.fromFileMap (m : MappedFile) (info : BlobInfo) :
    Outcome BlobMetaChunkArray :=
  if info.hasFeature blobFeatureChunkInfoV2 then do
    m.validateRange 0 (info.chunkCount * chunkInfoV2Size)
    pure (.v2 (readTable m.chunkV2 0 chunkInfoV2Size info.chunkCount))
  else do
    m.validateRange 0 (info.chunkCount * chunkInfoV1Size)
    pure (.v1 (readTable m.chunkV1 0 chunkInfoV1Size info.chunkCount))

/-- The context tables of a batch or a ZRan blob, which the header places. A blob with both
features gets only its batch table. -/
def contextTables (m : MappedFile) (info : BlobInfo) (header : BlobCompressionContextHeader) :
    Outcome (List BatchInflateContext × List ZranInflateContext) :=
  if info.hasFeature blobFeatureBatch then do
    let inflateOffset := header.sCiZranOffset
    let inflateCount := header.sCiZranCount
    m.validateRange inflateOffset (inflateCount * batchInflateContextSize)
    pure (readTable m.batchContext inflateOffset batchInflateContextSize inflateCount, [])
  else if info.hasFeature blobFeatureZran then do
    let zranOffset := header.sCiZranOffset
    let zranCount := header.sCiZranCount
    let zranSize := zranCount * zranInflateContextSize
    m.validateRange zranOffset zranSize
    -- the dictionary table after the contexts; `validate_header` keeps the subtraction exact
    m.validateRange (zranOffset + zranSize) (header.sCiZranSize - zranSize)
    pure ([], readTable m.zranContext zranOffset zranInflateContextSize zranCount)
  else .ok ([], [])

/-- `BlobCompressionContextInfo`: the context behind its `Arc`. -/
structure BlobCompressionContextInfo where
  state : BlobCompressionContext
  deriving DecidableEq, Repr

/-- `BlobCompressionContextInfo::new(blob_path, blob_info, None, false)` on the cache file
`file`. -/
def BlobCompressionContextInfo.new (blobPath : String) (info : BlobInfo) (file : MappedFile) :
    Outcome BlobCompressionContextInfo :=
  if info.chunkCount == 0 || decide (info.chunkCount > rafsMaxChunksPerBlob) then
    bail "invalid chunk count in blob meta header"
  else do
    let metaPath := blobPath ++ ".blob.meta"
    let alignedUncompressedSize ← roundUp4k info.metaCiUncompressedSize
    if blobCctHeaderSize + alignedUncompressedSize ≥ 2 ^ 64 then
      Outcome.panic "attempt to add with overflow"
    else
      let expectedSize := blobCctHeaderSize + alignedUncompressedSize
      if file.size != expectedSize then
        let expectedHex := hex expectedSize
        let sizeHex := hex file.size
        bail s!"size of blob meta file '{metaPath}' doesn't match, expect {expectedHex}, got {sizeHex}"
      else
        let header := file.header alignedUncompressedSize
        if !(← validateHeader info header) then
          bail s!"blob meta header from file '{metaPath}' is invalid"
        else
          let chunkInfos ← BlobMetaChunkArray.fromFileMap file info
          let uncompressedSize ← roundUp4k info.uncompressedSize
          let (batchInfos, zranInfos) ← contextTables file info header
          pure ⟨⟨info.blobIndex, info.features, info.compressedDataSize, uncompressedSize,
            chunkInfos, batchInfos, zranInfos⟩⟩

/-! ## What an opened context holds -/

@[simp] theorem length_readTable {β : Type} (read : Nat → β) (off size count : Nat) :
    (readTable read off size count).length = count := by
  simp [readTable]

theorem fromFileMap_len {m : MappedFile} {info : BlobInfo} {a : BlobMetaChunkArray}
    (h : BlobMetaChunkArray.fromFileMap m info = .ok a) : a.len = info.chunkCount := by
  unfold BlobMetaChunkArray.fromFileMap at h
  split_ifs at h <;>
  · simp only [bind_eq_ok, pure_eq_ok, Except.ok.injEq] at h
    obtain ⟨-, -, rfl⟩ := h
    simp [BlobMetaChunkArray.len]

theorem new_ok {path : String} {info : BlobInfo} {file : MappedFile}
    {ci : BlobCompressionContextInfo} (h : BlobCompressionContextInfo.new path info file = .ok ci) :
    ∃ aligned, roundUp4k info.metaCiUncompressedSize = .ok aligned ∧
      file.size = blobCctHeaderSize + aligned ∧
      validateHeader info (file.header aligned) = .ok true ∧
      BlobMetaChunkArray.fromFileMap file info = .ok ci.state.chunkInfoArray ∧
      contextTables file info (file.header aligned) =
        .ok (ci.state.batchInfoArray, ci.state.zranInfoArray) := by
  unfold BlobCompressionContextInfo.new at h
  simp only [Outcome.bail, Outcome.panic, ite_error_eq_ok, bind_eq_ok] at h
  obtain ⟨-, aligned, haligned, -, hsize, valid, hvalid, hvalid', chunks, hchunks, unc, -,
    tables, htables, hci⟩ := h
  rw [pure_eq_ok, Except.ok.injEq] at hci
  subst hci
  simp only [bne_iff_ne, ne_eq, not_not] at hsize
  simp only [Bool.not_eq_true', Bool.not_eq_false] at hvalid'
  subst hvalid'
  exact ⟨aligned, haligned, hsize, hvalid, hchunks, htables⟩

/-- An opened context has one chunk entry for each chunk of the blob. -/
theorem new_chunkInfoArray_len {path : String} {info : BlobInfo} {file : MappedFile}
    {ci : BlobCompressionContextInfo} (h : BlobCompressionContextInfo.new path info file = .ok ci) :
    ci.state.chunkInfoArray.len = info.chunkCount := by
  obtain ⟨-, -, -, -, hchunks, -⟩ := new_ok h
  exact fromFileMap_len hchunks

/-! ## `get_compressed_info` on an opened context -/

section CompressedInfo

variable {β : Type} {f : {T : Type} → [BlobMetaChunkInfo T] → T → Outcome β}

theorem read_v1 {v : List BlobChunkInfoV1Ondisk} {i : Nat} {e : BlobChunkInfoV1Ondisk}
    (h : v[i]? = some e) : (BlobMetaChunkArray.v1 v).read i f = f e := by
  simp [BlobMetaChunkArray.read, Outcome.get, h]

theorem read_v2 {v : List BlobChunkInfoV2Ondisk} {i : Nat} {e : BlobChunkInfoV2Ondisk}
    (h : v[i]? = some e) : (BlobMetaChunkArray.v2 v).read i f = f e := by
  simp [BlobMetaChunkArray.read, Outcome.get, h]

/-- `get_compressed_info` of a chunk of the array: the chunk's own range, or its batch's, or,
for a batch member whose batch index is past the batch table, the panic of the `unwrap`. -/
theorem getCompressedInfo_cases (s : BlobCompressionContext) {i : Nat}
    (hi : i < s.chunkInfoArray.len) :
    (∃ r, s.getCompressedInfo i = .ok r) ∨
      (s.chunkInfoArray.read i (fun e => pure (isBatch e)) = .ok true ∧
        ∃ b, s.chunkInfoArray.read i getBatchIndex = .ok b ∧ s.batchInfoArray.length ≤ b ∧
          s.getCompressedInfo i = Outcome.panic "called `Option::unwrap()` on a `None` value") := by
  unfold BlobCompressionContext.getCompressedInfo
  cases ha : s.chunkInfoArray with
  | v1 v =>
    -- a V1 entry is never in a batch
    have hlt : i < v.length := by simpa [ha, BlobMetaChunkArray.len] using hi
    have he := List.getElem?_eq_getElem hlt
    left
    simp [read_v1 he]
  | v2 v =>
    have hlt : i < v.length := by simpa [ha, BlobMetaChunkArray.len] using hi
    have he := List.getElem?_eq_getElem hlt
    simp only [read_v2 he, pure_eq_ok, ok_bind]
    by_cases hb : isBatch v[i] = true
    · -- a batch member: its batch index is read, then looked up in the batch table
      have hgb : getBatchIndex v[i] = .ok (v[i].data >>> 32).toUInt32.toNat := by
        have hb' : BlobChunkInfoV2Ondisk.isBatch v[i] = true := hb
        show BlobChunkInfoV2Ondisk.dataHigh v[i] (BlobChunkInfoV2Ondisk.isBatch v[i]) = _
        rw [BlobChunkInfoV2Ondisk.dataHigh, if_pos hb']
      rw [if_pos hb, hgb, ok_bind]
      cases hctx : s.batchInfoArray[(v[i].data >>> 32).toUInt32.toNat]? with
      | some ctx => exact .inl ⟨_, rfl⟩
      | none => exact .inr ⟨by rw [hb], _, rfl, List.getElem?_eq_none_iff.mp hctx, rfl⟩
    · rw [if_neg hb]
      exact .inl ⟨_, rfl⟩

end CompressedInfo

/-- A file of `size` bytes holding each `(offset, width, value)` little-endian, and zero
elsewhere. -/
def MappedFile.ofFields (size : Nat) (fields : List (Nat × Nat × Nat)) : MappedFile :=
  ⟨size, fun i =>
    match fields.find? fun f => f.1 ≤ i && i < f.1 + f.2.1 with
    | some (off, _, v) => (v / 256 ^ (i - off) % 256).toUInt8
    | none => 0⟩

/-- A V2 batch blob of one chunk. -/
def batchBlob : BlobInfo :=
  ⟨0, 1, blobFeatureChunkInfoV2 ||| blobFeatureBatch, 0, 0, 24, 24, 0x1000, 0x1000⟩

/-- The cache file of `batchBlob`: its one entry, a member of batch 0, and a header that matches
the blob and places no batch context. -/
def batchBlobFile : MappedFile :=
  MappedFile.ofFields 0x2000
    [(0, 8, (batchMember 0 0).uncompInfo.toNat), (0x1000, 4, blobCctMagic), (0x100c, 4, 1),
      (0x1018, 8, 24), (0x1020, 8, 24), (0x1ffc, 4, blobCctMagic)]

/-- What `new` opens from `batchBlobFile`: the one entry, and no batch context. -/
def batchBlobContext : BlobCompressionContextInfo :=
  ⟨⟨0, blobFeatureChunkInfoV2 ||| blobFeatureBatch, 0x1000, 0x1000, .v2 [batchMember 0 0], [], []⟩⟩

/-- `new` opens the cache file of `batchBlob`: the header matches the blob, and the batch table it
places is empty. Then `get_compressed_info(0)` finds a batch member, reads its batch index 0,
and `unwrap`s the missing batch context. -/
theorem getCompressedInfo_batch_index_unchecked :
    BlobCompressionContextInfo.new "blob" batchBlob batchBlobFile = .ok batchBlobContext ∧
      batchBlobContext.state.getCompressedInfo 0 =
        Outcome.panic "called `Option::unwrap()` on a `None` value" := by
  decide

end Nydus.Storage.Meta
