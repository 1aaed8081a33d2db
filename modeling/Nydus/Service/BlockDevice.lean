import Mathlib
import Nydus.Lib.Outcome
import Nydus.Lib.Segments
import Nydus.Lib.IntervalTree
import Nydus.Storage.ChunkArray
import Nydus.Service.BlockExport

/-!
# A RAFS v6 image as a block device (`service/src/block_device.rs`)

`BlockDevice::new_with_cache_manager` lays a RAFS v6 image out as a block device. The metadata
blob takes the blocks from 0 on. Each data blob takes the blocks from its `mapped_blkaddr` on,
as many as its uncompressed size holds. A gap before a data blob becomes a hole. The ranges are
allocated in an interval tree over the blocks `0..=u32::MAX - 1`, and the device ends where the
last range ends. `async_read(start, blocks, buf)` walks the ranges from `start` and reads each
stretch into the buffer. A hole reads as zeros, the metadata blob at the block's own offset,
and a data blob at the block's offset from the start of its range.

The block map of the image (`MetaBlobConfig.blockMap`) is this layout stated directly from the
blobs. The loop over the data blobs keeps `LayoutInv`: the ranges so far cut the blocks up to
the end of the last one, and each reads as the block map of the blobs so far
(`LayoutInv.addDataBlob`). So every range of the device reads as the map
(`newWithCacheManager_inv`). A read inside the device fills the buffer with the map's blocks, in
order (`asyncRead_eq`). A read of at least one block that passes the end returns an `Err`
(`asyncRead_error`). A data blob mapped below the end of the range before it leaves
`new_with_cache_manager` without a device (`newWithCacheManager_ne_ok`), and as it panics only
on the metadata blob's block count, with an `Err`. A read of no blocks returns `Ok(0)` wherever
it starts (`asyncRead_zero`), even past the end.

Model notes. The blob cache manager is the `MetaBlobConfig` of the device's blob id. The
look-up of that config and its two errors are left out, as is the creation of a data blob's
cache object (`new_blob_cache`); `get_blob_object` is kept. A cache file's `read_at` is taken to
fill the buffer, as the reads of `async_read` are meant to. A data blob's reads can still fail in
`fetch_range_uncompressed`. The interval tree, `dbs_allocator::IntervalTree`, is a parameter `T`
kept to the laws of `IntervalTreeApi`, at the constraints the source makes, each of which fixes
its range. Block numbers are `u32` in the source and `Nat` here, with the source's checks
against `u32::MAX`.
-/

namespace Nydus.Service

open Nydus.Lib
open Nydus.Lib.Outcome (bail)
open Nydus.Storage.Meta (hex)

def erofsBlockBits12 : Nat := 12
def erofsBlockBits9 : Nat := 9

/-! ## The blobs -/

/-- `read_at(buf, pos)` on a cache file, taken to fill the buffer: the `len` bytes at `pos`. -/
def readAt (content : Nat → UInt8) (pos len : Nat) : List UInt8 :=
  (List.range len).map fun i => content (pos + i)

/-- `MetaBlob`: the metadata blob's file, with its length. -/
structure MetaBlob where
  size : Nat
  content : Nat → UInt8

/-- `MetaBlob::new`: the file must hold whole 4 KiB blocks, at most `u32::MAX` of them. -/
def MetaBlob.new (size : Nat) (content : Nat → UInt8) : Outcome MetaBlob :=
  if size % 4096 ≠ 0 ∨ size >>> erofsBlockBits12 > 0xFFFFFFFF then
    let sizeHex := hex size
    bail s!"blob_cache: metadata blob size (0x{sizeHex}) is invalid"
  else .ok ⟨size, content⟩

/-- `MetaBlob::blocks`: the 4 KiB blocks of the file. -/
def MetaBlob.blocks (m : MetaBlob) : Nat := m.size >>> erofsBlockBits12

/-- `MetaBlob::async_read`. -/
def MetaBlob.asyncRead (m : MetaBlob) (pos len : Nat) : Outcome (List UInt8) :=
  .ok (readAt m.content pos len)

/-- What `new_with_cache_manager` reads of a data blob: its `BlobInfo`, the `mapped_blkaddr` of
its extra information (`none` without any), and its cache object. -/
structure DataBlobConfig where
  blobId : String
  mappedBlkaddr : Option Nat
  uncompressedSize : Nat
  isTarfs : Bool
  /-- `get_blob_object()` of the cache object returns an object. -/
  hasBlobObject : Bool
  /-- `fetch_range_uncompressed(pos, len)` of the blob object. -/
  fetchRangeUncompressed : Nat → Nat → Outcome Unit
  /-- The bytes of the blob's uncompressed cache file. -/
  content : Nat → UInt8

/-- `DataBlob`: a data blob's cache object and file. -/
structure DataBlob where
  blobId : String
  fetchRangeUncompressed : Nat → Nat → Outcome Unit
  content : Nat → UInt8

/-- `DataBlob::new`. -/
def DataBlob.new (config : DataBlobConfig) : Outcome DataBlob :=
  if config.hasBlobObject then
    .ok ⟨config.blobId, config.fetchRangeUncompressed, config.content⟩
  else
    let blobId := config.blobId
    bail s!"blob_cache: failed to get BlobObject for blob {blobId}"

/-- `DataBlob::async_read`: the range is fetched into the cache file, then read from it. -/
def DataBlob.asyncRead (d : DataBlob) (pos len : Nat) : Outcome (List UInt8) := do
  d.fetchRangeUncompressed pos len
  pure (readAt d.content pos len)

/-- The metadata blob's `MetaBlobConfig` in the cache manager. -/
structure MetaBlobConfig where
  blobId : String
  isTarfsMode : Bool
  /-- The length of the metadata blob's file. -/
  size : Nat
  content : Nat → UInt8
  /-- `get_blobs()`. -/
  blobs : List DataBlobConfig

/-! ## The device -/

/-- `BlockRange`. -/
inductive BlockRange where
  | hole
  | metaBlob (m : MetaBlob)
  | dataBlob (d : DataBlob)

/-- `BlockDevice`, over an interval tree `T`. -/
structure BlockDevice (T : IntervalTreeApi BlockRange) where
  blocks : Nat
  blobId : String
  ranges : T.Tree
  isTarfsMode : Bool

variable (T : IntervalTreeApi BlockRange)

/-- `BlockDevice::size_to_blocks`, which `new_with_cache_manager` computes inline for a data
blob's uncompressed size. -/
def sizeToBlocks (isTarfsMode : Bool) (sz : Nat) : Nat :=
  if isTarfsMode then sz >>> erofsBlockBits9 else sz >>> erofsBlockBits12

/-- `ranges.allocate(&constraint).ok_or_else(..)?` followed by `ranges.update(&range, r)`, the
step each of the three allocations of `new_with_cache_manager` takes. -/
def allocateRange (ranges : T.Tree) (lo hi : Nat) (r : BlockRange)
    (msg : String) : Outcome T.Tree :=
  match T.allocate ranges lo hi with
  | some (ranges, range) => pure (T.update ranges range r)
  | none => bail msg

/-- One turn of the loop of `new_with_cache_manager` over the data blobs. `pos` is the end of
the ranges laid out so far. -/
def addDataBlob (isTarfsMode : Bool) (st : T.Tree × Nat)
    (blob : DataBlobConfig) : Outcome (T.Tree × Nat) := do
  let (ranges, pos) := st
  let blobId := blob.blobId
  let mappedBlkaddr ← match blob.mappedBlkaddr with
    | some a => pure a
    | none => bail s!"block_device: can not get extra information for blob {blobId}"
  if mappedBlkaddr = 0 then
    bail s!"block_device: mapped block address for blob {blobId} is zero"
  else if isTarfsMode ≠ blob.isTarfs then
    bail s!"block_device: inconsistent `TARFS` mode from meta and data blob {blobId}"
  else do
    let ranges ← (if pos < mappedBlkaddr then
        allocateRange T ranges pos (mappedBlkaddr - 1) .hole
          "block_device: failed to allocate address range for hole between blobs"
      else pure ranges)
    let blocks := sizeToBlocks isTarfsMode blob.uncompressedSize
    if blocks > 0xFFFFFFFF ∨ blocks + mappedBlkaddr > 0xFFFFFFFF then
      let sizeHex := hex blob.uncompressedSize
      bail s!"block_device: uncompressed size 0x{sizeHex} of blob {blobId} is invalid"
    else do
      let dataBlob ← DataBlob.new blob
      let ranges ← allocateRange T ranges mappedBlkaddr (mappedBlkaddr + blocks - 1)
        (.dataBlob dataBlob) s!"block_device: can not allocate address range for blob {blobId}"
      pure (ranges, mappedBlkaddr + blocks)

/-- `BlockDevice::new_with_cache_manager`. -/
def newWithCacheManager (config : MetaBlobConfig) : Outcome (BlockDevice T) := do
  let ranges := T.new ⟨0, 0xFFFFFFFF - 1⟩
  let isTarfsMode := config.isTarfsMode
  let metaBlob ← MetaBlob.new config.size config.content
  let blocks ← (if isTarfsMode then
      if metaBlob.blocks * 8 ≤ 0xFFFFFFFF then pure (metaBlob.blocks * 8)
      else Outcome.panic "attempt to multiply with overflow"
    else pure metaBlob.blocks)
  -- `blocks - 1` on `u32`
  if blocks = 0 then Outcome.panic "attempt to subtract with overflow"
  else do
    let blobId := config.blobId
    let ranges ← allocateRange T ranges 0 (blocks - 1) (.metaBlob metaBlob)
      s!"block_device: failed to allocate address range for meta blob {blobId}"
    let (ranges, pos) ← config.blobs.foldlM (addDataBlob T isTarfsMode) (ranges, blocks)
    pure ⟨pos, config.blobId, ranges, isTarfsMode⟩

namespace BlockDevice

variable {T} (dev : BlockDevice T)

/-- The read of `count` blocks from block `start` of a range: zeros in a hole, the metadata
blob at the block's own offset, a data blob at the block's offset from the range's start. -/
def readRange (range : Range) (r : BlockRange) (start count : Nat) : Outcome (List UInt8) :=
  let sz := blocksToSize dev.isTarfsMode count
  match r with
  | .hole => .ok (List.replicate sz 0)
  | .metaBlob m => m.asyncRead (blocksToSize dev.isTarfsMode start) sz
  | .dataBlob d => d.asyncRead (blocksToSize dev.isTarfsMode (start - range.min)) sz

/-- The loop of `async_read`: `blocks` blocks from `start`, into the buffer from byte `pos`. -/
def asyncReadLoop (start blocks pos : Nat) (buf : List UInt8) : Outcome Unit × List UInt8 :=
  if blocks = 0 then (.ok (), buf)
  else
    let startHex := hex start
    let blobId := dev.blobId
    match T.getSuperset dev.ranges start with
    | some (range, .valued r) =>
      let count := min (range.max - start + 1) blocks
      let sz := blocksToSize dev.isTarfsMode count
      match dev.readRange range r start count with
      | .ok bytes => asyncReadLoop (start + count) (blocks - count) (pos + sz) (overwrite buf pos bytes)
      | .error e => (.error e, buf)
    | some _ =>
      let blocksHex := hex blocks
      (bail s!"block_device: block range 0x{startHex}/0x{blocksHex} of meta blob {blobId} is unhandled",
        buf)
    | none => (bail s!"block_device: can not locate block 0x{startHex} for meta blob {blobId}", buf)
termination_by blocks
decreasing_by omega

/-- `async_read(start, blocks, buf)`: the bytes read, with the buffer. -/
def asyncRead (start blocks : Nat) (buf : List UInt8) : Outcome Nat × List UInt8 :=
  let sz := blocksToSize dev.isTarfsMode blocks
  if start + blocks > 0xFFFFFFFF ∨ sz > buf.length then
    (bail "block_device: invalid parameters to read()", buf)
  else
    let (res, buf) := dev.asyncReadLoop start blocks 0 buf
    (res.map fun _ => sz, buf)

end BlockDevice

/-! ## The block map -/

/-- The blocks of the metadata blob: its 4 KiB blocks, eight times as many in tarfs mode. -/
def MetaBlobConfig.metaBlocks (config : MetaBlobConfig) : Nat :=
  if config.isTarfsMode then (config.size >>> erofsBlockBits12) * 8
  else config.size >>> erofsBlockBits12

/-- The data blob is mapped to block `b`: `b` lies in `[a, a + n)`, from its `mapped_blkaddr`
`a` over its `n` blocks. -/
def DataBlobConfig.Maps (isTarfsMode : Bool) (blob : DataBlobConfig) (b : Nat) : Bool :=
  blob.mappedBlkaddr.getD 0 ≤ b && b < blob.mappedBlkaddr.getD 0 +
    sizeToBlocks isTarfsMode blob.uncompressedSize

/-- Block `b` of the image with the data blobs `blobs`: a block of the metadata blob, a block of
the first data blob mapped to it, or zeros. -/
def blockMapOf (isTarfsMode : Bool) (metaBlocks : Nat) (metaContent : Nat → UInt8)
    (blobs : List DataBlobConfig) (b : Nat) : List UInt8 :=
  let u := blockSize isTarfsMode
  if b < metaBlocks then readAt metaContent (b * u) u
  else match blobs.find? (·.Maps isTarfsMode b) with
    | some blob => readAt blob.content ((b - blob.mappedBlkaddr.getD 0) * u) u
    | none => List.replicate u 0

/-- The block map of the image. -/
def MetaBlobConfig.blockMap (config : MetaBlobConfig) (b : Nat) : List UInt8 :=
  blockMapOf config.isTarfsMode config.metaBlocks config.content config.blobs b

/-- The end of the last range: that of the last data blob, or that of the metadata blob. -/
def rangeEnd (isTarfsMode : Bool) (metaBlocks : Nat) (blobs : List DataBlobConfig) : Nat :=
  match blobs.getLast? with
  | some blob => blob.mappedBlkaddr.getD 0 + sizeToBlocks isTarfsMode blob.uncompressedSize
  | none => metaBlocks

/-- Block `p` of a range, with the cache files read in full. -/
def rangeBlock (isTarfsMode : Bool) (range : Range) : BlockRange → Nat → List UInt8
  | .hole, _ => List.replicate (blockSize isTarfsMode) 0
  | .metaBlob m, p => readAt m.content (p * blockSize isTarfsMode) (blockSize isTarfsMode)
  | .dataBlob d, p =>
    readAt d.content ((p - range.min) * blockSize isTarfsMode) (blockSize isTarfsMode)

/-! ## Reading a range -/

@[simp] theorem length_readAt (content : Nat → UInt8) (pos len : Nat) :
    (readAt content pos len).length = len := by
  simp [readAt]

theorem readAt_add (content : Nat → UInt8) (pos a b : Nat) :
    readAt content pos (a + b) = readAt content pos a ++ readAt content (pos + a) b := by
  rw [readAt, List.range_add, List.map_append, List.map_map]
  congr 1
  refine List.map_congr_left fun i _ => ?_
  simp only [Function.comp, Nat.add_assoc]

theorem readAt_blocks (content : Nat → UInt8) (s u : Nat) :
    ∀ count, readAt content (s * u) (count * u) =
      (List.range count).flatMap fun i => readAt content ((s + i) * u) u
  | 0 => by simp [readAt]
  | count + 1 => by
    rw [Nat.succ_mul, readAt_add, readAt_blocks content s u count, List.range_succ,
      List.flatMap_append, List.flatMap_singleton, ← Nat.add_mul]

theorem replicate_blocks (u : Nat) :
    ∀ count, List.replicate (count * u) (0 : UInt8) =
      (List.range count).flatMap fun _ => List.replicate u 0
  | 0 => by simp
  | count + 1 => by
    rw [Nat.succ_mul, List.replicate_add, replicate_blocks u count, List.range_succ,
      List.flatMap_append, List.flatMap_singleton]

/-- The reads of a range all return their bytes: a data blob's fetches succeed. -/
def ReadsInFull (r : BlockRange) : Prop :=
  ∀ d, r = .dataBlob d → ∀ pos len, d.fetchRangeUncompressed pos len = .ok ()

namespace BlockDevice

variable {T} (dev : BlockDevice T)

theorem readRange_eq {range : Range} {r : BlockRange} (hfull : ReadsInFull r) {start : Nat}
    (hmin : range.min ≤ start) (count : Nat) :
    dev.readRange range r start count =
      .ok ((List.range count).flatMap fun i => rangeBlock dev.isTarfsMode range r (start + i)) := by
  cases r with
  | hole =>
    simp only [readRange, rangeBlock, blocksToSize_eq, replicate_blocks]
  | metaBlob m =>
    simp only [readRange, rangeBlock, blocksToSize_eq, MetaBlob.asyncRead, readAt_blocks]
  | dataBlob d =>
    simp only [readRange, rangeBlock, blocksToSize_eq, DataBlob.asyncRead,
      hfull d rfl, ok_bind, readAt_blocks]
    congr 1
    refine List.flatMap_congr fun i _ => ?_
    rw [Nat.sub_add_comm hmin]

theorem length_of_readRange {range : Range} {r : BlockRange} {start count : Nat}
    {bytes : List UInt8} (h : dev.readRange range r start count = .ok bytes) :
    bytes.length = blocksToSize dev.isTarfsMode count := by
  cases r with
  | hole =>
    cases h
    simp
  | metaBlob m =>
    cases h
    simp
  | dataBlob d =>
    simp only [readRange, DataBlob.asyncRead, bind_eq_ok] at h
    obtain ⟨_, -, h⟩ := h
    cases h
    simp

/-- The device's ranges cut `[0, blocks)`, and each holds a value that reads as `D`. -/
structure ReadsAs (D : Nat → List UInt8) : Prop where
  tiles : Covers (T.nodes dev.ranges) 0 dev.blocks
  nodes : ∀ n ∈ T.nodes dev.ranges, ∃ r, n.2 = some r ∧
    ∀ p, n.1.Contains p → rangeBlock dev.isTarfsMode n.1 r p = D p

/-- The reads of every range of the device return their bytes. -/
def InFull : Prop := ∀ n ∈ T.nodes dev.ranges, ∀ r, n.2 = some r → ReadsInFull r

/-- **The read loop.** Inside the device, the loop writes the blocks of `D` one after another
into the buffer; by induction on the blocks left, one range at a time. -/
theorem asyncReadLoop_eq {D : Nat → List UInt8} (h : dev.ReadsAs D) (hfull : dev.InFull) :
    ∀ blocks start pos buf, start + blocks ≤ dev.blocks →
      pos + blocksToSize dev.isTarfsMode blocks ≤ buf.length →
      dev.asyncReadLoop start blocks pos buf =
        (.ok (), overwrite buf pos ((List.range blocks).flatMap fun i => D (start + i))) := by
  intro blocks
  induction blocks using Nat.strong_induction_on with
  | _ blocks ih =>
  intro start pos buf hend hbuf
  rw [asyncReadLoop]
  by_cases h0 : blocks = 0
  · subst h0
    simp
  rw [if_neg h0]
  -- the range holding `start`, and the stretch of it the loop reads
  obtain ⟨n, hn, hstart⟩ := h.tiles.exists_contains start (Nat.zero_le start) (by omega)
  obtain ⟨r, hr, hD⟩ := h.nodes n hn
  have hsup : T.getSuperset dev.ranges start = some (n.1, .valued r) := by
    rw [T.getSuperset_of_mem _ _ _ hn hstart, hr]
    rfl
  have hnmax := (h.tiles.bounds n hn).2.2
  have hmin : n.1.min ≤ start := hstart.1
  have hmax : start ≤ n.1.max := hstart.2
  set count := min (n.1.max - start + 1) blocks with hcount
  have hcount_le : count ≤ n.1.max - start + 1 := min_le_left _ _
  have hcount_blocks : count ≤ blocks := min_le_right _ _
  have hpos : 0 < count := by omega
  have hread : dev.readRange n.1 r start count =
      .ok ((List.range count).flatMap fun i => D (start + i)) := by
    rw [dev.readRange_eq (hfull n hn r hr) hmin count]
    congr 1
    refine List.flatMap_congr fun i hi => hD _ ⟨by omega, ?_⟩
    have := List.mem_range.mp hi
    omega
  have hlen : ((List.range count).flatMap fun i => D (start + i)).length =
      blocksToSize dev.isTarfsMode count := dev.length_of_readRange hread
  have hsum : blocksToSize dev.isTarfsMode count + blocksToSize dev.isTarfsMode (blocks - count) =
      blocksToSize dev.isTarfsMode blocks := by
    rw [blocksToSize_eq, blocksToSize_eq, blocksToSize_eq, ← Nat.add_mul, Nat.add_sub_cancel' hcount_blocks]
  rw [hsup]
  dsimp only
  rw [hread]
  dsimp only
  rw [← hcount]
  rw [ih (blocks - count) (by omega) (start + count) _ _ (by omega)
    (by rw [length_overwrite (by omega)]; omega)]
  -- the stretch read now and the blocks after it are the blocks from `start`
  rw [← hlen, overwrite_append (by omega)]
  congr 2
  conv_rhs => rw [show blocks = count + (blocks - count) by omega, List.range_add,
    List.flatMap_append, List.flatMap_map]
  simp only [Nat.add_assoc]

theorem length_rangeBlock (isTarfsMode : Bool) (range : Range) (r : BlockRange) (p : Nat) :
    (rangeBlock isTarfsMode range r p).length = blockSize isTarfsMode := by
  cases r <;> simp [rangeBlock]

theorem length_flatMap_range {f : Nat → List UInt8} {u : Nat} :
    ∀ {count : Nat}, (∀ i < count, (f i).length = u) →
      ((List.range count).flatMap f).length = count * u
  | 0, _ => by simp
  | count + 1, h => by
    rw [List.range_succ, List.flatMap_append, List.flatMap_singleton, List.length_append,
      length_flatMap_range fun i hi => h i (by omega), h count (by omega), Nat.succ_mul]

theorem ReadsAs.length {dev : BlockDevice T} {D : Nat → List UInt8} (h : dev.ReadsAs D) {p : Nat}
    (hp : p < dev.blocks) : (D p).length = blockSize dev.isTarfsMode := by
  obtain ⟨n, hn, hnp⟩ := h.tiles.exists_contains p (Nat.zero_le p) hp
  obtain ⟨r, -, hD⟩ := h.nodes n hn
  rw [← hD p hnp, length_rangeBlock]

/-- **A read inside the device** returns its size and fills the front of the buffer with the
blocks of `D` from `start`. -/
theorem asyncRead_eq {D : Nat → List UInt8} (h : dev.ReadsAs D) (hfull : dev.InFull)
    (hblocks : dev.blocks ≤ 0xFFFFFFFF) {start count : Nat} {buf : List UInt8}
    (hend : start + count ≤ dev.blocks) (hbuf : blocksToSize dev.isTarfsMode count ≤ buf.length) :
    dev.asyncRead start count buf = (.ok (blocksToSize dev.isTarfsMode count),
      (List.range count).flatMap (fun i => D (start + i)) ++
        buf.drop (blocksToSize dev.isTarfsMode count)) := by
  have hlen : ((List.range count).flatMap fun i => D (start + i)).length =
      blocksToSize dev.isTarfsMode count := by
    rw [blocksToSize_eq]
    exact length_flatMap_range fun i hi => h.length (by omega)
  rw [asyncRead, if_neg (by omega), dev.asyncReadLoop_eq h hfull count start 0 buf hend (by omega)]
  simp only [overwrite, List.take_zero, List.nil_append, Nat.zero_add, hlen, Except.map]

/-- **A read past the end** of at least one block returns an `Err`: by induction on the blocks
left, the loop reads whole ranges until it reaches a block that no range holds. -/
theorem asyncReadLoop_error (htiles : Covers (T.nodes dev.ranges) 0 dev.blocks) (hfull : dev.InFull) :
    ∀ blocks start pos buf, 0 < blocks → dev.blocks < start + blocks →
      ∃ msg, (dev.asyncReadLoop start blocks pos buf).1 = bail msg := by
  intro blocks
  induction blocks using Nat.strong_induction_on with
  | _ blocks ih =>
  intro start pos buf hpos hpast
  rw [asyncReadLoop, if_neg (by omega)]
  rcases hsup : T.getSuperset dev.ranges start with _ | ⟨range, _ | _ | r⟩
  · exact ⟨_, rfl⟩
  · exact ⟨_, rfl⟩
  · exact ⟨_, rfl⟩
  -- a range holds `start`: it ends inside the device, so blocks are left after it
  obtain ⟨hn, hstart⟩ := T.getSuperset_valued _ _ _ _ hsup
  have hmax : range.max < dev.blocks := (htiles.bounds _ hn).2.2
  have hs : start ≤ range.max := hstart.2
  have hcount_le : min (range.max - start + 1) blocks ≤ range.max - start + 1 := min_le_left _ _
  dsimp only
  rw [dev.readRange_eq (hfull _ hn r rfl) hstart.1]
  exact ih _ (by omega) _ _ _ (by omega) (by omega)

theorem asyncRead_error (htiles : Covers (T.nodes dev.ranges) 0 dev.blocks) (hfull : dev.InFull)
    {start count : Nat} (buf : List UInt8) (hcount : 0 < count) (hpast : dev.blocks < start + count) :
    ∃ msg, (dev.asyncRead start count buf).1 = bail msg := by
  rw [asyncRead]
  split_ifs
  · exact ⟨_, rfl⟩
  · obtain ⟨msg, he⟩ := dev.asyncReadLoop_error htiles hfull count start 0 buf hcount hpast
    rcases hloop : dev.asyncReadLoop start count 0 buf with ⟨res, buf'⟩
    rw [hloop] at he
    cases he
    exact ⟨msg, rfl⟩

/-- A read of no blocks returns `Ok(0)` wherever it starts. -/
theorem asyncRead_zero {start : Nat} (hstart : start ≤ 0xFFFFFFFF) (buf : List UInt8) :
    dev.asyncRead start 0 buf = (.ok 0, buf) := by
  rw [asyncRead, if_neg (by simp [blocksToSize_eq]; omega), asyncReadLoop, if_pos rfl]
  simp [Except.map, blocksToSize_eq]

end BlockDevice

/-! ## The layout that `new_with_cache_manager` builds -/

variable {T}

theorem metaBlob_new_eq_ok {size : Nat} {content : Nat → UInt8} {m : MetaBlob}
    (h : MetaBlob.new size content = .ok m) : m = ⟨size, content⟩ := by
  unfold MetaBlob.new at h
  split_ifs at h
  · simp [Outcome.bail] at h
  · exact (Except.ok.inj h).symm

theorem dataBlob_new_eq_ok {blob : DataBlobConfig} {d : DataBlob} (h : DataBlob.new blob = .ok d) :
    d = ⟨blob.blobId, blob.fetchRangeUncompressed, blob.content⟩ := by
  unfold DataBlob.new at h
  split_ifs at h
  · exact (Except.ok.inj h).symm
  · simp [Outcome.bail] at h

theorem allocateRange_eq_ok {t t' : T.Tree} {lo hi : Nat} {r : BlockRange}
    {msg : String} (h : allocateRange T t lo hi r msg = .ok t') :
    T.Free t ⟨lo, hi⟩ ∧ T.root t' = T.root t ∧ T.nodes t' = insert (⟨lo, hi⟩, some r) (T.nodes t) := by
  unfold allocateRange at h
  split at h
  · next t₁ range hal =>
    cases h
    obtain ⟨hfree, -, hroot, -⟩ := IntervalTreeApi.allocate_free hal
    exact ⟨hfree, by rw [T.root_update, hroot], IntervalTreeApi.nodes_update_allocate hal r⟩
  · simp [Outcome.bail] at h

theorem addDataBlob_eq_ok {isTarfsMode : Bool} {t t' : T.Tree} {pos pos' : Nat}
    {blob : DataBlobConfig} (h : addDataBlob T isTarfsMode (t, pos) blob = .ok (t', pos')) :
    ∃ a d t₂, blob.mappedBlkaddr = some a ∧ a ≠ 0 ∧ DataBlob.new blob = .ok d ∧
      (pos < a → T.Free t ⟨pos, a - 1⟩ ∧ T.root t₂ = T.root t ∧
        T.nodes t₂ = insert (⟨pos, a - 1⟩, some .hole) (T.nodes t)) ∧
      (a ≤ pos → t₂ = t) ∧
      T.Free t₂ ⟨a, a + sizeToBlocks isTarfsMode blob.uncompressedSize - 1⟩ ∧
      T.root t' = T.root t₂ ∧
      T.nodes t' = insert
        (⟨a, a + sizeToBlocks isTarfsMode blob.uncompressedSize - 1⟩, some (.dataBlob d))
        (T.nodes t₂) ∧
      pos' = a + sizeToBlocks isTarfsMode blob.uncompressedSize := by
  unfold addDataBlob at h
  cases hm : blob.mappedBlkaddr with
  | none => simp [hm, Outcome.bail] at h
  | some a =>
  simp only [hm, pure_bind] at h
  have h0 : a ≠ 0 := by
    rintro rfl
    simp [Outcome.bail] at h
  have htar : ¬isTarfsMode ≠ blob.isTarfs := by
    intro htar
    simp [h0, htar, Outcome.bail] at h
  rw [if_neg h0, if_neg htar, bind_eq_ok] at h
  obtain ⟨t₂, hhole, h⟩ := h
  have hsize : ¬(sizeToBlocks isTarfsMode blob.uncompressedSize > 0xFFFFFFFF ∨
      sizeToBlocks isTarfsMode blob.uncompressedSize + a > 0xFFFFFFFF) := by
    intro hs
    rw [if_pos hs] at h
    simp [Outcome.bail] at h
  rw [if_neg hsize, bind_eq_ok] at h
  obtain ⟨d, hd, h⟩ := h
  rw [bind_eq_ok] at h
  obtain ⟨t₃, hdata, h⟩ := h
  cases h
  obtain ⟨hfree, hroot, hnodes⟩ := allocateRange_eq_ok hdata
  refine ⟨a, d, t₂, rfl, h0, hd, fun hlt => ?_, fun hle => ?_, hfree, hroot, hnodes, rfl⟩
  · rw [if_pos hlt] at hhole
    exact allocateRange_eq_ok hhole
  · rw [if_neg (Nat.not_lt.mpr hle)] at hhole
    exact (Except.ok.inj hhole).symm

/-! ### The block map of the blobs laid out so far -/

theorem maps_eq_false {isTarfsMode : Bool} {blob : DataBlobConfig} {b : Nat}
    (h : b < blob.mappedBlkaddr.getD 0 ∨
      blob.mappedBlkaddr.getD 0 + sizeToBlocks isTarfsMode blob.uncompressedSize ≤ b) :
    blob.Maps isTarfsMode b = false := by
  simp only [DataBlobConfig.Maps, Bool.and_eq_false_iff, decide_eq_false_iff_not]
  omega

section BlockMap

variable {isTarfsMode : Bool} {metaBlocks : Nat} {metaContent : Nat → UInt8}

theorem blockMapOf_of_not_maps {blobs : List DataBlobConfig} {b : Nat} (hmeta : metaBlocks ≤ b)
    (h : ∀ blob ∈ blobs, blob.Maps isTarfsMode b = false) :
    blockMapOf isTarfsMode metaBlocks metaContent blobs b =
      List.replicate (blockSize isTarfsMode) 0 := by
  have hfind : blobs.find? (·.Maps isTarfsMode b) = none :=
    List.find?_eq_none.mpr fun blob hb => by simp [h blob hb]
  simp only [blockMapOf, if_neg (Nat.not_lt.mpr hmeta), hfind]

theorem blockMapOf_append_of_lt {pre : List DataBlobConfig} {blob : DataBlobConfig} {b : Nat}
    (hb : b < blob.mappedBlkaddr.getD 0) :
    blockMapOf isTarfsMode metaBlocks metaContent (pre ++ [blob]) b =
      blockMapOf isTarfsMode metaBlocks metaContent pre b := by
  have hmaps : blob.Maps isTarfsMode b = false := maps_eq_false (Or.inl hb)
  simp [blockMapOf, List.find?_append, hmaps]

theorem blockMapOf_last {pre : List DataBlobConfig} {blob : DataBlobConfig} {b : Nat}
    (hmeta : metaBlocks ≤ b) (hpre : ∀ x ∈ pre, x.Maps isTarfsMode b = false)
    (hb : blob.Maps isTarfsMode b = true) :
    blockMapOf isTarfsMode metaBlocks metaContent (pre ++ [blob]) b =
      readAt blob.content ((b - blob.mappedBlkaddr.getD 0) * blockSize isTarfsMode)
        (blockSize isTarfsMode) := by
  have hfind : pre.find? (·.Maps isTarfsMode b) = none :=
    List.find?_eq_none.mpr fun x hx => by simp [hpre x hx]
  simp [blockMapOf, if_neg (Nat.not_lt.mpr hmeta), List.find?_append, hfind, hb]

end BlockMap

/-! ### The loop invariant -/

/-- A range laid out from the metadata blob and the data blobs `pre`: it holds a value that
reads as their block map, and a data blob's value is one of theirs. -/
def NodeOf (config : MetaBlobConfig) (pre : List DataBlobConfig)
    (n : Range × Option BlockRange) : Prop :=
  ∃ r, n.2 = some r ∧
    (∀ p, n.1.Contains p → rangeBlock config.isTarfsMode n.1 r p =
      blockMapOf config.isTarfsMode config.metaBlocks config.content pre p) ∧
    ∀ d, r = .dataBlob d → ∃ blob ∈ pre, d.fetchRangeUncompressed = blob.fetchRangeUncompressed

theorem NodeOf.append {config : MetaBlobConfig} {pre : List DataBlobConfig}
    {blob : DataBlobConfig} {n : Range × Option BlockRange} (hn : NodeOf config pre n)
    (hlt : n.1.max < blob.mappedBlkaddr.getD 0) : NodeOf config (pre ++ [blob]) n := by
  obtain ⟨r, hr, hread, hfrom⟩ := hn
  refine ⟨r, hr, fun p hp => ?_, fun d hd => ?_⟩
  · rw [blockMapOf_append_of_lt (Nat.lt_of_le_of_lt hp.2 hlt)]
    exact hread p hp
  · obtain ⟨x, hx, hf⟩ := hfrom d hd
    exact ⟨x, List.mem_append_left _ hx, hf⟩

/-- What the ranges laid out from the metadata blob and the data blobs `pre` satisfy, with `pos`
the end of the last one: they cut `[0, pos)` in order, and each reads as the block map of
`pre`. -/
structure LayoutInv (config : MetaBlobConfig) (pre : List DataBlobConfig)
    (t : T.Tree) (pos : Nat) : Prop where
  root : T.root t = ⟨0, 0xFFFFFFFF - 1⟩
  tiles : Covers (T.nodes t) 0 pos
  pos_le : pos ≤ 0xFFFFFFFF
  pos_eq : pos = rangeEnd config.isTarfsMode config.metaBlocks pre
  meta_le : config.metaBlocks ≤ pos
  end_le : ∀ blob ∈ pre,
    blob.mappedBlkaddr.getD 0 + sizeToBlocks config.isTarfsMode blob.uncompressedSize ≤ pos
  nodes : ∀ n ∈ T.nodes t, NodeOf config pre n

theorem layoutInv_meta {config : MetaBlobConfig} {m : MetaBlob} {t : T.Tree}
    {msg : String} (hm : MetaBlob.new config.size config.content = .ok m)
    (h0 : config.metaBlocks ≠ 0)
    (h : allocateRange T (T.new ⟨0, 0xFFFFFFFF - 1⟩) 0 (config.metaBlocks - 1)
      (.metaBlob m) msg = .ok t) :
    LayoutInv config [] t config.metaBlocks := by
  obtain ⟨hfree, hroot, hnodes⟩ := allocateRange_eq_ok h
  have hmax : config.metaBlocks - 1 ≤ (T.root (T.new ⟨0, 0xFFFFFFFF - 1⟩)).max := hfree.2.2.1
  rw [T.root_new] at hmax hroot
  have hm' := metaBlob_new_eq_ok hm
  refine ⟨hroot, ?_, by dsimp only at hmax; omega, rfl, le_rfl, fun _ hb => (by cases hb), ?_⟩
  · rw [hnodes, T.nodes_new]
    have := (covers_empty (β := Option BlockRange) 0).insert (r := ⟨0, config.metaBlocks - 1⟩) rfl
      (Nat.zero_le _) (some (.metaBlob m))
    dsimp only at this
    rwa [Nat.sub_add_cancel (Nat.pos_of_ne_zero h0)] at this
  · intro n hn
    rw [hnodes, T.nodes_new, Set.mem_insert_iff] at hn
    obtain rfl := hn.resolve_right (Set.notMem_empty n)
    refine ⟨.metaBlob m, rfl, fun p hp => ?_, fun d hd => by cases hd⟩
    have hp' : p < config.metaBlocks := by
      have := hp.2
      dsimp only at this
      omega
    simp only [rangeBlock, blockMapOf, if_pos hp', hm']

section Step

variable {config : MetaBlobConfig} {pre : List DataBlobConfig} {t : T.Tree}
  {pos : Nat} {blob : DataBlobConfig} {a : Nat}

theorem LayoutInv.nodeOf_hole (hinv : LayoutInv config pre t pos)
    (hstart : blob.mappedBlkaddr.getD 0 = a) (hlt : pos < a) :
    NodeOf config (pre ++ [blob]) (⟨pos, a - 1⟩, some .hole) := by
  refine ⟨.hole, rfl, fun p hp => ?_, fun d hd => by cases hd⟩
  have hp1 : pos ≤ p := hp.1
  have hp2 : p ≤ a - 1 := hp.2
  rw [blockMapOf_of_not_maps (hinv.meta_le.trans hp1)]
  · rfl
  · intro x hx
    rcases List.mem_append.mp hx with hx | hx
    · exact maps_eq_false (Or.inr ((hinv.end_le x hx).trans hp1))
    · rw [List.mem_singleton.mp hx]
      exact maps_eq_false (Or.inl (by omega))

theorem LayoutInv.nodeOf_blob (hinv : LayoutInv config pre t pos)
    (hstart : blob.mappedBlkaddr.getD 0 = a) (hpos : pos ≤ a) (ha : a ≠ 0) {d : DataBlob}
    (hd : DataBlob.new blob = .ok d) :
    NodeOf config (pre ++ [blob])
      (⟨a, a + sizeToBlocks config.isTarfsMode blob.uncompressedSize - 1⟩, some (.dataBlob d)) := by
  have hd' := dataBlob_new_eq_ok hd
  refine ⟨.dataBlob d, rfl, fun p hp => ?_, fun d' hd'' => ?_⟩
  · have hp1 : a ≤ p := hp.1
    have hp2 : p ≤ a + sizeToBlocks config.isTarfsMode blob.uncompressedSize - 1 := hp.2
    have hmaps : blob.Maps config.isTarfsMode p = true := by
      simp only [DataBlobConfig.Maps, hstart, Bool.and_eq_true, decide_eq_true_eq]
      omega
    rw [blockMapOf_last (hinv.meta_le.trans (hpos.trans hp1))
      (fun x hx => maps_eq_false (Or.inr ((hinv.end_le x hx).trans (hpos.trans hp1)))) hmaps]
    simp only [rangeBlock, hd', hstart]
  · cases hd''
    exact ⟨blob, List.mem_append_right _ (List.mem_singleton_self _), by rw [hd']⟩

/-- **One data blob.** A turn of the loop that succeeds keeps the layout, now with the blob: the
ranges so far end at `pos`, so the blob's range, which was free, starts at or after it. -/
theorem LayoutInv.addDataBlob (hinv : LayoutInv config pre t pos) {t' : T.Tree}
    {pos' : Nat} (h : Nydus.Service.addDataBlob T config.isTarfsMode (t, pos) blob = .ok (t', pos')) :
    LayoutInv config (pre ++ [blob]) t' pos' := by
  obtain ⟨a, d, t₂, hm, ha, hd, hhole, hkeep, hfree, hroot, hnodes, rfl⟩ := addDataBlob_eq_ok h
  have hstart : blob.mappedBlkaddr.getD 0 = a := by rw [hm]; rfl
  have hpos : pos ≤ a := by
    by_contra hlt
    rw [hkeep (by omega)] at hfree
    exact hlt (hfree.le_of_covers hinv.tiles (Nat.zero_le _))
  -- the ranges before the blob: those so far, and a hole up to `a` when there is a gap
  have hbefore : T.root t₂ = T.root t ∧ Covers (T.nodes t₂) 0 a ∧
      ∀ n ∈ T.nodes t₂, NodeOf config (pre ++ [blob]) n := by
    have hold : ∀ n ∈ T.nodes t, NodeOf config (pre ++ [blob]) n := fun n hn =>
      (hinv.nodes n hn).append (by have := (hinv.tiles.bounds n hn).2.2; omega)
    rcases Nat.lt_or_ge pos a with hlt | hge
    · obtain ⟨-, hroot₂, hnodes₂⟩ := hhole hlt
      refine ⟨hroot₂, ?_, ?_⟩
      · rw [hnodes₂]
        have := hinv.tiles.insert (r := ⟨pos, a - 1⟩) rfl (by dsimp only; omega) (some .hole)
        dsimp only at this
        rwa [Nat.sub_add_cancel (by omega)] at this
      · intro n hn
        rw [hnodes₂] at hn
        rcases Set.mem_insert_iff.mp hn with rfl | hn
        · exact hinv.nodeOf_hole hstart hlt
        · exact hold n hn
    · rw [hkeep hge, le_antisymm hge hpos]
      exact ⟨rfl, hinv.tiles, hold⟩
  obtain ⟨hroot₂, htiles₂, hnodes₂⟩ := hbefore
  have hle : a ≤ a + sizeToBlocks config.isTarfsMode blob.uncompressedSize - 1 := hfree.2.1
  have hmax : a + sizeToBlocks config.isTarfsMode blob.uncompressedSize - 1 ≤ 0xFFFFFFFF - 1 := by
    have := hfree.2.2.1
    rw [hroot₂, hinv.root] at this
    exact this
  refine ⟨by rw [hroot, hroot₂, hinv.root], ?_, by omega, ?_, ?_, ?_, ?_⟩
  · rw [hnodes]
    have := htiles₂.insert (r := ⟨a, a + sizeToBlocks config.isTarfsMode blob.uncompressedSize - 1⟩)
      rfl hle (some (.dataBlob d))
    dsimp only at this
    rwa [Nat.sub_add_cancel (by omega)] at this
  · simp [rangeEnd, hstart]
  · exact hinv.meta_le.trans (by omega)
  · intro x hx
    rcases List.mem_append.mp hx with hx | hx
    · exact (hinv.end_le x hx).trans (by omega)
    · rw [List.mem_singleton.mp hx, hstart]
  · intro n hn
    rw [hnodes] at hn
    rcases Set.mem_insert_iff.mp hn with rfl | hn
    · exact hinv.nodeOf_blob hstart hpos ha hd
    · exact hnodes₂ n hn

/-- **The loop.** The layout holds after the data blobs the loop has added. -/
theorem LayoutInv.foldlM (hinv : LayoutInv config pre t pos) {blobs : List DataBlobConfig}
    {s : T.Tree × Nat}
    (h : blobs.foldlM (Nydus.Service.addDataBlob T config.isTarfsMode) (t, pos) = .ok s) :
    LayoutInv config (pre ++ blobs) s.1 s.2 :=
  foldlM_inv_prefix (P := fun pre s => LayoutInv config pre s.1 s.2)
    (fun _ _ _ _ hs hstep => hs.addDataBlob hstep) hinv h

theorem LayoutInv.addDataBlob_ne_ok (hinv : LayoutInv config pre t pos)
    (hm : blob.mappedBlkaddr = some a) (ha : a < pos) (t' : T.Tree) (pos' : Nat) :
    Nydus.Service.addDataBlob T config.isTarfsMode (t, pos) blob ≠ .ok (t', pos') := by
  intro h
  obtain ⟨a', d, t₂, hm', -, -, -, hkeep, hfree, -⟩ := addDataBlob_eq_ok h
  obtain rfl := Option.some.inj (hm.symm.trans hm')
  rw [hkeep ha.le] at hfree
  exact absurd (hfree.le_of_covers hinv.tiles (Nat.zero_le _)) (Nat.not_le.mpr ha)

end Step

/-! ### The device -/

theorem metaBlocks_of_ok {config : MetaBlobConfig} {m : MetaBlob} {blocks : Nat}
    (hm : MetaBlob.new config.size config.content = .ok m)
    (h : (if config.isTarfsMode then
        if m.blocks * 8 ≤ 0xFFFFFFFF then pure (m.blocks * 8)
        else Outcome.panic "attempt to multiply with overflow"
      else pure m.blocks : Outcome Nat) = .ok blocks) :
    blocks = config.metaBlocks := by
  rw [metaBlob_new_eq_ok hm] at h
  unfold MetaBlobConfig.metaBlocks
  split_ifs at h with hmode hover
  · rw [if_pos hmode]
    exact (Except.ok.inj h).symm
  · cases h
  · rw [if_neg hmode]
    exact (Except.ok.inj h).symm

theorem newWithCacheManager_eq_ok {config : MetaBlobConfig} {dev : BlockDevice T}
    (h : newWithCacheManager T config = .ok dev) :
    ∃ t, LayoutInv config [] t config.metaBlocks ∧
      config.blobs.foldlM (addDataBlob T config.isTarfsMode) (t, config.metaBlocks) =
        .ok (dev.ranges, dev.blocks) ∧ dev.isTarfsMode = config.isTarfsMode := by
  unfold newWithCacheManager at h
  rw [bind_eq_ok] at h
  obtain ⟨m, hm, h⟩ := h
  rw [bind_eq_ok] at h
  obtain ⟨blocks, hblocks, h⟩ := h
  obtain rfl := metaBlocks_of_ok hm hblocks
  have hb0 : config.metaBlocks ≠ 0 := by
    intro h0
    rw [if_pos h0] at h
    cases h
  rw [if_neg hb0, bind_eq_ok] at h
  obtain ⟨t, halloc, h⟩ := h
  rw [bind_eq_ok] at h
  obtain ⟨⟨t', pos⟩, hfold, h⟩ := h
  cases h
  exact ⟨t, layoutInv_meta hm hb0 halloc, hfold, rfl⟩

/-- **The layout.** The device that `new_with_cache_manager` builds satisfies the loop invariant
with all the data blobs: from the metadata blob's range, one data blob at a time. -/
theorem newWithCacheManager_inv {config : MetaBlobConfig} {dev : BlockDevice T}
    (h : newWithCacheManager T config = .ok dev) :
    LayoutInv config config.blobs dev.ranges dev.blocks ∧ dev.isTarfsMode = config.isTarfsMode := by
  obtain ⟨t, hinv, hfold, hmode⟩ := newWithCacheManager_eq_ok h
  exact ⟨hinv.foldlM hfold, hmode⟩

section Device

variable {config : MetaBlobConfig} {dev : BlockDevice T}

theorem LayoutInv.readsAs (h : LayoutInv config config.blobs dev.ranges dev.blocks)
    (hmode : dev.isTarfsMode = config.isTarfsMode) : dev.ReadsAs config.blockMap := by
  refine ⟨h.tiles, fun n hn => ?_⟩
  obtain ⟨r, hr, hread, -⟩ := h.nodes n hn
  refine ⟨r, hr, fun p hp => ?_⟩
  rw [hmode]
  exact hread p hp

theorem LayoutInv.inFull (h : LayoutInv config config.blobs dev.ranges dev.blocks)
    (hfetch : ∀ blob ∈ config.blobs, ∀ pos len, blob.fetchRangeUncompressed pos len = .ok ()) :
    dev.InFull := by
  intro n hn r hr d hd pos len
  obtain ⟨r', hr', -, hfrom⟩ := h.nodes n hn
  obtain rfl : r' = r := Option.some.inj (hr'.symm.trans hr)
  obtain ⟨blob, hblob, hf⟩ := hfrom d hd
  rw [hf]
  exact hfetch blob hblob pos len

end Device

/-- **Overlapping blobs.** A data blob mapped below the end of the range before it leaves
`new_with_cache_manager` without a device: the loop reaches it with the layout of the blobs
before it, whose ranges take its start. -/
theorem newWithCacheManager_ne_ok {config : MetaBlobConfig} {pre rest : List DataBlobConfig}
    {blob : DataBlobConfig} {a : Nat} (hblobs : config.blobs = pre ++ blob :: rest)
    (hm : blob.mappedBlkaddr = some a)
    (ha : a < rangeEnd config.isTarfsMode config.metaBlocks pre) (dev : BlockDevice T) :
    newWithCacheManager T config ≠ .ok dev := by
  intro h
  obtain ⟨t, hinv, hfold, -⟩ := newWithCacheManager_eq_ok h
  rw [hblobs, List.foldlM_append, bind_eq_ok] at hfold
  obtain ⟨⟨t₁, pos₁⟩, hpre, hrest⟩ := hfold
  have hinv₁ : LayoutInv config pre t₁ pos₁ := hinv.foldlM hpre
  rw [List.foldlM_cons, bind_eq_ok] at hrest
  obtain ⟨⟨t₂, pos₂⟩, hstep, -⟩ := hrest
  exact hinv₁.addDataBlob_ne_ok hm (hinv₁.pos_eq ▸ ha) t₂ pos₂ hstep

/-! ### `Err` and panics -/

theorem noPanic_metaBlob_new (size : Nat) (content : Nat → UInt8) :
    NoPanic (MetaBlob.new size content) := by
  unfold MetaBlob.new
  split_ifs
  · exact noPanic_bail _
  · exact noPanic_ok _

theorem noPanic_dataBlob_new (blob : DataBlobConfig) : NoPanic (DataBlob.new blob) := by
  unfold DataBlob.new
  split_ifs
  · exact noPanic_ok _
  · exact noPanic_bail _

theorem noPanic_allocateRange (t : T.Tree) (lo hi : Nat) (r : BlockRange)
    (msg : String) : NoPanic (allocateRange T t lo hi r msg) := by
  unfold allocateRange
  split
  · exact noPanic_ok _
  · exact noPanic_bail _

theorem noPanic_addDataBlob (isTarfsMode : Bool) (s : T.Tree × Nat)
    (blob : DataBlobConfig) : NoPanic (addDataBlob T isTarfsMode s blob) := by
  obtain ⟨t, pos⟩ := s
  unfold addDataBlob
  cases blob.mappedBlkaddr with
  | none =>
    simp only [Outcome.bail, error_bind]
    exact noPanic_bail _
  | some a =>
  simp only [pure_bind]
  refine NoPanic.ite (fun _ => noPanic_bail _) fun _ =>
    NoPanic.ite (fun _ => noPanic_bail _) fun _ => ?_
  refine NoPanic.bind (NoPanic.ite (fun _ => noPanic_allocateRange _ _ _ _ _) fun _ => noPanic_ok _)
    fun t₂ _ => NoPanic.ite (fun _ => noPanic_bail _) fun _ => ?_
  exact NoPanic.bind (noPanic_dataBlob_new blob) fun d _ =>
    NoPanic.bind (noPanic_allocateRange _ _ _ _ _) fun _ _ => noPanic_ok _

theorem noPanic_newWithCacheManager {config : MetaBlobConfig} (h0 : config.metaBlocks ≠ 0)
    (hmax : config.metaBlocks ≤ 0xFFFFFFFF) : NoPanic (newWithCacheManager T config) := by
  unfold newWithCacheManager
  refine NoPanic.bind (noPanic_metaBlob_new _ _) fun m hm => ?_
  refine NoPanic.bind ?_ fun blocks hblocks => ?_
  · rw [metaBlob_new_eq_ok hm]
    unfold MetaBlobConfig.metaBlocks at hmax
    split_ifs with hmode hover
    · exact noPanic_ok _
    · rw [if_pos hmode] at hmax
      exact absurd hmax hover
    · exact noPanic_ok _
  obtain rfl := metaBlocks_of_ok hm hblocks
  refine NoPanic.ite (fun h => absurd h h0) fun _ => ?_
  refine NoPanic.bind (noPanic_allocateRange _ _ _ _ _) fun t _ => ?_
  exact NoPanic.bind (NoPanic.foldlM (noPanic_addDataBlob _) _ _) fun _ _ => noPanic_ok _

/-- **The block device reads as the image's block map.** When `new_with_cache_manager`
builds the device, the device ends where the last range ends. With full reads, a read inside
the device fills the buffer with the map's blocks, in order. A read of at least one block past
the end returns an `Err`. A data blob mapped below the end of the range before it makes
`new_with_cache_manager` return an `Err`, unless the metadata blob's own block count has made it
panic first. -/
theorem newWithCacheManager_reads_blockMap (T : IntervalTreeApi BlockRange) (config : MetaBlobConfig) :
    (∀ dev, newWithCacheManager T config = .ok dev →
      dev.blocks = rangeEnd config.isTarfsMode config.metaBlocks config.blobs ∧
      ((∀ blob ∈ config.blobs, ∀ pos len, blob.fetchRangeUncompressed pos len = .ok ()) →
        (∀ start count buf, start + count ≤ dev.blocks →
          blocksToSize config.isTarfsMode count ≤ buf.length →
          dev.asyncRead start count buf = (.ok (blocksToSize config.isTarfsMode count),
            (List.range count).flatMap (fun i => config.blockMap (start + i)) ++
              buf.drop (blocksToSize config.isTarfsMode count))) ∧
        ∀ start count buf, 0 < count → dev.blocks < start + count →
          ∃ msg, (dev.asyncRead start count buf).1 = bail msg)) ∧
    ∀ pre blob rest a, config.blobs = pre ++ blob :: rest → blob.mappedBlkaddr = some a →
      a < rangeEnd config.isTarfsMode config.metaBlocks pre →
      (∃ msg, newWithCacheManager T config = bail msg) ∨ config.metaBlocks = 0 ∨
        0xFFFFFFFF < config.metaBlocks := by
  refine ⟨fun dev h => ?_, fun pre blob rest a hblobs hm ha => ?_⟩
  · obtain ⟨hinv, hmode⟩ := newWithCacheManager_inv h
    refine ⟨hinv.pos_eq, fun hfetch => ⟨fun start count buf hend hbuf => ?_,
      fun start count buf hcount hpast => ?_⟩⟩
    · rw [← hmode] at hbuf ⊢
      exact dev.asyncRead_eq (hinv.readsAs hmode) (hinv.inFull hfetch) hinv.pos_le hend hbuf
    · exact dev.asyncRead_error hinv.tiles (hinv.inFull hfetch) buf hcount hpast
  · by_cases h0 : config.metaBlocks = 0
    · exact Or.inr (Or.inl h0)
    by_cases hmax : 0xFFFFFFFF < config.metaBlocks
    · exact Or.inr (Or.inr hmax)
    -- the device is not built, and nothing on the way panics
    obtain ⟨e, he⟩ : ∃ e, newWithCacheManager T config = .error e := by
      cases hnew : newWithCacheManager T config with
      | ok dev => exact absurd hnew (newWithCacheManager_ne_ok hblobs hm ha dev)
      | error e => exact ⟨e, rfl⟩
    exact Or.inl ((noPanic_newWithCacheManager h0 (Nat.not_lt.mp hmax)).exists_bail he)

/-- An image of one metadata block and one data blob of one block, mapped to block 2: the
device is the metadata block, a hole and the data block. -/
def oneBlobImage : MetaBlobConfig where
  blobId := "meta"
  isTarfsMode := false
  size := 4096
  content := fun _ => 1
  blobs := [⟨"data", some 2, 4096, false, true, fun _ _ => .ok (), fun _ => 2⟩]

theorem newWithCacheManager_reads_blockMap_oneBlob :
    ∃ dev, newWithCacheManager (listTrees BlockRange) oneBlobImage = .ok dev ∧ dev.blocks = 3 ∧
      dev.asyncRead 0 3 (List.replicate 12288 0) =
        (.ok 12288, (List.range 3).flatMap fun i => oneBlobImage.blockMap i) := by
  obtain ⟨dev, hdev⟩ : ∃ dev, newWithCacheManager (listTrees BlockRange) oneBlobImage = .ok dev :=
    ⟨_, rfl⟩
  obtain ⟨hblocks, hread⟩ :=
    (newWithCacheManager_reads_blockMap (listTrees BlockRange) oneBlobImage).1 dev hdev
  have hblocks' : dev.blocks = 3 := hblocks.trans rfl
  refine ⟨dev, hdev, hblocks', ?_⟩
  have hsize : blocksToSize oneBlobImage.isTarfsMode 3 = 12288 := rfl
  have := (hread (by simp [oneBlobImage])).1 0 3 (List.replicate 12288 0) (by omega)
    (by rw [hsize, List.length_replicate])
  rw [this, hsize, List.drop_replicate, Nat.sub_self, List.replicate_zero, List.append_nil]
  simp only [Nat.zero_add]

theorem newWithCacheManager_reads_blockMap_read_none_past_end :
    ∃ dev, newWithCacheManager (listTrees BlockRange) oneBlobImage = .ok dev ∧ dev.blocks < 5 + 0 ∧
      dev.asyncRead 5 0 [] = (.ok 0, []) := by
  obtain ⟨dev, hdev⟩ : ∃ dev, newWithCacheManager (listTrees BlockRange) oneBlobImage = .ok dev :=
    ⟨_, rfl⟩
  have hblocks : dev.blocks = 3 := (newWithCacheManager_inv hdev).1.pos_eq.trans rfl
  exact ⟨dev, hdev, by omega, dev.asyncRead_zero (by decide) []⟩

end Nydus.Service
