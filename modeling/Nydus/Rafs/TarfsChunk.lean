import Mathlib
import Nydus.Lib.Outcome
import Nydus.Rafs.BioVecV6

/-!
# Chunks of a file in tar-tarfs mode (`builder/src/core/node.rs`, `rafs/src/metadata/direct_v6.rs`)

In tar-tarfs mode the data blob is the tar stream itself. `Node::dump_node_data` reads a regular
file's data chunk by chunk through the tar reader and records each chunk at the stream position
it was read from, with the number of bytes read: `chunk_size`, and the file's rest for the last
chunk. `v6_dump_file` stores each chunk as a block address in 512-byte blocks. The RAFS v6
reader rebuilds a chunk from its block address and a size of its own, `chunk_size`, or
`size % chunk_size` for the last chunk: one chunk at a time in `get_chunk_info`, and for a read
of a byte range in `alloc_bio_vecs` through `make_chunk_io`.

The results:
* `dumpNodeData_eq`: chunk `i` of the builder sits at `pos + i * chunk_size`;
* `tarfs_reader_chunk_eq`: for a tar stream whose file data and chunk size are 512-byte
  aligned, `get_chunk_info` gives every chunk's offset back, and its size too except for the
  last chunk of a file whose size is a multiple of `chunk_size`, where the reader's size is 0;
* `allocBioVecs_tarfs`: a read inside the file fails with "failed to get chunk information"
  exactly when one of the chunks it reaches has an address whose blob is not in the blob table
  (`blob_index` refuses 0, `blob_table.get` an index past the table); otherwise
  `alloc_bio_vecs` never reaches its `assert_eq!(left, 0)`, its descriptors take exactly the
  bytes asked for, and each descriptor has the blob of its chunk address and the chunk
  `get_chunk_info` gives for its index.

Model notes. A chunk is modelled by its offsets and sizes; the chunk index that
`from_chunk_addr` also keeps is left out. The builder's side keeps of a chunk address its block
address (`v6_dump_file`), and so does `get_chunk_info`, which is given the block addresses of the
file's chunk address array; `alloc_bio_vecs` reads the whole addresses, with their blob indexes.
The inode is `OndiskInodeWrapper` of `Nydus.Rafs.BioVecV6`, whose `chunk_addresses` it shares.
-/

namespace Nydus.Rafs.Tarfs

open Nydus.Lib Nydus.Storage
open Nydus.Lib.Outcome (bail)
open Nydus.Rafs.V6 (RafsV6InodeChunkAddr OndiskInodeWrapper divRoundUp)

/-- The fields of a tar-tarfs chunk the reader and the builder both set: its place in the tar
stream, compressed and uncompressed alike. -/
structure TarfsChunk where
  compressedOffset : Nat
  compressedSize : Nat
  uncompressedOffset : Nat
  uncompressedSize : Nat
  deriving DecidableEq, Repr

/-! ## The builder -/

/-- `uncompressed_size` of chunk `i` in `dump_node_data`: the file's rest for the last chunk. -/
def uncompressedSize (chunkSize size count i : Nat) : Nat :=
  if i = count - 1 then size - chunkSize * i else chunkSize

/-- One chunk of `dump_node_data`: `read_file_chunk` records the reader's position and the
bytes it reads, and `read_exact` moves the position past them. -/
def dumpChunk (chunkSize size count : Nat) (acc : List TarfsChunk × Nat) (i : Nat) :
    List TarfsChunk × Nat :=
  let uncompressedSize := uncompressedSize chunkSize size count i
  let pos := acc.2
  -- `set_uncompressed_offset(compressed_offset)`, `set_uncompressed_size(compressed_size)`
  (acc.1 ++ [⟨pos, uncompressedSize, pos, uncompressedSize⟩], pos + uncompressedSize)

/-- `Node::dump_node_data` in tar-tarfs mode: the chunks of a regular file of `size` bytes whose
data starts at position `pos` of the tar stream. -/
def dumpNodeData (chunkSize size pos : Nat) : List TarfsChunk :=
  let count := divRoundUp size chunkSize
  ((List.range count).foldl (dumpChunk chunkSize size count) ([], pos)).1

/-- A number in hexadecimal digits, as `{:x}` prints it. -/
def hexStr (n : Nat) : String := String.ofList (Nat.toDigits 16 n)

/-- `BuildContext::v6_block_addr` with the tar-tarfs block size of 512 bytes. -/
def v6BlockAddr (offset : Nat) : Outcome Nat :=
  let blkAddr := offset / 512
  if blkAddr > 0xFFFF_FFFF then bail s!"v6 block address 0x{hexStr blkAddr} is too big"
  else .ok blkAddr

/-- `v6_dump_file`: the chunk address array, a block address for each chunk. -/
def v6DumpFile (chunks : List TarfsChunk) : Outcome (List Nat) :=
  chunks.mapM fun c => v6BlockAddr c.uncompressedOffset

/-! ## The reader -/

/-- The chunk `from_chunk_addr` places at a block address: the offset is the block address in
512-byte blocks. -/
def chunkAt (blockAddr size : Nat) : TarfsChunk :=
  ⟨blockAddr <<< 9, size, blockAddr <<< 9, size⟩

/-- `TarfsChunkInfoV6::from_chunk_addr`: it fails on an address without a blob index. -/
def fromChunkAddr (addr : RafsV6InodeChunkAddr) (size : Nat) : Outcome TarfsChunk := do
  let _ ← addr.blobIndex
  pure (chunkAt addr.blockAddr size)

/-- The size the tarfs reader gives a chunk, in `get_chunk_info` and in `make_chunk_io`. -/
def readerChunkSize (size chunkSize : Nat) (isTail : Bool) : Nat :=
  if isTail then size % chunkSize else chunkSize

/-- `OndiskInodeWrapper::get_chunk_info` in tarfs mode, for a regular file of `size` bytes with
chunk address array `addrs`. -/
def getChunkInfo (size chunkSize : Nat) (addrs : List Nat) (idx : Nat) : Outcome TarfsChunk := do
  -- `get_chunk_count`
  let count := divRoundUp size chunkSize
  if count ≤ idx then bail "invalid chunk info"
  let blockAddr ← Outcome.get addrs idx
  pure (chunkAt blockAddr (readerChunkSize size chunkSize (idx == count - 1)))

/-- The blob of a chunk address is in the image's blob table: `blob_index` and
`blob_table.get` both succeed. -/
def InTable (i : OndiskInodeWrapper) (a : RafsV6InodeChunkAddr) : Prop :=
  ∃ b, a.blobIndex = .ok b ∧ b < i.blobTableLen

section Alloc

variable (i : OndiskInodeWrapper) (userIo : Bool)

/-- The descriptor `make_chunk_io` builds in tarfs mode for the chunk at `addr` of blob `b`. -/
def ioDesc (addr : RafsV6InodeChunkAddr) (b contentOffset contentLen : Nat) (isTail : Bool) :
    BlobIoDesc TarfsChunk :=
  ⟨b, chunkAt addr.blockAddr (readerChunkSize i.size i.chunkSize isTail), contentOffset,
    contentLen, userIo⟩

/-- `OndiskInodeWrapper::make_chunk_io` in tarfs mode: `None`, which its caller turns into an
error, where the address has no blob index, where the blob table has no such blob, or where
`from_chunk_addr` fails. -/
def makeChunkIo (addr : RafsV6InodeChunkAddr) (contentOffset contentLen : Nat) (isTail : Bool) :
    Option (BlobIoDesc TarfsChunk) :=
  match addr.blobIndex with
  | .error _ => none
  | .ok blobIndex =>
    -- `state.blob_table.get(blob_index)`
    if blobIndex < i.blobTableLen then
      match fromChunkAddr addr (readerChunkSize i.size i.chunkSize isTail) with
      | .ok chunk => some ⟨blobIndex, chunk, contentOffset, contentLen, userIo⟩
      | .error _ => none
    else none

/-- The loop of `alloc_bio_vecs` over the chunks after the first: each one is read from its
start for `min(chunk_size, left)` bytes, a new vector starts where the blob changes, and the
loop breaks once nothing is left. Returns the finished vectors, the open one and what is
left. -/
def allocRest (tailChunkIndex : Nat) :
    List RafsV6InodeChunkAddr → Nat → Nat → List (BlobIoVec TarfsChunk) →
      BlobIoVec TarfsChunk → Outcome (List (BlobIoVec TarfsChunk) × BlobIoVec TarfsChunk × Nat)
  | [], _, left, vec, descs => .ok (vec, descs, left)
  | c :: cs, currChunkIndex, left, vec, descs => do
    let currChunkIndex := currChunkIndex + 1
    let contentLen := min i.chunkSize left
    let some desc := makeChunkIo i userIo c 0 contentLen (currChunkIndex == tailChunkIndex)
      | bail "failed to get chunk information"
    let (vec, descs) :=
      if desc.blobIndex ≠ descs.blobIndex then (vec ++ [descs], BlobIoVec.new desc.blobIndex)
      else (vec, descs)
    let descs ← descs.push desc
    let left := left - contentLen
    if left = 0 then .ok (vec, descs, left)
    else allocRest tailChunkIndex cs currChunkIndex left vec descs

/-- `alloc_bio_vecs` once the chunk addresses from `headChunkIndex` on are read: the first chunk
is read from `offset % chunk_size`, the rest by `allocRest`. -/
def allocDescs (offset ioSize headChunkIndex : Nat) :
    List RafsV6InodeChunkAddr → Outcome (List (BlobIoVec TarfsChunk))
  | [] => .ok []
  | c :: cs => do
    let tailChunkIndex := divRoundUp i.size i.chunkSize - 1
    let contentOffset := offset % i.chunkSize
    if i.size < offset then Outcome.panic "attempt to subtract with overflow"
    -- `as u32`
    let left := min (i.size - offset) ioSize % 2 ^ 32
    let contentLen := min (i.chunkSize - contentOffset) left
    let some desc := makeChunkIo i userIo c contentOffset contentLen
        (headChunkIndex == tailChunkIndex)
      | bail "failed to get chunk information"
    let descs ← (BlobIoVec.new desc.blobIndex).push desc
    let left := left - contentLen
    let (vec, descs, left) ←
      if left ≠ 0 then allocRest i userIo tailChunkIndex cs headChunkIndex left [] descs
      else .ok ([], descs, left)
    let vec := if descs.biVec ≠ [] then vec ++ [descs] else vec
    if left ≠ 0 then Outcome.panic "assertion `left == right` failed" else .ok vec

/-- `OndiskInodeWrapper::alloc_bio_vecs` in tarfs mode: the vectors of a read of `ioSize` bytes
at `offset`. -/
def allocBioVecs (offset ioSize : Nat) : Outcome (List (BlobIoVec TarfsChunk)) := do
  if i.chunkSize = 0 then Outcome.panic "attempt to divide by zero"
  let headChunkIndex := offset / i.chunkSize
  if headChunkIndex > 0xFFFF_FFFF then
    bail "v6: invalid offset or chunk size when calculate chunk index"
  let chunks ← i.chunkAddresses headChunkIndex
  allocDescs i userIo offset ioSize headChunkIndex chunks

end Alloc

/-- Chunk `k` of a read, counted from the chunk of `offset`, holds some of the `left` bytes the
read asks for; the first is read in any case. -/
def Reaches (chunkSize offset left k : Nat) : Prop :=
  k = 0 ∨ k * chunkSize < offset % chunkSize + left

/-! ## Chunk counts -/

section Count

variable {n d i : Nat}

theorem lt_divRoundUp_iff (hd : 0 < d) : i < divRoundUp n d ↔ i * d < n := by
  rw [divRoundUp, Nat.lt_iff_add_one_le, Nat.le_div_iff_mul_le hd, Nat.add_mul, Nat.one_mul]
  omega

theorem le_divRoundUp_mul (hd : 0 < d) : n ≤ divRoundUp n d * d := by
  have h : n + d - 1 < (n + d - 1) / d * d + d := Nat.lt_div_mul_add hd
  rw [← divRoundUp] at h
  omega

theorem last_chunk_rest (hd : 0 < d) (hlast : i + 1 = divRoundUp n d) :
    d * i < n ∧ n ≤ d * i + d := by
  have hlt : i * d < n := (lt_divRoundUp_iff hd).mp (by omega)
  have hle : n ≤ (i + 1) * d := hlast ▸ le_divRoundUp_mul hd
  rw [Nat.add_mul, Nat.one_mul] at hle
  rw [Nat.mul_comm] at hlt hle
  exact ⟨hlt, hle⟩

theorem sub_mul_eq_mod_iff (hd : 0 < d) (hlast : i + 1 = divRoundUp n d) :
    n - d * i = n % d ↔ n % d ≠ 0 := by
  obtain ⟨hlt, hle⟩ := last_chunk_rest hd hlast
  obtain ⟨r, hr⟩ : ∃ r, n = d * i + r := ⟨n - d * i, by omega⟩
  have hmod : n % d = r % d := by rw [hr, Nat.mul_add_mod]
  rw [hmod]
  rcases Nat.lt_or_ge r d with hrd | hrd
  · rw [Nat.mod_eq_of_lt hrd]
    omega
  · -- the rest is a whole chunk
    have hrd : r = d := by omega
    rw [hrd, Nat.mod_self]
    omega

end Count

/-! ## The builder's chunks -/

section Builder

variable {chunkSize size pos : Nat}

/-- Chunk `i` as the builder records it: read at `pos + i * chunk_size`. -/
def builderChunk (chunkSize size count pos i : Nat) : TarfsChunk :=
  ⟨pos + i * chunkSize, uncompressedSize chunkSize size count i,
    pos + i * chunkSize, uncompressedSize chunkSize size count i⟩

theorem foldl_dumpChunk (count : Nat) :
    ∀ k, k ≤ count →
      ((List.range k).foldl (dumpChunk chunkSize size count) ([], pos)).1 =
          (List.range k).map (builderChunk chunkSize size count pos) ∧
        (k < count →
          ((List.range k).foldl (dumpChunk chunkSize size count) ([], pos)).2 =
            pos + k * chunkSize)
  | 0, _ => by simp
  | k + 1, hk => by
    obtain ⟨hchunks, hpos⟩ := foldl_dumpChunk count k (by omega)
    have hk' : ((List.range k).foldl (dumpChunk chunkSize size count) ([], pos)).2 =
        pos + k * chunkSize := hpos (by omega)
    rw [List.range_succ, List.foldl_append, List.foldl_cons, List.foldl_nil, List.map_append]
    constructor
    · simp only [dumpChunk, hchunks, hk', builderChunk, List.map_cons, List.map_nil]
    · -- a chunk before the last is a whole chunk
      intro hlt
      have hsize : uncompressedSize chunkSize size count k = chunkSize := by
        rw [uncompressedSize, if_neg (by omega)]
      simp only [dumpChunk, hk', hsize, Nat.add_mul, Nat.one_mul]
      omega

/-- **The builder's chunks**: chunk `i` of a file whose data starts at `pos` is read at
`pos + i * chunk_size`. -/
theorem dumpNodeData_eq :
    dumpNodeData chunkSize size pos =
      (List.range (divRoundUp size chunkSize)).map
        (builderChunk chunkSize size (divRoundUp size chunkSize) pos) :=
  (foldl_dumpChunk _ _ (Nat.le_refl _)).1

theorem dumpNodeData_getElem? {i : Nat} (hi : i < divRoundUp size chunkSize) :
    (dumpNodeData chunkSize size pos)[i]? =
      some (builderChunk chunkSize size (divRoundUp size chunkSize) pos i) := by
  rw [dumpNodeData_eq, List.getElem?_map, List.getElem?_range hi, Option.map_some]

theorem v6BlockAddr_eq {offset : Nat} (h : offset < 512 * 2 ^ 32) :
    v6BlockAddr offset = .ok (offset / 512) := by
  have hlt : offset / 512 ≤ 0xFFFF_FFFF := by omega
  simp [v6BlockAddr, Nat.not_lt.mpr hlt]

theorem v6DumpFile_dumpNodeData (hc : 0 < chunkSize) (hfit : pos + size ≤ 512 * 2 ^ 32) :
    v6DumpFile (dumpNodeData chunkSize size pos) =
      .ok ((dumpNodeData chunkSize size pos).map fun c => c.uncompressedOffset / 512) := by
  apply mapM_eq_ok
  intro c hc'
  rw [dumpNodeData_eq, List.mem_map] at hc'
  obtain ⟨i, hi, rfl⟩ := hc'
  have hlt : i * chunkSize < size := (lt_divRoundUp_iff hc).mp (List.mem_range.mp hi)
  exact v6BlockAddr_eq (by simp only [builderChunk]; omega)

end Builder

/-! ## The reader's chunks -/

section Reader

variable {size chunkSize : Nat} {addrs : List Nat}

theorem getChunkInfo_eq {idx a : Nat} (hidx : idx < divRoundUp size chunkSize)
    (ha : addrs[idx]? = some a) :
    getChunkInfo size chunkSize addrs idx =
      .ok (chunkAt a
        (readerChunkSize size chunkSize (idx == divRoundUp size chunkSize - 1))) := by
  have hget : Outcome.get addrs idx = .ok a := Outcome.get_eq_ok.mpr ha
  simp only [getChunkInfo, Nat.not_le.mpr hidx, if_false, hget]
  rfl

theorem div_shiftLeft_of_dvd {x : Nat} (h : 512 ∣ x) : (x / 512) <<< 9 = x := by
  rw [Nat.shiftLeft_eq]
  exact Nat.div_mul_cancel h

end Reader

/-! ## Builder and reader -/

section Agreement

variable {chunkSize size pos idx : Nat}

theorem readerChunkSize_eq_iff (hc : 0 < chunkSize) (hidx : idx < divRoundUp size chunkSize) :
    readerChunkSize size chunkSize (idx == divRoundUp size chunkSize - 1) =
        uncompressedSize chunkSize size (divRoundUp size chunkSize) idx ↔
      (idx + 1 = divRoundUp size chunkSize → size % chunkSize ≠ 0) := by
  by_cases hlast : idx + 1 = divRoundUp size chunkSize
  · have htail : idx = divRoundUp size chunkSize - 1 := by omega
    simp only [readerChunkSize, uncompressedSize, htail, beq_self_eq_true, if_true]
    rw [← htail, eq_comm, sub_mul_eq_mod_iff hc hlast]
    simp [hlast]
  · have hne : idx ≠ divRoundUp size chunkSize - 1 := by omega
    simp [readerChunkSize, uncompressedSize, hne, hlast]

/-- **Builder and reader in tar-tarfs mode.** For a file whose data starts at a 512-byte aligned
position of the tar stream, a 512-byte aligned chunk size and a stream within the 32-bit block
addresses, `get_chunk_info` finds every chunk at the offset the builder read it from, and gives
the builder's chunk back except at the last chunk of a file whose size is a multiple of the chunk
size. -/
theorem tarfs_reader_chunk_eq (hc : 0 < chunkSize) (hcalign : 512 ∣ chunkSize)
    (hpos : 512 ∣ pos) (hfit : pos + size ≤ 512 * 2 ^ 32)
    (hidx : idx < divRoundUp size chunkSize) :
    ∃ addrs r, v6DumpFile (dumpNodeData chunkSize size pos) = .ok addrs ∧
      getChunkInfo size chunkSize addrs idx = .ok r ∧
      r.compressedOffset = pos + idx * chunkSize ∧ r.uncompressedOffset = pos + idx * chunkSize ∧
      ((dumpNodeData chunkSize size pos)[idx]? = some r ↔
        (idx + 1 = divRoundUp size chunkSize → size % chunkSize ≠ 0)) := by
  have hbuilt : (dumpNodeData chunkSize size pos)[idx]? =
      some (builderChunk chunkSize size (divRoundUp size chunkSize) pos idx) :=
    dumpNodeData_getElem? hidx
  have haddr : ((dumpNodeData chunkSize size pos).map fun c => c.uncompressedOffset / 512)[idx]? =
      some ((pos + idx * chunkSize) / 512) := by
    rw [List.getElem?_map, hbuilt]
    rfl
  have hoff : ((pos + idx * chunkSize) / 512) <<< 9 = pos + idx * chunkSize :=
    div_shiftLeft_of_dvd (Nat.dvd_add hpos (Nat.dvd_mul_left_of_dvd hcalign idx))
  refine ⟨_, _, v6DumpFile_dumpNodeData hc hfit, getChunkInfo_eq hidx haddr, ?_, ?_, ?_⟩
  · exact hoff
  · exact hoff
  · rw [hbuilt, Option.some_inj, builderChunk, chunkAt, hoff, ← readerChunkSize_eq_iff hc hidx]
    constructor
    · intro h
      exact (TarfsChunk.mk.inj h).2.1.symm
    · intro h
      rw [h]

theorem tarfs_reader_chunk_eq_middle :
    0 < 1048576 ∧ 512 ∣ 1048576 ∧ 512 ∣ 1024 ∧ 1024 + 3000000 ≤ 512 * 2 ^ 32 ∧
      1 < divRoundUp 3000000 1048576 ∧
      ∃ addrs r, v6DumpFile (dumpNodeData 1048576 3000000 1024) = .ok addrs ∧
        getChunkInfo 3000000 1048576 addrs 1 = .ok r ∧
        r.compressedOffset = 1024 + 1 * 1048576 ∧ r.uncompressedOffset = 1024 + 1 * 1048576 ∧
        ((dumpNodeData 1048576 3000000 1024)[1]? = some r ↔
          (1 + 1 = divRoundUp 3000000 1048576 → 3000000 % 1048576 ≠ 0)) :=
  ⟨by decide, by decide, by decide, by decide, by decide,
    tarfs_reader_chunk_eq (by decide) (by decide) (by decide) (by decide) (by decide)⟩

end Agreement

/-! ## The descriptors of a read -/

section Reads

variable {i : OndiskInodeWrapper} (userIo : Bool) (tail : Nat)

theorem makeChunkIo_of_inTable {a : RafsV6InodeChunkAddr} {b : Nat} (hb : a.blobIndex = .ok b)
    (hlt : b < i.blobTableLen) (off len : Nat) (isTail : Bool) :
    makeChunkIo i userIo a off len isTail = some (ioDesc i userIo a b off len isTail) := by
  simp [makeChunkIo, fromChunkAddr, ioDesc, hb, hlt]

theorem makeChunkIo_of_not_inTable {a : RafsV6InodeChunkAddr} (ha : ¬ InTable i a)
    (off len : Nat) (isTail : Bool) : makeChunkIo i userIo a off len isTail = none := by
  unfold makeChunkIo
  split
  · rfl
  · next b hb => rw [if_neg fun hlt => ha ⟨b, hb, hlt⟩]

theorem allocRest_cons (cs : List RafsV6InodeChunkAddr) (curr left : Nat)
    (vec : List (BlobIoVec TarfsChunk)) (descs : BlobIoVec TarfsChunk) {c : RafsV6InodeChunkAddr}
    {b : Nat} (hb : c.blobIndex = .ok b) (hlt : b < i.blobTableLen) :
    ∃ vec₁ descs₁, descsOf vec₁ ++ descs₁.biVec = descsOf vec ++ descs.biVec ++
        [ioDesc i userIo c b 0 (min i.chunkSize left) (curr + 1 == tail)] ∧
      allocRest i userIo tail (c :: cs) curr left vec descs =
        if left - min i.chunkSize left = 0 then .ok (vec₁, descs₁, left - min i.chunkSize left)
        else allocRest i userIo tail cs (curr + 1) (left - min i.chunkSize left) vec₁ descs₁ := by
  -- the vector stays open where the blob is the same, and a new one opens where it changes
  by_cases hsame : b = descs.blobIndex
  · refine ⟨vec, ⟨descs.blobIndex, descs.biSize + min i.chunkSize left,
      descs.biVec ++ [ioDesc i userIo c b 0 (min i.chunkSize left) (curr + 1 == tail)]⟩,
      by simp, ?_⟩
    simp [allocRest, makeChunkIo_of_inTable userIo hb hlt, ioDesc, hsame, BlobIoVec.push]
  · refine ⟨vec ++ [descs], ⟨b, 0 + min i.chunkSize left,
      [ioDesc i userIo c b 0 (min i.chunkSize left) (curr + 1 == tail)]⟩, by simp [descsOf], ?_⟩
    simp [allocRest, makeChunkIo_of_inTable userIo hb hlt, ioDesc, hsame, BlobIoVec.push,
      BlobIoVec.new]

/-- **The loop over chunks whose blobs are in the table.** Started with something left that
the chunks hold, it reads every byte left: it ends with nothing left, after the descriptors it
was given come its own, which take what was left, and descriptor `j` has the blob of address
`j` and the chunk of index `curr + 1 + j`. -/
theorem allocRest_ok : ∀ (cs : List RafsV6InodeChunkAddr) (curr left : Nat)
    (vec : List (BlobIoVec TarfsChunk)) (descs : BlobIoVec TarfsChunk),
    0 < left → left ≤ i.chunkSize * cs.length →
    (∀ j a, cs[j]? = some a → j * i.chunkSize < left → InTable i a) →
    ∃ vec' descs' new, allocRest i userIo tail cs curr left vec descs = .ok (vec', descs', 0) ∧
      descsOf vec' ++ descs'.biVec = descsOf vec ++ descs.biVec ++ new ∧
      (new.map BlobIoDesc.size).sum = left ∧
      ∀ j d, new[j]? = some d → ∃ a, cs[j]? = some a ∧ a.blobIndex = .ok d.blobIndex ∧
        d.chunk = chunkAt a.blockAddr (readerChunkSize i.size i.chunkSize (curr + 1 + j == tail))
  | [], _, left, _, _, hpos, hfit, _ => by
    simp only [List.length_nil, Nat.mul_zero] at hfit
    omega
  | c :: cs, curr, left, vec, descs, hpos, hfit, hin => by
    obtain ⟨b, hb, hlt⟩ := hin 0 c rfl (by rwa [Nat.zero_mul])
    obtain ⟨vec₁, descs₁, hkeep, hstep⟩ := allocRest_cons userIo tail cs curr left vec descs hb hlt
    rw [hstep]
    by_cases hdone : left - min i.chunkSize left = 0
    · -- this chunk holds the rest
      rw [if_pos hdone, hdone]
      refine ⟨vec₁, descs₁, _, rfl, hkeep, ?_, ?_⟩
      · simp only [List.map_cons, List.map_nil, List.sum_cons, List.sum_nil, ioDesc]
        omega
      · intro j d hd
        cases j with
        | zero =>
          simp only [List.getElem?_cons_zero, Option.some.injEq] at hd
          subst hd
          exact ⟨c, rfl, hb, rfl⟩
        | succ j => simp at hd
    · -- this chunk is read whole, the rest from the chunks after it
      rw [if_neg hdone]
      have hrest : left - min i.chunkSize left ≤ i.chunkSize * cs.length := by
        rw [List.length_cons, Nat.mul_succ] at hfit
        omega
      have hin' : ∀ j a, cs[j]? = some a → j * i.chunkSize < left - min i.chunkSize left →
          InTable i a := fun j a ha hj => hin (j + 1) a ha (by rw [Nat.succ_mul]; omega)
      obtain ⟨vec', descs', new, hrun, hdescs, hsum, hchunk⟩ :=
        allocRest_ok cs (curr + 1) _ vec₁ descs₁ (by omega) hrest hin'
      refine ⟨vec', descs', ioDesc i userIo c b 0 (min i.chunkSize left) (curr + 1 == tail) :: new,
        hrun, by rw [hdescs, hkeep]; simp, ?_, ?_⟩
      · simp only [List.map_cons, List.sum_cons, hsum, ioDesc]
        omega
      · intro j d hd
        cases j with
        | zero =>
          simp only [List.getElem?_cons_zero, Option.some.injEq] at hd
          subst hd
          exact ⟨c, rfl, hb, rfl⟩
        | succ j =>
          obtain ⟨a, ha, hab, hac⟩ := hchunk j d (by simpa using hd)
          refine ⟨a, by simpa using ha, hab, ?_⟩
          rw [hac, show curr + 1 + 1 + j = curr + 1 + (j + 1) by omega]

/-- **The loop at a chunk outside the blob table.** If the loop reaches a chunk whose address
has no blob in the table, it fails with `make_chunk_io`'s error, whatever came before. -/
theorem allocRest_of_not_inTable : ∀ (cs : List RafsV6InodeChunkAddr) (curr left : Nat)
    (vec : List (BlobIoVec TarfsChunk)) (descs : BlobIoVec TarfsChunk) (j : Nat)
    (a : RafsV6InodeChunkAddr), cs[j]? = some a → j * i.chunkSize < left → ¬ InTable i a →
    allocRest i userIo tail cs curr left vec descs = bail "failed to get chunk information"
  | [], _, _, _, _, _, _, ha, _, _ => by simp at ha
  | c :: cs, curr, left, vec, descs, j, a, ha, hj, hna => by
    by_cases hc : InTable i c
    · obtain ⟨b, hb, hlt⟩ := hc
      obtain ⟨vec₁, descs₁, -, hstep⟩ := allocRest_cons userIo tail cs curr left vec descs hb hlt
      rw [hstep]
      cases j with
      | zero =>
        simp only [List.getElem?_cons_zero, Option.some.injEq] at ha
        subst ha
        exact absurd ⟨b, hb, hlt⟩ hna
      | succ j =>
        -- the chunk lies further on, so this one does not hold the rest
        rw [Nat.succ_mul] at hj
        rw [if_neg (by omega)]
        exact allocRest_of_not_inTable cs _ _ _ _ j a (by simpa using ha) (by omega) hna
    · simp only [allocRest, makeChunkIo_of_not_inTable userIo hc]

theorem allocDescs_of_not_inTable {offset ioSize h : Nat} (hc : 0 < i.chunkSize)
    (hoff : offset ≤ i.size) {cs : List RafsV6InodeChunkAddr} {k : Nat} {a : RafsV6InodeChunkAddr}
    (ha : cs[k]? = some a)
    (hk : Reaches i.chunkSize offset (min (i.size - offset) ioSize % 2 ^ 32) k)
    (hna : ¬ InTable i a) :
    allocDescs i userIo offset ioSize h cs = bail "failed to get chunk information" := by
  cases cs with
  | nil => simp at ha
  | cons c cs =>
    by_cases hc0 : InTable i c
    · obtain ⟨b, hb, hlt⟩ := hc0
      cases k with
      | zero =>
        simp only [List.getElem?_cons_zero, Option.some.injEq] at ha
        subst ha
        exact absurd ⟨b, hb, hlt⟩ hna
      | succ k =>
        have hmod := Nat.mod_lt offset hc
        have hreach := hk.resolve_left (Nat.succ_ne_zero k)
        rw [Nat.succ_mul] at hreach
        have hleft : min (i.size - offset) ioSize % 2 ^ 32 -
            min (i.chunkSize - offset % i.chunkSize) (min (i.size - offset) ioSize % 2 ^ 32) ≠ 0 := by
          omega
        have hloop : ∀ descs, allocRest i userIo (divRoundUp i.size i.chunkSize - 1) cs h
            (min (i.size - offset) ioSize % 2 ^ 32 -
              min (i.chunkSize - offset % i.chunkSize) (min (i.size - offset) ioSize % 2 ^ 32))
            [] descs = bail "failed to get chunk information" := fun descs =>
          allocRest_of_not_inTable userIo _ cs h _ [] descs k a (by simpa using ha) (by omega) hna
        simp only [allocDescs, Nat.not_lt.mpr hoff, if_false, makeChunkIo_of_inTable userIo hb hlt,
          BlobIoVec.new_push, ok_bind, if_pos hleft, hloop, Outcome.bail, error_bind]
    · simp only [allocDescs, Nat.not_lt.mpr hoff, if_false, makeChunkIo_of_not_inTable userIo hc0]

theorem allocDescs_ok {offset ioSize h : Nat} (hc : 0 < i.chunkSize) (hoff : offset ≤ i.size)
    (c : RafsV6InodeChunkAddr) (cs : List RafsV6InodeChunkAddr)
    (hfits : min (i.size - offset) ioSize % 2 ^ 32 -
      min (i.chunkSize - offset % i.chunkSize) (min (i.size - offset) ioSize % 2 ^ 32) ≤
        i.chunkSize * cs.length)
    (hin : ∀ k a, (c :: cs)[k]? = some a →
      Reaches i.chunkSize offset (min (i.size - offset) ioSize % 2 ^ 32) k → InTable i a) :
    ∃ vecs, allocDescs i userIo offset ioSize h (c :: cs) = .ok vecs ∧
      ((descsOf vecs).map BlobIoDesc.size).sum = min (i.size - offset) ioSize % 2 ^ 32 ∧
      ∀ k d, (descsOf vecs)[k]? = some d → ∃ a, (c :: cs)[k]? = some a ∧
        a.blobIndex = .ok d.blobIndex ∧
        d.chunk = chunkAt a.blockAddr
          (readerChunkSize i.size i.chunkSize (h + k == divRoundUp i.size i.chunkSize - 1)) := by
  obtain ⟨b, hb, hlt⟩ := hin 0 c rfl (Or.inl rfl)
  have hmod := Nat.mod_lt offset hc
  -- the descriptor of the first chunk, which opens the first vector
  obtain ⟨d, hd⟩ : ∃ d, ioDesc i userIo c b (offset % i.chunkSize)
      (min (i.chunkSize - offset % i.chunkSize) (min (i.size - offset) ioSize % 2 ^ 32))
      (h == divRoundUp i.size i.chunkSize - 1) = d := ⟨_, rfl⟩
  by_cases hdone : min (i.size - offset) ioSize % 2 ^ 32 -
      min (i.chunkSize - offset % i.chunkSize) (min (i.size - offset) ioSize % 2 ^ 32) = 0
  · -- the first chunk holds the whole read
    refine ⟨_, by simp only [allocDescs, Nat.not_lt.mpr hoff, if_false,
      makeChunkIo_of_inTable userIo hb hlt, hd, BlobIoVec.new_push, ok_bind, hdone, ne_eq,
      not_true_eq_false]; rfl, ?_, ?_⟩
    · simp only [descsOf, ← hd, ioDesc, List.cons_ne_nil, not_false_eq_true, if_true,
        List.nil_append, List.flatMap_cons, List.flatMap_nil, List.append_nil, List.map_cons,
        List.map_nil, List.sum_cons, List.sum_nil]
      omega
    · intro k e he
      simp only [descsOf, List.cons_ne_nil, not_false_eq_true, if_true, List.nil_append,
        List.flatMap_cons, List.flatMap_nil, List.append_nil] at he
      cases k with
      | zero =>
        simp only [List.getElem?_cons_zero, Option.some.injEq] at he
        subst he hd
        exact ⟨c, rfl, hb, by simp [ioDesc]⟩
      | succ k => simp at he
  · -- the loop reads the rest from the chunks after the first
    have hin' : ∀ j a, cs[j]? = some a → j * i.chunkSize < min (i.size - offset) ioSize % 2 ^ 32 -
        min (i.chunkSize - offset % i.chunkSize) (min (i.size - offset) ioSize % 2 ^ 32) →
        InTable i a := fun j a ha hj =>
      hin (j + 1) a (by simpa using ha) (Or.inr (by rw [Nat.succ_mul]; omega))
    obtain ⟨vec', descs', new, hrun, hdescs, hsum, hchunk⟩ :=
      allocRest_ok userIo (divRoundUp i.size i.chunkSize - 1) cs h _ [] ⟨d.blobIndex, d.size, [d]⟩
        (by omega) hfits hin'
    refine ⟨_, by simp only [allocDescs, Nat.not_lt.mpr hoff, if_false,
      makeChunkIo_of_inTable userIo hb hlt, hd, BlobIoVec.new_push, ok_bind, ne_eq, hdone,
      not_false_eq_true, if_true, hrun, not_true_eq_false]; rfl, ?_, ?_⟩
    · rw [descsOf_close, hdescs, ← hd]
      simp only [descsOf, List.flatMap_nil, List.nil_append, List.map_append, List.sum_append,
        hsum, List.map_cons, List.map_nil, List.sum_cons, List.sum_nil, ioDesc]
      omega
    · rw [descsOf_close, hdescs]
      intro k e he
      cases k with
      | zero =>
        simp only [descsOf, List.flatMap_nil, List.nil_append, List.singleton_append,
          List.getElem?_cons_zero, Option.some.injEq] at he
        subst he hd
        exact ⟨c, rfl, hb, by simp [ioDesc]⟩
      | succ k =>
        simp only [descsOf, List.flatMap_nil, List.nil_append, List.singleton_append,
          List.getElem?_cons_succ] at he
        obtain ⟨a, ha, hab, hac⟩ := hchunk k e he
        refine ⟨a, by simpa using ha, hab, ?_⟩
        rw [hac, show h + 1 + k = h + (k + 1) by omega]

variable {offset ioSize : Nat}

theorem left_le_rest (hc : 0 < i.chunkSize) (cs : List RafsV6InodeChunkAddr) {left : Nat}
    (hleft : left ≤ i.size - offset)
    (hlen : cs.length + offset / i.chunkSize + 1 = divRoundUp i.size i.chunkSize) :
    left - min (i.chunkSize - offset % i.chunkSize) left ≤ i.chunkSize * cs.length := by
  have hsize : i.size ≤ divRoundUp i.size i.chunkSize * i.chunkSize := le_divRoundUp_mul hc
  have hexp : divRoundUp i.size i.chunkSize * i.chunkSize =
      i.chunkSize * cs.length + i.chunkSize * (offset / i.chunkSize) + i.chunkSize := by
    rw [← hlen, Nat.add_mul, Nat.add_mul, Nat.one_mul, Nat.mul_comm cs.length,
      Nat.mul_comm (offset / i.chunkSize)]
  have hoff := Nat.div_add_mod offset i.chunkSize
  omega

theorem allocBioVecs_eq_allocDescs (hc : 0 < i.chunkSize) (hoff : offset < i.size)
    (hlen : i.chunkAddrs.length = divRoundUp i.size i.chunkSize)
    (hcount : divRoundUp i.size i.chunkSize ≤ 0xFFFF_FFFF) :
    allocBioVecs i userIo offset ioSize =
      allocDescs i userIo offset ioSize (offset / i.chunkSize)
        (i.chunkAddrs.drop (offset / i.chunkSize)) := by
  have hhead : offset / i.chunkSize < divRoundUp i.size i.chunkSize :=
    (lt_divRoundUp_iff hc).mpr (Nat.lt_of_le_of_lt (Nat.div_mul_le_self _ _) hoff)
  have htake : (i.chunkAddrs.drop (offset / i.chunkSize)).take
      (divRoundUp i.size i.chunkSize - offset / i.chunkSize) =
        i.chunkAddrs.drop (offset / i.chunkSize) :=
    List.take_of_length_le (by simp [hlen])
  have hchunks : i.chunkAddresses (offset / i.chunkSize) =
      .ok (i.chunkAddrs.drop (offset / i.chunkSize)) := by
    simp only [OndiskInodeWrapper.chunkAddresses, htake]
    rw [if_neg (by omega), if_neg (by omega)]
  simp only [allocBioVecs, Nat.pos_iff_ne_zero.mp hc, if_false, hchunks]
  rw [if_neg (by omega)]
  rfl

end Reads

/-- **The vectors of a read in tarfs mode.** Take a read that starts inside a regular file with
one chunk address per chunk. If a chunk the read reaches has an address whose blob is not in the
blob table, `alloc_bio_vecs` fails with `make_chunk_io`'s error. If every chunk it reaches has
its blob in the table, it succeeds (its `assert_eq!(left, 0)` holds), its descriptors take
exactly the bytes of the read that lie in the file, and descriptor `k` has the blob of its chunk
address and the chunk `get_chunk_info` gives for index `offset / chunk_size + k`. -/
theorem allocBioVecs_tarfs (i : OndiskInodeWrapper) (userIo : Bool) {offset ioSize : Nat}
    (hc : 0 < i.chunkSize) (hoff : offset < i.size)
    (hlen : i.chunkAddrs.length = divRoundUp i.size i.chunkSize)
    (hcount : divRoundUp i.size i.chunkSize ≤ 0xFFFF_FFFF) :
    ((∃ k a, i.chunkAddrs[offset / i.chunkSize + k]? = some a ∧
        Reaches i.chunkSize offset (min (i.size - offset) ioSize % 2 ^ 32) k ∧ ¬ InTable i a) →
      allocBioVecs i userIo offset ioSize = bail "failed to get chunk information") ∧
    ((∀ k a, i.chunkAddrs[offset / i.chunkSize + k]? = some a →
        Reaches i.chunkSize offset (min (i.size - offset) ioSize % 2 ^ 32) k → InTable i a) →
      ∃ vecs, allocBioVecs i userIo offset ioSize = .ok vecs ∧
        ((descsOf vecs).map BlobIoDesc.size).sum = min (i.size - offset) ioSize % 2 ^ 32 ∧
        ∀ k d, (descsOf vecs)[k]? = some d → ∃ a,
          i.chunkAddrs[offset / i.chunkSize + k]? = some a ∧ a.blobIndex = .ok d.blobIndex ∧
          getChunkInfo i.size i.chunkSize (i.chunkAddrs.map RafsV6InodeChunkAddr.blockAddr)
            (offset / i.chunkSize + k) = .ok d.chunk) := by
  have hhead : offset / i.chunkSize < i.chunkAddrs.length := by
    rw [hlen]
    exact (lt_divRoundUp_iff hc).mpr (Nat.lt_of_le_of_lt (Nat.div_mul_le_self _ _) hoff)
  rw [allocBioVecs_eq_allocDescs userIo hc hoff hlen hcount,
    List.drop_eq_getElem_cons hhead]
  constructor
  · rintro ⟨k, a, ha, hk, hna⟩
    exact allocDescs_of_not_inTable userIo hc hoff.le
      (by rwa [← List.drop_eq_getElem_cons hhead, List.getElem?_drop]) hk hna
  · intro hin
    have hrest : (i.chunkAddrs.drop (offset / i.chunkSize + 1)).length + offset / i.chunkSize + 1 =
        divRoundUp i.size i.chunkSize := by
      simp only [List.length_drop]
      omega
    have hleft : min (i.size - offset) ioSize % 2 ^ 32 ≤ i.size - offset :=
      le_trans (Nat.mod_le _ _) (min_le_left _ _)
    have hfits := left_le_rest hc _ hleft hrest
    obtain ⟨vecs, hvecs, hsum, hchunk⟩ := allocDescs_ok userIo hc hoff.le _ _ hfits
      fun k a ha => hin k a (by rwa [← List.drop_eq_getElem_cons hhead, List.getElem?_drop] at ha)
    refine ⟨vecs, hvecs, hsum, fun k d hd => ?_⟩
    obtain ⟨a, ha, hab, hac⟩ := hchunk k d hd
    rw [← List.drop_eq_getElem_cons hhead, List.getElem?_drop] at ha
    have hidx : offset / i.chunkSize + k < divRoundUp i.size i.chunkSize := by
      have := (List.getElem?_eq_some_iff.mp ha).1
      omega
    refine ⟨a, ha, hab, ?_⟩
    rw [getChunkInfo_eq hidx (by rw [List.getElem?_map, ha]; rfl), hac]

/-- A read of 1500000 bytes at offset 1000000 of a file of three chunks in blob 0. -/
def threeChunkFile : OndiskInodeWrapper :=
  ⟨3000000, 1048576, [⟨0, 1, 2⟩, ⟨1, 1, 2050⟩, ⟨2, 1, 4098⟩], 1⟩

theorem allocBioVecs_tarfs_across_chunks :
    0 < threeChunkFile.chunkSize ∧ 1000000 < threeChunkFile.size ∧
      threeChunkFile.chunkAddrs.length = divRoundUp threeChunkFile.size threeChunkFile.chunkSize ∧
      divRoundUp threeChunkFile.size threeChunkFile.chunkSize ≤ 0xFFFF_FFFF ∧
      (∀ k a, threeChunkFile.chunkAddrs[1000000 / threeChunkFile.chunkSize + k]? = some a →
        Reaches threeChunkFile.chunkSize 1000000
          (min (threeChunkFile.size - 1000000) 1500000 % 2 ^ 32) k → InTable threeChunkFile a) ∧
      ∃ vecs, allocBioVecs threeChunkFile false 1000000 1500000 = .ok vecs ∧
        ((descsOf vecs).map BlobIoDesc.size).sum =
          min (threeChunkFile.size - 1000000) 1500000 % 2 ^ 32 ∧
        ∀ k d, (descsOf vecs)[k]? = some d → ∃ a,
          threeChunkFile.chunkAddrs[1000000 / threeChunkFile.chunkSize + k]? = some a ∧
          a.blobIndex = .ok d.blobIndex ∧
          getChunkInfo threeChunkFile.size threeChunkFile.chunkSize
            (threeChunkFile.chunkAddrs.map RafsV6InodeChunkAddr.blockAddr)
            (1000000 / threeChunkFile.chunkSize + k) = .ok d.chunk := by
  have hin : ∀ k a, threeChunkFile.chunkAddrs[1000000 / threeChunkFile.chunkSize + k]? = some a →
      Reaches threeChunkFile.chunkSize 1000000
        (min (threeChunkFile.size - 1000000) 1500000 % 2 ^ 32) k → InTable threeChunkFile a := by
    intro k a ha _
    have hmem : a ∈ threeChunkFile.chunkAddrs := List.mem_of_getElem? ha
    simp only [threeChunkFile, List.mem_cons, List.not_mem_nil, or_false] at hmem
    rcases hmem with rfl | rfl | rfl <;> exact ⟨0, rfl, by decide⟩
  exact ⟨by decide, by decide, by decide, by decide, hin,
    (allocBioVecs_tarfs threeChunkFile false (by decide) (by decide) (by decide) (by decide)).2 hin⟩

/-- The same file with its last chunk address naming no blob: the read reaches that chunk, and
`make_chunk_io` finds no blob for it. -/
example : allocBioVecs ⟨3000000, 1048576, [⟨0, 1, 2⟩, ⟨1, 1, 2050⟩, ⟨2, 0, 4098⟩], 1⟩ false
    1000000 1500000 = bail "failed to get chunk information" := by
  decide

/-- A file of exactly one chunk at position 512 of the tar stream: the builder records a chunk
of `chunk_size` bytes, and both reader paths rebuild it with size 0, while `alloc_bio_vecs`
still asks it for `chunk_size` bytes. -/
theorem tarfs_whole_chunk_file_empty_tail :
    dumpNodeData 1048576 1048576 512 = [⟨512, 1048576, 512, 1048576⟩] ∧
      v6DumpFile [⟨512, 1048576, 512, 1048576⟩] = .ok [1] ∧
      getChunkInfo 1048576 1048576 [1] 0 = .ok ⟨512, 0, 512, 0⟩ ∧
      allocBioVecs ⟨1048576, 1048576, [⟨0, 1, 1⟩], 1⟩ false 0 1048576 =
        .ok [⟨0, 1048576, [⟨0, ⟨512, 0, 512, 0⟩, 0, 1048576, false⟩]⟩] :=
  ⟨rfl, rfl, rfl, rfl⟩

end Nydus.Rafs.Tarfs
