import Mathlib
import Nydus.Lib.Outcome
import Nydus.Storage.Device

/-!
# The I/O vectors of a read of a RAFS v5 file (`rafs/src/metadata/layout/v5.rs`)

A RAFS v5 regular file lists its chunks, each with the offset in the file it holds.
`rafsv5_alloc_bio_vecs` turns a read of `size` bytes at `offset` into descriptors of the chunks
it touches, grouped into one `BlobIoVec` for each run of chunks in one blob.
`calculate_bio_chunk_index` picks the chunks to look at: for a dense file, the chunks of the
read's first and last byte and those between; for a file with holes (`HAS_HOLE`), whose chunks
need not sit at multiples of the chunk size, every chunk. `add_chunk_to_bio_desc` skips a
chunk before the read, and reports a chunk past its end by returning `false`, which the caller
turns into an error.

So for a file with holes every read that ends before the last chunk fails
(`rafsv5AllocBioVecs_hole_short_read_fails`).

Model notes. Arithmetic that overflows and `debug_assert!` panic, as in a debug build. A blob of
the table is its index; the I/O chunk made of a chunk is kept as the chunk's blob and index.
-/

namespace Nydus.Rafs.V5

open Nydus.Lib Nydus.Storage
open Nydus.Lib.Outcome (bail)

/-- The fields of a v5 chunk that the read path reads: its blob, its index in that blob, and
the part of the file it holds. -/
structure ChunkInfoV5 where
  blobIndex : Nat
  index : Nat
  fileOffset : Nat
  uncompressedSize : Nat
  deriving DecidableEq, Repr

/-- The fields of a `CachedInodeV5` of a regular file that the read path reads. -/
structure CachedInodeV5 where
  chunkSize : Nat
  hasHole : Bool
  /-- `i_child_cnt`, the chunk count of a regular file. -/
  childCount : Nat
  /-- `i_data`, the chunks. -/
  data : List ChunkInfoV5
  blobTableLen : Nat
  deriving DecidableEq, Repr

namespace CachedInodeV5

variable (inode : CachedInodeV5)

def getChunkInfoV5 (idx : Nat) : Outcome ChunkInfoV5 :=
  match inode.data[idx]? with
  | some chunk => .ok chunk
  | none => bail "invalid chunk index"

/-- `get_blob_by_index`: the blob table lookup. -/
def getBlobByIndex (idx : Nat) : Outcome Nat :=
  if idx < inode.blobTableLen then .ok idx else bail "blob not found"

end CachedInodeV5

/-- `calculate_bio_chunk_index`: the chunks `[index_start, index_end)` to look at. -/
def calculateBioChunkIndex (offset ioEnd chunkSize chunkCnt : Nat) (hasHole : Bool) :
    Outcome (Nat × Nat) :=
  if ¬offset < ioEnd then Outcome.panic "assertion failed: offset < end"
  else if hasHole then .ok (0, chunkCnt)
  else if chunkSize = 0 then Outcome.panic "attempt to divide by zero"
  else if (ioEnd - 1) / chunkSize % 2 ^ 32 = 0xFFFF_FFFF then
    Outcome.panic "attempt to add with overflow"
  else .ok (offset / chunkSize % 2 ^ 32, min ((ioEnd - 1) / chunkSize % 2 ^ 32 + 1) chunkCnt)

/-- `add_chunk_to_bio_desc`: `false` for a chunk past the end of the read; a chunk before it is
skipped, and a chunk that meets it adds a descriptor of the bytes they share. -/
def addChunkToBioDesc (desc : BlobIoVec Nat) (offset ioEnd : Nat) (chunk : ChunkInfoV5)
    (userIo : Bool) : Outcome (Bool × BlobIoVec Nat) :=
  if offset ≥ chunk.fileOffset + chunk.uncompressedSize then .ok (true, desc)
  else if ioEnd ≤ chunk.fileOffset then .ok (false, desc)
  else do
    let chunkStart := if offset > chunk.fileOffset then offset - chunk.fileOffset else 0
    let chunkEnd := if ioEnd < chunk.fileOffset + chunk.uncompressedSize then
        ioEnd - chunk.fileOffset
      else chunk.uncompressedSize
    let desc ← desc.push
      ⟨chunk.blobIndex, chunk.index, chunkStart % 2 ^ 32, (chunkEnd - chunkStart) % 2 ^ 32, userIo⟩
    pure (true, desc)

/-- One turn of the loop over the chunks after the first: a new vector where the blob
changes, then the chunk. -/
def allocStep (inode : CachedInodeV5) (offset ioEnd : Nat) (userIo : Bool)
    (acc : List (BlobIoVec Nat) × BlobIoVec Nat) (idx : Nat) :
    Outcome (List (BlobIoVec Nat) × BlobIoVec Nat) := do
  let chunk ← inode.getChunkInfoV5 idx
  let blob ← inode.getBlobByIndex chunk.blobIndex
  let (descs, desc) :=
    if blob ≠ acc.2.blobIndex then (acc.1 ++ [acc.2], BlobIoVec.new blob) else acc
  let (more, desc) ← addChunkToBioDesc desc offset ioEnd chunk userIo
  if !more then bail "failed to create blob io vector"
  pure (descs, desc)

/-- `rafsv5_alloc_bio_vecs`. -/
def rafsv5AllocBioVecs (inode : CachedInodeV5) (offset size : Nat) (userIo : Bool) :
    Outcome (List (BlobIoVec Nat)) := do
  let ioEnd := offset + size
  if ioEnd ≥ 2 ^ 64 then bail "invalid read size"
  let (indexStart, indexEnd) ←
    calculateBioChunkIndex offset ioEnd inode.chunkSize inode.childCount inode.hasHole
  if size = 0 ∨ indexStart ≥ inode.childCount then pure []
  else
    let chunk ← inode.getChunkInfoV5 indexStart
    let blob ← inode.getBlobByIndex chunk.blobIndex
    let (more, desc) ← addChunkToBioDesc (BlobIoVec.new blob) offset ioEnd chunk userIo
    if !more then bail "failed to create blob io vector"
    let (descs, desc) ← (List.range' (indexStart + 1) (indexEnd - (indexStart + 1))).foldlM
      (allocStep inode offset ioEnd userIo) ([], desc)
    pure (descs ++ [desc])

/-- A file of two chunks of 1 MiB in blob 0, at file offsets 0 and 1 MiB, with the `HAS_HOLE`
flag. -/
def holeInode : CachedInodeV5 :=
  ⟨1048576, true, 2, [⟨0, 0, 0, 1048576⟩, ⟨0, 1, 1048576, 1048576⟩], 1⟩

/-- A read of the first 4096 bytes touches only chunk 0, yet it fails: the loop looks at
chunk 1 as well, which lies past the end of the read. -/
theorem rafsv5AllocBioVecs_hole_short_read_fails :
    rafsv5AllocBioVecs holeInode 0 4096 true = bail "failed to create blob io vector" := rfl

end Nydus.Rafs.V5
