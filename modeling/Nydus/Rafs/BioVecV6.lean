import Mathlib
import Nydus.Lib.Outcome
import Nydus.Storage.Device

/-!
# The I/O vectors of a read of a RAFS v6 file (`rafs/src/metadata/direct_v6.rs`)

A regular file of a RAFS v6 image made of chunks stores after its inode one chunk address per
chunk (`RafsV6InodeChunkAddr`): the blob of the chunk and its index in that blob's chunk
information array. `OndiskInodeWrapper::alloc_bio_vecs` turns a read of `size` bytes at
`offset` into the chunks it touches: one descriptor per chunk, the first read from
`offset % chunk_size` and the others from their start, grouped into one `BlobIoVec` for each
run of chunks in one blob.

What is left to read is `min(self.size() - offset, size as u64) as u32`: a read of 4 GiB or
more wraps. `prefetch_inode` asks for a whole file, so for a file of exactly 4 GiB nothing is
left and the vector holds one descriptor of no bytes
(`allocBioVecs_whole_file_of_four_gib`).

Model notes. The mode of tar-tarfs images is in `Nydus.Rafs.TarfsChunk`; here the image is not
in that mode, so `make_chunk_io` asks the device for the chunk and the index of the tail
chunk, which only that mode reads, is left out. A blob of the table is its index (the blob
table of an image holds blob `i` at place `i`), and the chunk a device gives for an index is
that index.
-/

namespace Nydus.Rafs.V6

open Nydus.Lib Nydus.Storage
open Nydus.Lib.Outcome (bail)

structure RafsV6InodeChunkAddr where
  cBlobAddrLo : UInt16
  cBlobAddrHi : UInt16
  cBlkAddr : UInt32
  deriving DecidableEq, Repr

namespace RafsV6InodeChunkAddr

variable (a : RafsV6InodeChunkAddr)

def blobIndex : Outcome Nat :=
  let idx := (a.cBlobAddrHi &&& 0x00ff).toNat
  if idx == 0 then bail "invalid zero blob index from RafsV6InodeChunkAddr" else .ok (idx - 1)

def blobCiIndex : Nat :=
  (((a.cBlobAddrHi.toUInt32) >>> 8) <<< 16 ||| a.cBlobAddrLo.toUInt32).toNat

def blockAddr : Nat := a.cBlkAddr.toNat

end RafsV6InodeChunkAddr

/-- What `create_io_chunk` reads of a `BlobDevice`: how many blobs it has, and whether the
blob knows a chunk index (`get_chunk_info(chunk_index)` is some). -/
structure BlobDevice where
  blobCount : Nat
  hasChunkInfo : Nat → Nat → Bool

/-- `BlobDevice::create_io_chunk`. -/
def BlobDevice.createIoChunk (d : BlobDevice) (blobIndex chunkIndex : Nat) : Option Nat :=
  if blobIndex < d.blobCount ∧ d.hasChunkInfo blobIndex chunkIndex = true then some chunkIndex
  else none

/-- The fields of a chunk-based regular file that `alloc_bio_vecs` reads: its size, the chunk
size of the image, the chunk addresses stored after the inode, and the size of the blob
table. -/
structure OndiskInodeWrapper where
  size : Nat
  chunkSize : Nat
  chunkAddrs : List RafsV6InodeChunkAddr
  blobTableLen : Nat
  deriving Repr

/-- `div_round_up`. -/
def divRoundUp (n d : Nat) : Nat := (n + d - 1) / d

namespace OndiskInodeWrapper

variable (i : OndiskInodeWrapper) (device : BlobDevice) (userIo : Bool)

/-- `chunk_addresses`: the chunk addresses from `baseIndex` on; the mapped metadata must hold
them all. -/
def chunkAddresses (baseIndex : Nat) : Outcome (List RafsV6InodeChunkAddr) :=
  let totalChunks := divRoundUp i.size i.chunkSize
  if totalChunks > 0xFFFF_FFFF ∨ totalChunks ≤ baseIndex then bail "invalid image data"
  else if i.chunkAddrs.length < totalChunks then bail "invalid image data"
  else .ok ((i.chunkAddrs.drop baseIndex).take (totalChunks - baseIndex))

/-- `make_chunk_io` out of tarfs mode; `None` becomes the caller's error. -/
def makeChunkIo (addr : RafsV6InodeChunkAddr) (contentOffset contentLen : Nat) :
    Outcome (BlobIoDesc Nat) :=
  match addr.blobIndex with
  | .ok blobIndex =>
    if blobIndex < i.blobTableLen then
      match device.createIoChunk blobIndex addr.blobCiIndex with
      | some chunk => .ok ⟨blobIndex, chunk, contentOffset, contentLen, userIo⟩
      | none => bail "failed to get chunk information"
    else bail "failed to get chunk information"
  | .error _ => bail "failed to get chunk information"

/-- The loop over the chunks after the first: each is read from its start for
`min(chunk_size, left)` bytes, a new vector starts where the blob changes, and the loop breaks
once nothing is left. Returns the finished vectors, the open one and what is left. -/
def allocRest : List RafsV6InodeChunkAddr → Nat → List (BlobIoVec Nat) → BlobIoVec Nat →
    Outcome (List (BlobIoVec Nat) × BlobIoVec Nat × Nat)
  | [], left, vec, descs => .ok (vec, descs, left)
  | c :: cs, left, vec, descs => do
    let contentLen := min i.chunkSize left
    let desc ← i.makeChunkIo device userIo c 0 contentLen
    let (vec, descs) :=
      if desc.blobIndex ≠ descs.blobIndex then (vec ++ [descs], BlobIoVec.new desc.blobIndex)
      else (vec, descs)
    let descs ← descs.push desc
    let left := left - contentLen
    if left = 0 then .ok (vec, descs, left) else allocRest cs left vec descs

/-- `OndiskInodeWrapper::alloc_bio_vecs`. -/
def allocBioVecs (offset size : Nat) : Outcome (List (BlobIoVec Nat)) := do
  let chunkSize := i.chunkSize
  if chunkSize = 0 then Outcome.panic "attempt to divide by zero"
  let headChunkIndex := offset / chunkSize
  if headChunkIndex > 0xFFFF_FFFF then
    bail "v6: invalid offset or chunk size when calculate chunk index"
  match ← i.chunkAddresses headChunkIndex with
  | [] => .ok []
  | c :: cs =>
    let contentOffset := offset % chunkSize
    if i.size < offset then Outcome.panic "attempt to subtract with overflow"
    -- `as u32`
    let left := min (i.size - offset) size % 2 ^ 32
    let contentLen := min (chunkSize - contentOffset) left
    let desc ← i.makeChunkIo device userIo c contentOffset contentLen
    let descs ← (BlobIoVec.new desc.blobIndex).push desc
    let left := left - contentLen
    let (vec, descs, left) ←
      if left ≠ 0 then i.allocRest device userIo cs left [] descs else .ok ([], descs, left)
    let vec := if descs.biVec ≠ [] then vec ++ [descs] else vec
    if left ≠ 0 then Outcome.panic "assertion `left == right` failed" else .ok vec

end OndiskInodeWrapper

/-- A chunk address of blob `blob` (stored as `blob + 1`) and chunk `ci < 2^16`. -/
def chunkAddr (blob ci : UInt16) : RafsV6InodeChunkAddr := ⟨ci, blob + 1, 0⟩

/-- A device of one blob that knows every chunk index below `count`. -/
def oneBlobDevice (count : Nat) : BlobDevice := ⟨1, fun _ ci => decide (ci < count)⟩

/-- **A whole file of 4 GiB.** Take a file of `2^32` bytes in chunks of 1 MiB, with its 4096
chunk addresses, the first in blob 0. `prefetch_inode` reads it with `offset = 0` and
`size = 2^32`; `alloc_bio_vecs` succeeds with one vector holding one descriptor of no bytes,
where the read asks for the whole file. -/
theorem allocBioVecs_whole_file_of_four_gib (rest : List RafsV6InodeChunkAddr)
    (hrest : rest.length = 4095) :
    (⟨2 ^ 32, 2 ^ 20, chunkAddr 0 0 :: rest, 1⟩ : OndiskInodeWrapper).allocBioVecs
        (oneBlobDevice 4096) false 0 (2 ^ 32) =
      .ok [⟨0, 0, [⟨0, 0, 0, 0, false⟩]⟩] := by
  have hcount : divRoundUp 4294967296 1048576 = 4096 := by decide
  have haddrs : OndiskInodeWrapper.chunkAddresses ⟨2 ^ 32, 2 ^ 20, chunkAddr 0 0 :: rest, 1⟩ 0 =
      .ok (chunkAddr 0 0 :: rest) := by
    simp [OndiskInodeWrapper.chunkAddresses, hcount, hrest]
  simp only [OndiskInodeWrapper.allocBioVecs, Nat.zero_div, haddrs]
  rfl

/-- The file of 4 GiB of zeros, whose chunks are all one deduplicated chunk. -/
theorem allocBioVecs_zero_file_of_four_gib :
    (List.replicate 4095 (chunkAddr 0 0)).length = 4095 ∧
      (⟨2 ^ 32, 2 ^ 20, chunkAddr 0 0 :: List.replicate 4095 (chunkAddr 0 0), 1⟩ :
          OndiskInodeWrapper).allocBioVecs (oneBlobDevice 4096) false 0 (2 ^ 32) =
        .ok [⟨0, 0, [⟨0, 0, 0, 0, false⟩]⟩] :=
  ⟨List.length_replicate, allocBioVecs_whole_file_of_four_gib _ List.length_replicate⟩

end Nydus.Rafs.V6
