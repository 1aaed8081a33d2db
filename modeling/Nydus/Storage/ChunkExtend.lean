import Mathlib
import Nydus.Lib.Outcome
import Nydus.Storage.ChunkArray

/-!
# Read amplification (`_add_more_chunks`, `storage/src/meta/mod.rs`)

Before it reads a region from the backend, the cache asks the compression context for more
chunks around the ones requested (`add_more_chunks`), so that one backend read fetches what
nearby reads will want. Three branches walk the chunk array, chosen by the first chunk asked
for:
* a ZRan chunk: back to the first chunk of its ZRan context, then forward over whole
  contexts while they end within `max_size` of the first chunk, less `RAFS_MAX_CHUNK_SIZE`;
* a batch member: back to the first member of its batch, then forward to the end of the
  array, stopping at the first member of a later batch and failing at a chunk in no batch;
* any other chunk: the gaps between the chunks asked for, then the chunks after the last one
  while they end within `max_size` of the first.

Chunks are given and returned by their index in the array (`BlobMetaChunk`), and what a chunk
reports is read from its entry.

`addMoreChunks_batch_then_plain_fails`: for the batch members written just before a chunk
that is in no batch, which is how the builder lays out a batch flushed by a large chunk, the
batch branch fails.
-/

namespace Nydus.Storage.Meta

open Nydus.Lib
open Nydus.Lib.Outcome (bail)
open BlobMetaChunkInfo

def rafsMaxChunkSize : Nat := 1024 * 1024 * 16

def rafsMaxChunksPerBlob : Nat := 2 ^ 24

/-- `BlobMetaChunk::new`: the chunk at `chunkIndex`. -/
def blobMetaChunkNew (chunkIndex : Nat) : Outcome Nat :=
  if chunkIndex ≤ rafsMaxChunksPerBlob then .ok chunkIndex
  else Outcome.panic "assertion failed: chunk_index <= RAFS_MAX_CHUNKS_PER_BLOB as usize"

section Extend

variable {T : Type} [BlobMetaChunkInfo T] (state : BlobCompressionContext) (arr : List T)

/-- `validate(state).is_err()`: an error is `true`, a panic goes on. -/
def validateFails (e : T) : Outcome Bool :=
  match validate state e with
  | .ok () => .ok false
  | .error (.err _) => .ok true
  | .error (.panic msg) => Outcome.panic msg

/-- `get_chunk_entry`: the entry at `index`, which must be in range and valid. -/
def getChunkEntry (index : Nat) : Outcome T := do
  if index < arr.length then
    let entry ← Outcome.get arr index
    validate state entry
    pure entry
  else Outcome.panic "assertion failed: index < chunk_info_array.len()"

/-- The `while index > 0` loops that walk back to the first chunk of a context: `goOn` on the
entry before `index` says whether that entry belongs to the context too. -/
def scanBack (goOn : T → Outcome Bool) : Nat → Outcome Nat
  | 0 => .ok 0
  | index + 1 => do
    let entry ← getChunkEntry state arr index
    if ← goOn entry then scanBack goOn index else .ok (index + 1)

/-- The step back of the ZRan branch: every chunk before must be a ZRan chunk. -/
def zranGoOn (firstZranIdx : Nat) (e : T) : Outcome Bool :=
  if !isZran e then bail "invalid ZRan compression information data"
  else do pure ((← getZranIndex e) == firstZranIdx)

/-- The step back of the batch branch: it stops at a chunk of no batch or of another batch. -/
def batchGoOn (firstBatchIdx : Nat) (e : T) : Outcome Bool :=
  if !isBatch e then pure false
  else do pure ((← getBatchIndex e) == firstBatchIdx)

/-- The forward loop of the ZRan branch over `chunk_info_array[index..]`. -/
def zranForward (batchEnd : Nat) : List T → Nat → Nat → List Nat → Outcome (List Nat)
  | [], _, _, vec => .ok vec
  | e :: rest, index, lastZranIdx, vec => do
    if (← validateFails state e) || !isZran e then
      bail "invalid ZRan compression information data"
    let zranIdx ← getZranIndex e
    if zranIdx > lastZranIdx then
      if compressedEnd e + rafsMaxChunkSize ≤ batchEnd && zranIdx == lastZranIdx + 1 then
        zranForward batchEnd rest (index + 1) (lastZranIdx + 1) (vec ++ [← blobMetaChunkNew index])
      else .ok vec
    else zranForward batchEnd rest (index + 1) lastZranIdx (vec ++ [← blobMetaChunkNew index])

/-- The forward loop of the batch branch over `chunk_info_array[index..]`. -/
def batchForward (lastBatchIdx : Nat) : List T → Nat → List Nat → Outcome (List Nat)
  | [], _, vec => .ok vec
  | e :: rest, index, vec => do
    if ← validateFails state e then
      bail "invalid Batch compression information data"
    else if !isBatch e then
      bail "non-batch chunks cannot be inside the range of batch chunks"
    else if (← getBatchIndex e) > lastBatchIdx then .ok vec
    else batchForward lastBatchIdx rest (index + 1) (vec ++ [← blobMetaChunkNew index])

/-- `chunk.compressed_offset() + chunk.compressed_size()` of a `BlobMetaChunk`. -/
def chunkCompressedEnd (id : Nat) : Outcome Nat := do
  pure (compressedEnd (← Outcome.get arr id))

/-- The valid chunks strictly between two chunks asked for. -/
def gapChunks : List Nat → Outcome (List Nat)
  | [] => .ok []
  | i :: rest => do
    let entry ← Outcome.get arr i
    let head ← if ← validateFails state entry then pure [] else pure [← blobMetaChunkNew i]
    pure (head ++ (← gapChunks rest))

/-- The loop over consecutive pairs of the chunks asked for: each chunk, then the chunks of
the gap to the next one when that one ends within `batchEnd`. -/
def fillGaps (batchEnd : Nat) : List Nat → Outcome (List Nat)
  | [] => .ok []
  | [last] => .ok [last]
  | chunk :: next :: rest => do
    let nextEnd ← chunkCompressedEnd arr next
    let gap ← if chunk + 1 != next && nextEnd ≤ batchEnd then
        gapChunks state arr (List.range' (chunk + 1) (next - (chunk + 1)))
      else pure []
    pure (chunk :: gap ++ (← fillGaps batchEnd (next :: rest)))

/-- The `while last_idx < chunk_info_array.len()` loop: the chunks after the last one asked
for, while they are valid and end within `batchEnd`; batch members are skipped. -/
def extendTail (batchEnd : Nat) : List T → Nat → List Nat → Outcome (List Nat)
  | [], _, vec => .ok vec
  | e :: rest, index, vec => do
    if (← validateFails state e) || decide (compressedEnd e > batchEnd) then .ok vec
    else
      let vec ← if !isBatch e then do pure (vec ++ [← blobMetaChunkNew index]) else pure vec
      extendTail batchEnd rest (index + 1) vec

/-- `BlobMetaChunkArray::_add_more_chunks`. -/
def addMoreChunks (chunks : List Nat) (maxSize : Nat) : Outcome (List Nat) := do
  let first ← Outcome.get chunks 0
  let batchEnd := (compressedOffset (← Outcome.get arr first)) + maxSize
  let firstEntry ← getChunkEntry state arr first
  let last ← Outcome.get chunks (chunks.length - 1)
  let lastEntry ← getChunkEntry state arr last
  if isZran firstEntry then
    let firstZranIdx ← getZranIndex firstEntry
    let lastZranIdx ← getZranIndex lastEntry
    let index ← scanBack state arr (zranGoOn firstZranIdx) first
    zranForward state batchEnd (arr.drop index) index lastZranIdx []
  else if isBatch firstEntry then
    let firstBatchIdx ← getBatchIndex firstEntry
    let lastBatchIdx ← getBatchIndex lastEntry
    if firstBatchIdx != lastBatchIdx then
      bail "a single region cannot include multiple batch chunks"
    let index ← scanBack state arr (batchGoOn firstBatchIdx) first
    batchForward state lastBatchIdx (arr.drop index) index []
  else
    let vec ← fillGaps state arr batchEnd chunks
    extendTail state batchEnd (arr.drop (last + 1)) (last + 1) vec

end Extend

/-- `BlobCompressionContext::add_more_chunks`. -/
def BlobCompressionContext.addMoreChunks (s : BlobCompressionContext) (chunks : List Nat)
    (maxSize : Nat) : Outcome (List Nat) :=
  match s.chunkInfoArray with
  | .v1 v => Meta.addMoreChunks s v chunks maxSize
  | .v2 v => Meta.addMoreChunks s v chunks maxSize

/-! ## A batch flushed by a chunk in no batch -/

/-- A compressed V2 chunk in no batch, of 4096 bytes at uncompressed page `page`, stored at
`[cOffset, cOffset + cSize)`. -/
def plainChunk (page cOffset cSize : UInt64) : BlobChunkInfoV2Ondisk :=
  ⟨chunkV2FlagCompressed ||| (0xfff <<< chunkV2UncompSizeShift) ||| page,
    cOffset ||| (cSize <<< chunkV2CompSizeShift), 0⟩

/-- One batch of a single member, written before a chunk that is in no batch. -/
def batchThenPlain : BlobCompressionContext :=
  ⟨0, 0, 200, 8192, .v2 [batchMember 0 0, plainChunk 1 100 100], [⟨0, 100⟩], []⟩

/-- Both entries pass validation, yet a request for the batch member fails whatever
`max_size` is: the batch branch walks on past the end of the batch to the chunk in no
batch. -/
theorem addMoreChunks_batch_then_plain_fails :
    (∀ e ∈ [batchMember 0 0, plainChunk 1 100 100], e.validate batchThenPlain = .ok ()) ∧
      ∀ maxSize, batchThenPlain.addMoreChunks [0] maxSize =
        bail "non-batch chunks cannot be inside the range of batch chunks" :=
  ⟨by decide, fun _ => rfl⟩

end Nydus.Storage.Meta
