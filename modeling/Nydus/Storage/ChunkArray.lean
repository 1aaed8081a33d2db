import Mathlib
import Nydus.Lib.Outcome

/-!
# The chunk information array of a blob (`storage/src/meta`)

The compression context of a data blob describes each chunk by one entry of a packed array,
in one of two on-disk layouts: `BlobChunkInfoV1Ondisk` (two little-endian `u64` words) and
`BlobChunkInfoV2Ondisk` (three: the flags sit in the top byte of `uncomp_info`, and `data`
holds the position of the chunk in its batch or its ZRan context). The trait
`BlobMetaChunkInfo` decodes an entry; `BlobMetaChunkArray` searches the array.

`_get_chunk_index_nocheck` is a binary search over the window `[left, right)` for the entry
whose range holds an address. The members of a batch share the compressed range of the
batch, so at a member that is not the first of its batch
(`get_uncompressed_offset_in_batch_buf() > 0`) the search moves left. It does so for
uncompressed addresses too, where each member owns a range of its own.

The results:
* `searchChunk_sound`: a returned index holds an entry that covers the address and is not a
  later member of a batch (`IsHit`); no order on the array is needed;
* `searchChunk_complete`: on an array sorted by uncompressed range, an entry that is a hit
  is found;
* `getChunkIndex_v1_iff`: on a V1 array, which has no batches, the lookup returns exactly the
  entry that covers the address, and fails with an error exactly when none does;
* `getChunkIndex_misses_later_batch_member`: on the two members of one V2 batch, the lookup
  of every address of the second member fails.

Addresses and sizes are `Nat`: an entry's offset has at most 44 bits and a size at most 25, so
no `u64` sum of an entry's fields wraps; the compressed end of a batch, from the offset of its
context, may, and panics. The one `u32` sum, of a ZRan offset and a size in `validate`,
panics when it overflows (`validate_zran_offset_overflows`). `validate_eq_ok_iff` lists the
checks a ZRan entry passes.
-/

namespace Nydus.Storage.Meta

open Nydus.Lib
open Nydus.Lib.Outcome (bail)

/-! ## On-disk layouts -/

def blobCctChunkSizeMask : UInt64 := 0xff_ffff

def chunkV2CompOffsetMask : UInt64 := 0xff_ffff_ffff
def chunkV2CompSizeShift : UInt64 := 40
def chunkV2UncompOffsetMask : UInt64 := 0xffff_ffff
def chunkV2UncompOffsetShift : UInt64 := 12
def chunkV2UncompSizeShift : UInt64 := 32
def chunkV2FlagCompressed : UInt64 := (0x1 : UInt64) <<< 56
def chunkV2FlagZran : UInt64 := (0x2 : UInt64) <<< 56
def chunkV2FlagBatch : UInt64 := (0x4 : UInt64) <<< 56
def chunkV2FlagEncrypted : UInt64 := (0x8 : UInt64) <<< 56
def chunkV2FlagValid : UInt64 := (0xf : UInt64) <<< 56

def blobCcV1ChunkCompOffsetMask : UInt64 := 0xff_ffff_ffff
def blobCcV1ChunkUncompOffsetMask : UInt64 := 0xfff_ffff_f000
def blobCcV1ChunkSizeLowShift : UInt64 := 44
def blobCcV1ChunkSizeHighCompShift : UInt64 := 20
def blobCcV1ChunkSizeHighUncompShift : UInt64 := 12

/-- `BlobFeatures::ZRAN` and `BlobFeatures::SEPARATE`. -/
def blobFeatureZran : UInt32 := 0x0000_0008
def blobFeatureSeparate : UInt32 := 0x0000_0010

/-- `{:x}`. -/
def hex (n : Nat) : String := String.ofList (Nat.toDigits 16 n)

structure BlobChunkInfoV1Ondisk where
  uncompInfo : UInt64
  compInfo : UInt64
  deriving DecidableEq, Repr

structure BlobChunkInfoV2Ondisk where
  uncompInfo : UInt64
  compInfo : UInt64
  data : UInt64
  deriving DecidableEq, Repr

/-- The fields of a batch context that the lookups read. -/
structure BatchInflateContext where
  compressedOffset : Nat
  compressedSize : Nat
  deriving DecidableEq, Repr

/-- The field of a ZRan context that validation reads. -/
structure ZranInflateContext where
  outSize : Nat
  deriving DecidableEq, Repr

inductive BlobMetaChunkArray where
  | v1 (chunks : List BlobChunkInfoV1Ondisk)
  | v2 (chunks : List BlobChunkInfoV2Ondisk)
  deriving DecidableEq, Repr

/-- The fields of `BlobCompressionContext` that the lookups and validation read. -/
structure BlobCompressionContext where
  blobIndex : Nat
  blobFeatures : UInt32
  compressedSize : Nat
  uncompressedSize : Nat
  chunkInfoArray : BlobMetaChunkArray
  batchInfoArray : List BatchInflateContext
  zranInfoArray : List ZranInflateContext
  deriving DecidableEq, Repr

def BlobCompressionContext.isSeparate (s : BlobCompressionContext) : Bool :=
  s.blobFeatures &&& blobFeatureSeparate != 0

/-- The trait `BlobMetaChunkInfo`: what the lookups read of one entry. The getters that
assert a flag, or that a layout leaves `unimplemented!`, may panic. -/
class BlobMetaChunkInfo (T : Type) where
  compressedOffset : T → Nat
  compressedSize : T → Nat
  uncompressedOffset : T → Nat
  uncompressedSize : T → Nat
  isEncrypted : T → Bool
  isCompressed : T → Bool
  isZran : T → Bool
  isBatch : T → Bool
  getZranIndex : T → Outcome Nat
  getZranOffset : T → Outcome Nat
  getBatchIndex : T → Outcome Nat
  getUncompressedOffsetInBatchBuf : T → Outcome Nat
  validate : BlobCompressionContext → T → Outcome Unit

namespace BlobChunkInfoV1Ondisk

variable (e : BlobChunkInfoV1Ondisk)

def compressedOffset : Nat := (e.compInfo &&& blobCcV1ChunkCompOffsetMask).toNat

def compressedSize : Nat :=
  let bit20 := e.compInfo >>> blobCcV1ChunkSizeLowShift
  let bit4 := (e.compInfo &&& 0xf0000000000) >>> blobCcV1ChunkSizeHighCompShift
  (bit4 ||| bit20).toUInt32.toNat + 1

def uncompressedOffset : Nat := (e.uncompInfo &&& blobCcV1ChunkUncompOffsetMask).toNat

def uncompressedSize : Nat :=
  let sizeHigh := (e.uncompInfo &&& 0xf00) <<< blobCcV1ChunkSizeHighUncompShift
  let sizeLow := e.uncompInfo >>> blobCcV1ChunkSizeLowShift
  (sizeHigh ||| sizeLow).toUInt32.toNat + 1

def isCompressed : Bool := e.compressedSize != e.uncompressedSize

def validate (s : BlobCompressionContext) : Outcome Unit := do
  let cEnd := e.compressedOffset + e.compressedSize
  let dEnd := e.uncompressedOffset + e.uncompressedSize
  if decide (cEnd > s.compressedSize) || decide (dEnd > s.uncompressedSize)
      || e.uncompressedSize == 0
      || (!e.isCompressed && e.uncompressedSize != e.compressedSize) then
    let blobIndex := s.blobIndex
    let cSize := s.compressedSize
    let dSize := hex s.uncompressedSize
    let cEndHex := hex cEnd
    let dEndHex := hex dEnd
    let compressed := e.isCompressed
    bail s!"invalid chunk, blob: index {blobIndex}/c_end 0x{cSize}/d_end 0x{dSize}, chunk: c_end 0x{cEndHex}/d_end 0x{dEndHex}/compressed {compressed}"

end BlobChunkInfoV1Ondisk

instance : BlobMetaChunkInfo BlobChunkInfoV1Ondisk where
  compressedOffset := BlobChunkInfoV1Ondisk.compressedOffset
  compressedSize := BlobChunkInfoV1Ondisk.compressedSize
  uncompressedOffset := BlobChunkInfoV1Ondisk.uncompressedOffset
  uncompressedSize := BlobChunkInfoV1Ondisk.uncompressedSize
  isEncrypted _ := false
  isCompressed := BlobChunkInfoV1Ondisk.isCompressed
  isZran _ := false
  isBatch _ := false
  getZranIndex _ := Outcome.panic "not implemented"
  getZranOffset _ := Outcome.panic "not implemented"
  getBatchIndex _ := Outcome.panic "not implemented"
  getUncompressedOffsetInBatchBuf _ := Outcome.panic "not implemented"
  validate s e := e.validate s

namespace BlobChunkInfoV2Ondisk

variable (e : BlobChunkInfoV2Ondisk)

def compressedOffset : Nat := (e.compInfo &&& chunkV2CompOffsetMask).toNat

def compressedSize : Nat :=
  ((e.compInfo >>> chunkV2CompSizeShift) &&& blobCctChunkSizeMask).toUInt32.toNat

def uncompressedOffset : Nat :=
  ((e.uncompInfo &&& chunkV2UncompOffsetMask) <<< chunkV2UncompOffsetShift).toNat

def uncompressedSize : Nat :=
  ((e.uncompInfo >>> chunkV2UncompSizeShift) &&& blobCctChunkSizeMask).toUInt32.toNat + 1

def isEncrypted : Bool := e.uncompInfo &&& chunkV2FlagEncrypted != 0
def isCompressed : Bool := e.uncompInfo &&& chunkV2FlagCompressed != 0
def isZran : Bool := e.uncompInfo &&& chunkV2FlagZran != 0
def isBatch : Bool := e.uncompInfo &&& chunkV2FlagBatch != 0

/-- The upper half of `data`, after `assert!(flag)`. -/
def dataHigh (flag : Bool) : Outcome Nat :=
  if flag then .ok (e.data >>> 32).toUInt32.toNat else Outcome.panic "assertion failed"

/-- The lower half of `data`, after `assert!(flag)`. -/
def dataLow (flag : Bool) : Outcome Nat :=
  if flag then .ok e.data.toUInt32.toNat else Outcome.panic "assertion failed"

def getZranIndex : Outcome Nat := e.dataHigh e.isZran
def getZranOffset : Outcome Nat := e.dataLow e.isZran
def getBatchIndex : Outcome Nat := e.dataHigh e.isBatch
def getUncompressedOffsetInBatchBuf : Outcome Nat := e.dataLow e.isBatch

def checkFlags : Nat := ((e.uncompInfo &&& ~~~chunkV2FlagValid) >>> 56).toUInt8.toNat

def validate (s : BlobCompressionContext) : Outcome Unit := do
  let cEnd := e.compressedOffset + e.compressedSize
  let dEnd := e.uncompressedOffset + e.uncompressedSize
  if decide (cEnd > s.compressedSize) || decide (dEnd > s.uncompressedSize)
      || e.uncompressedSize == 0
      || (!s.isSeparate && !e.isBatch && e.compressedSize == 0)
      || (!e.isEncrypted && !e.isCompressed && e.uncompressedSize != e.compressedSize) then
    let blobIndex := s.blobIndex
    let cSize := s.compressedSize
    let dSize := hex s.uncompressedSize
    let cEndHex := hex cEnd
    let dEndHex := hex dEnd
    let compressed := e.isCompressed
    let batch := e.isBatch
    let zran := e.isZran
    let encrypted := e.isEncrypted
    bail s!"invalid chunk, blob: index {blobIndex}/c_size 0x{cSize}/d_size 0x{dSize}, chunk: c_end 0x{cEndHex}/d_end 0x{dEndHex}/compressed {compressed} batch {batch} zran {zran} encrypted {encrypted}"
  let invalidFlags := e.checkFlags
  if invalidFlags != 0 then
    let flagsHex := hex invalidFlags
    bail s!"unknown chunk flags {flagsHex}"
  if s.blobFeatures &&& blobFeatureZran == 0 && e.isZran then
    bail "invalid chunk flag ZRan for non-ZRan blob"
  else if e.isZran then
    let index ← e.getZranIndex
    if index ≥ s.zranInfoArray.length then
      let indexHex := hex index
      let maxHex := hex s.zranInfoArray.length
      bail s!"ZRan index {indexHex} is too big, max {maxHex}"
    let ctx ← Outcome.get s.zranInfoArray index
    let offset ← e.getZranOffset
    let offsetHex := hex offset
    let sizeHex := hex e.uncompressedSize
    let outHex := hex ctx.outSize
    let invalidRange : Outcome Unit :=
      bail s!"ZRan range {offsetHex}/{sizeHex} is invalid, should be with in 0/{outHex}"
    -- `get_zran_offset() + uncompressed_size()` is a `u32` sum, reached when the offset is
    -- below `out_size`
    if offset ≥ ctx.outSize then invalidRange
    else if offset + e.uncompressedSize ≥ 2 ^ 32 then Outcome.panic "attempt to add with overflow"
    else if offset + e.uncompressedSize > ctx.outSize then invalidRange

end BlobChunkInfoV2Ondisk

instance : BlobMetaChunkInfo BlobChunkInfoV2Ondisk where
  compressedOffset := BlobChunkInfoV2Ondisk.compressedOffset
  compressedSize := BlobChunkInfoV2Ondisk.compressedSize
  uncompressedOffset := BlobChunkInfoV2Ondisk.uncompressedOffset
  uncompressedSize := BlobChunkInfoV2Ondisk.uncompressedSize
  isEncrypted := BlobChunkInfoV2Ondisk.isEncrypted
  isCompressed := BlobChunkInfoV2Ondisk.isCompressed
  isZran := BlobChunkInfoV2Ondisk.isZran
  isBatch := BlobChunkInfoV2Ondisk.isBatch
  getZranIndex := BlobChunkInfoV2Ondisk.getZranIndex
  getZranOffset := BlobChunkInfoV2Ondisk.getZranOffset
  getBatchIndex := BlobChunkInfoV2Ondisk.getBatchIndex
  getUncompressedOffsetInBatchBuf := BlobChunkInfoV2Ondisk.getUncompressedOffsetInBatchBuf
  validate s e := e.validate s

open BlobMetaChunkInfo

section Entries

variable {T : Type} [BlobMetaChunkInfo T]

def compressedEnd (e : T) : Nat := compressedOffset e + compressedSize e

def uncompressedEnd (e : T) : Nat := uncompressedOffset e + uncompressedSize e

/-- The uncompressed range of the entry holds `addr`. -/
def Covers (e : T) (addr : Nat) : Prop := uncompressedOffset e ≤ addr ∧ addr < uncompressedEnd e

instance (e : T) (addr : Nat) : Decidable (Covers e addr) :=
  inferInstanceAs (Decidable (_ ∧ _))

/-- The entry the uncompressed lookup of `addr` may return: it covers `addr`, and it is not a
member of a batch after the first. -/
def IsHit (e : T) (addr : Nat) : Prop :=
  Covers e addr ∧ (isBatch e = true → getUncompressedOffsetInBatchBuf e = .ok 0)

/-- Sorted by uncompressed offset with disjoint uncompressed ranges. -/
def UncompressedSorted (chunks : List T) : Prop :=
  chunks.Pairwise fun a b => uncompressedEnd a ≤ uncompressedOffset b

instance (chunks : List T) : Decidable (UncompressedSorted chunks) :=
  inferInstanceAs (Decidable (List.Pairwise _ _))

/-- The in-batch offset of every batch entry can be read: true of both layouts. -/
def BatchReadable (chunks : List T) : Prop :=
  ∀ e ∈ chunks, isBatch e = true → ∃ o, getUncompressedOffsetInBatchBuf e = .ok o

end Entries

/-- `v[index].f()` on whichever layout the array has; out of range it panics. -/
def BlobMetaChunkArray.read {β : Type} (a : BlobMetaChunkArray) (index : Nat)
    (f : {T : Type} → [BlobMetaChunkInfo T] → T → Outcome β) : Outcome β :=
  match a with
  | .v1 v => do f (← Outcome.get v index)
  | .v2 v => do f (← Outcome.get v index)

/-- `BlobCompressionContext::get_compressed_info`: a batch member reads the range of its
batch, any other chunk its own. -/
def BlobCompressionContext.getCompressedInfo (s : BlobCompressionContext) (chunkIndex : Nat) :
    Outcome (Nat × Nat) := do
  if ← s.chunkInfoArray.read chunkIndex fun e => pure (isBatch e) then
    let batchIndex ← s.chunkInfoArray.read chunkIndex getBatchIndex
    match s.batchInfoArray[batchIndex]? with
    | some ctx => pure (ctx.compressedOffset, ctx.compressedSize)
    | none => Outcome.panic "called `Option::unwrap()` on a `None` value"
  else
    let offset ← s.chunkInfoArray.read chunkIndex fun e => pure (BlobMetaChunkInfo.compressedOffset e)
    let size ← s.chunkInfoArray.read chunkIndex fun e => pure (BlobMetaChunkInfo.compressedSize e)
    pure (offset, size)

/-! ## The lookup -/

section Search

variable {T : Type} [BlobMetaChunkInfo T]

/-- The range `(start, end)` that the search reads at `mid`. A batch context's offset is a
`u64` of the file, so the compressed end is a `u64` sum that may overflow. -/
def readRange (state : BlobCompressionContext) (compressed : Bool) (mid : Nat) (entry : T) :
    Outcome (Nat × Nat) :=
  if compressed then do
    let (cOffset, cSize) ← state.getCompressedInfo mid
    if cOffset + cSize < 2 ^ 64 then pure (cOffset, cOffset + cSize)
    else Outcome.panic "attempt to add with overflow"
  else pure (uncompressedOffset entry, uncompressedEnd entry)

/-- Where one iteration of the search goes. -/
inductive Probe where
  /-- `right = mid` -/
  | goLeft
  /-- `left = mid + 1` -/
  | goRight
  /-- `return Ok(mid)` -/
  | found
  deriving DecidableEq, Repr

/-- The branches of one iteration on the range read at `mid`. -/
def probe (range : Nat × Nat) (addr : Nat) (entry : T) : Outcome Probe :=
  if range.1 > addr then pure .goLeft
  else if range.2 ≤ addr then pure .goRight
  else if isBatch entry then do
    -- find the first chunk in the batch
    if (← getUncompressedOffsetInBatchBuf entry) > 0 then pure .goLeft else pure .found
  else pure .found

/-- How the `while left < right` loop ends: by returning an index, or with its window empty
and the last range it read. -/
inductive SearchEnd where
  | found (index : Nat)
  | exhausted (left right start stop : Nat)
  deriving DecidableEq, Repr

/-- The loop of `_get_chunk_index_nocheck`. Its `size` is `right - left` at each test, so
`mid` is the middle of the window. -/
def searchChunk (state : BlobCompressionContext) (chunks : List T) (addr : Nat)
    (compressed : Bool) (left right start stop : Nat) : Outcome SearchEnd :=
  if left < right then do
    let mid := left + (right - left) / 2
    let entry ← Outcome.get chunks mid
    let range ← readRange state compressed mid entry
    match ← probe range addr entry with
    | .goLeft => searchChunk state chunks addr compressed left mid range.1 range.2
    | .goRight => searchChunk state chunks addr compressed (mid + 1) right range.1 range.2
    | .found => pure (.found mid)
  else pure (.exhausted left right start stop)
termination_by right - left

/-- The prefetch fallback for ZRan blobs, which may have holes: the first of the candidate
indices in range whose entry starts past `addr`. -/
def prefetchHole (chunks : List T) (addr : Nat) (candidates : List Nat) : Option Nat :=
  candidates.find? fun i =>
    match chunks[i]? with
    | some e => decide (compressedOffset e > addr)
    | none => false

/-- `BlobMetaChunkArray::_get_chunk_index_nocheck`. -/
def getChunkIndexNocheck (state : BlobCompressionContext) (chunks : List T) (addr : Nat)
    (compressed prefetch : Bool) : Outcome Nat := do
  match ← searchChunk state chunks addr compressed 0 chunks.length 0 0 with
  | .found index => pure index
  | .exhausted left right start stop =>
    match if prefetch then prefetchHole chunks addr [right, left] else none with
    | some index => pure index
    | none =>
      bail s!"failed to get chunk index, prefetch {prefetch}, left {left}, right {right}, start: {start}, end: {stop}, addr: {addr}"

end Search

/-- `BlobMetaChunkArray::get_chunk_index_nocheck`: the lookup without prefetch. -/
def BlobMetaChunkArray.getChunkIndexNocheck (a : BlobMetaChunkArray)
    (state : BlobCompressionContext) (addr : Nat) (compressed : Bool) : Outcome Nat :=
  match a with
  | .v1 v => Meta.getChunkIndexNocheck state v addr compressed false
  | .v2 v => Meta.getChunkIndexNocheck state v addr compressed false

/-- `BlobCompressionContext::get_chunk_index`: the index of the chunk that covers the
uncompressed `addr`. -/
def BlobCompressionContext.getChunkIndex (s : BlobCompressionContext) (addr : Nat) :
    Outcome Nat :=
  s.chunkInfoArray.getChunkIndexNocheck s addr false


/-! ## The uncompressed lookup -/

section Lookup

variable {T : Type} [BlobMetaChunkInfo T] {state : BlobCompressionContext} {chunks : List T}
  {addr : Nat}

theorem UncompressedSorted.end_le {i j : Nat} {a b : T} (hs : UncompressedSorted chunks)
    (ha : chunks[i]? = some a) (hb : chunks[j]? = some b) (hij : i < j) :
    uncompressedEnd a ≤ uncompressedOffset b := by
  obtain ⟨hi, rfl⟩ := List.getElem?_eq_some_iff.mp ha
  obtain ⟨hj, rfl⟩ := List.getElem?_eq_some_iff.mp hb
  exact List.pairwise_iff_getElem.mp hs i j hi hj hij

theorem offset_le_end (e : T) : uncompressedOffset e ≤ uncompressedEnd e :=
  Nat.le_add_right _ _

@[simp] theorem readRange_uncompressed (mid : Nat) (e : T) :
    readRange state false mid e = .ok (uncompressedOffset e, uncompressedEnd e) := rfl

theorem probe_goLeft {range : Nat × Nat} {e : T} (h : addr < range.1) :
    probe range addr e = .ok .goLeft := by
  simp [probe, h]

theorem probe_goRight {range : Nat × Nat} {e : T} (h₁ : range.1 ≤ addr) (h₂ : range.2 ≤ addr) :
    probe range addr e = .ok .goRight := by
  simp [probe, Nat.not_lt.mpr h₁, h₂]

theorem probe_eq_found {range : Nat × Nat} {e : T} :
    probe range addr e = .ok .found ↔
      range.1 ≤ addr ∧ addr < range.2 ∧
        (isBatch e = true → getUncompressedOffsetInBatchBuf e = .ok 0) := by
  unfold probe
  by_cases h₁ : range.1 > addr
  · simp [h₁]
  by_cases h₂ : range.2 ≤ addr
  · simp [h₁, h₂]
  have hin : range.1 ≤ addr ∧ addr < range.2 := by omega
  simp only [h₁, h₂, if_false, hin, true_and]
  -- inside the range: the batch test decides
  cases hb : isBatch e
  · simp
  · cases hget : getUncompressedOffsetInBatchBuf e with
    | error f => simp [bind, Except.bind]
    | ok o =>
      by_cases ho : o > 0
      · simp [ho]
        omega
      · simp [ho]
        omega

theorem probe_ok {range : Nat × Nat} {e : T}
    (hb : isBatch e = true → ∃ o, getUncompressedOffsetInBatchBuf e = .ok o) :
    ∃ p, probe range addr e = .ok p := by
  unfold probe
  split
  · exact ⟨_, rfl⟩
  split
  · exact ⟨_, rfl⟩
  split
  · rename_i hbatch
    obtain ⟨o, ho⟩ := hb hbatch
    rw [ho, ok_bind]
    split <;> exact ⟨_, rfl⟩
  · exact ⟨_, rfl⟩

theorem window_induction {motive : Nat → Nat → Prop}
    (empty : ∀ left right, right ≤ left → motive left right)
    (halves : ∀ left right, left < right →
      motive left (left + (right - left) / 2) → motive (left + (right - left) / 2 + 1) right →
        motive left right)
    (left right : Nat) : motive left right := by
  induction h : right - left using Nat.strong_induction_on generalizing left right with
  | _ n ih =>
    by_cases hlt : left < right
    · exact halves left right hlt (ih _ (by omega) _ _ rfl) (ih _ (by omega) _ _ rfl)
    · exact empty left right (by omega)

theorem searchChunk_found {compressed : Bool} {i : Nat} (left right start stop : Nat)
    (h : searchChunk state chunks addr compressed left right start stop = .ok (.found i)) :
    ∃ e range, chunks[i]? = some e ∧ readRange state compressed i e = .ok range ∧
      probe range addr e = .ok .found := by
  induction left, right using window_induction generalizing start stop with
  | empty left right hle =>
    rw [searchChunk, if_neg (by omega)] at h
    cases h
  | halves left right hlt ihl ihr =>
    rw [searchChunk, if_pos hlt] at h
    simp only [bind_eq_ok] at h
    obtain ⟨e, he, range, hr, p, hp, h⟩ := h
    cases p with
    | goLeft => exact ihl _ _ h
    | goRight => exact ihr _ _ h
    | found =>
      cases h
      exact ⟨e, range, Outcome.get_eq_ok.mp he, hr, hp⟩

/-- **Soundness.** An index the uncompressed search returns holds a hit; this needs no order
on the array. -/
theorem searchChunk_sound {i : Nat} (left right start stop : Nat)
    (h : searchChunk state chunks addr false left right start stop = .ok (.found i)) :
    ∃ e, chunks[i]? = some e ∧ IsHit e addr := by
  obtain ⟨e, range, he, hr, hp⟩ := searchChunk_found left right start stop h
  rw [readRange_uncompressed, Except.ok.injEq] at hr
  subst hr
  obtain ⟨h₁, h₂, hb⟩ := probe_eq_found.mp hp
  exact ⟨e, he, ⟨h₁, h₂⟩, hb⟩

theorem searchChunk_eq_of_range {compressed : Bool} {left right start stop : Nat} {e : T}
    {range : Nat × Nat} (hlt : left < right) (he : chunks[left + (right - left) / 2]? = some e)
    (hr : readRange state compressed (left + (right - left) / 2) e = .ok range) :
    searchChunk state chunks addr compressed left right start stop =
      probe range addr e >>= fun p =>
        match p with
        | .goLeft => searchChunk state chunks addr compressed left (left + (right - left) / 2)
            range.1 range.2
        | .goRight => searchChunk state chunks addr compressed (left + (right - left) / 2 + 1) right
            range.1 range.2
        | .found => .ok (.found (left + (right - left) / 2)) := by
  rw [searchChunk, if_pos hlt]
  simp only [Outcome.get, he, ok_bind, hr]
  rfl

theorem searchChunk_eq {left right start stop : Nat} {e : T} (hlt : left < right)
    (he : chunks[left + (right - left) / 2]? = some e) :
    searchChunk state chunks addr false left right start stop =
      probe (uncompressedOffset e, uncompressedEnd e) addr e >>= fun p =>
        match p with
        | .goLeft => searchChunk state chunks addr false left (left + (right - left) / 2)
            (uncompressedOffset e) (uncompressedEnd e)
        | .goRight => searchChunk state chunks addr false (left + (right - left) / 2 + 1) right
            (uncompressedOffset e) (uncompressedEnd e)
        | .found => .ok (.found (left + (right - left) / 2)) :=
  searchChunk_eq_of_range hlt he (readRange_uncompressed _ _)

/-- **Completeness.** On a sorted array, the search over a window that holds a hit returns
it. The hit stays in the window: an entry left of it ends before it starts, and an entry right
of it starts after it ends. -/
theorem searchChunk_complete (hs : UncompressedSorted chunks) {k : Nat} {e : T}
    (hk : chunks[k]? = some e) (hit : IsHit e addr) (left right start stop : Nat)
    (hl : left ≤ k) (hr : k < right) (hlen : right ≤ chunks.length) :
    searchChunk state chunks addr false left right start stop = .ok (.found k) := by
  induction left, right using window_induction generalizing start stop with
  | empty left right hle => omega
  | halves left right hlt ihl ihr =>
    have hmid : left + (right - left) / 2 < chunks.length := by omega
    obtain ⟨m, hm⟩ : ∃ m, chunks[left + (right - left) / 2]? = some m :=
      ⟨_, List.getElem?_eq_getElem hmid⟩
    obtain ⟨⟨h₁, h₂⟩, hb⟩ := hit
    rw [searchChunk_eq hlt hm]
    rcases Nat.lt_trichotomy (left + (right - left) / 2) k with hlt' | heq | hgt
    · have hend := hs.end_le hm hk hlt'
      rw [probe_goRight (by have := offset_le_end m; simp only; omega) (by simp only; omega),
        ok_bind]
      exact ihr _ _ (by omega) hr hlen
    · rw [heq, hk, Option.some.injEq] at hm
      subst hm
      rw [probe_eq_found.mpr ⟨h₁, h₂, hb⟩, ok_bind, heq]
    · have hend := hs.end_le hk hm hgt
      rw [probe_goLeft (by simp only; omega), ok_bind]
      exact ihl _ _ hl (by omega) (by omega)

theorem searchChunk_ok_of_read {compressed : Bool} (hb : BatchReadable chunks)
    (hread : ∀ i e, chunks[i]? = some e → ∃ range, readRange state compressed i e = .ok range)
    (left right start stop : Nat) (hlen : right ≤ chunks.length) :
    ∃ r, searchChunk state chunks addr compressed left right start stop = .ok r := by
  induction left, right using window_induction generalizing start stop with
  | empty left right hle =>
    rw [searchChunk, if_neg (by omega)]
    exact ⟨_, rfl⟩
  | halves left right hlt ihl ihr =>
    obtain ⟨m, hm⟩ : ∃ m, chunks[left + (right - left) / 2]? = some m :=
      ⟨_, List.getElem?_eq_getElem (by omega)⟩
    obtain ⟨range, hr⟩ := hread _ m hm
    obtain ⟨p, hp⟩ : ∃ p, probe range addr m = .ok p := probe_ok (hb m (List.mem_of_getElem? hm))
    rw [searchChunk_eq_of_range hlt hm hr, hp, ok_bind]
    cases p with
    | goLeft => exact ihl _ _ (by omega)
    | goRight => exact ihr _ _ hlen
    | found => exact ⟨_, rfl⟩

theorem searchChunk_ok (hb : BatchReadable chunks) (left right start stop : Nat)
    (hlen : right ≤ chunks.length) :
    ∃ r, searchChunk state chunks addr false left right start stop = .ok r :=
  searchChunk_ok_of_read hb (fun i e _ => ⟨_, readRange_uncompressed i e⟩) left right start stop hlen

theorem getChunkIndexNocheck_sound {i : Nat}
    (h : getChunkIndexNocheck state chunks addr false false = .ok i) :
    ∃ e, chunks[i]? = some e ∧ IsHit e addr := by
  simp only [getChunkIndexNocheck, bind_eq_ok] at h
  obtain ⟨r, hr, h⟩ := h
  cases r with
  | found index =>
    cases h
    exact searchChunk_sound _ _ _ _ hr
  | exhausted => simp [bail] at h

theorem getChunkIndexNocheck_complete (hs : UncompressedSorted chunks) {k : Nat} {e : T}
    (hk : chunks[k]? = some e) (hit : IsHit e addr) :
    getChunkIndexNocheck state chunks addr false false = .ok k := by
  have hlt : k < chunks.length := (List.getElem?_eq_some_iff.mp hk).1
  rw [getChunkIndexNocheck,
    searchChunk_complete hs hk hit 0 _ 0 0 (Nat.zero_le k) hlt (Nat.le_refl _)]
  rfl

theorem getChunkIndexNocheck_no_hit (hb : BatchReadable chunks)
    (hnone : ∀ (k : Nat) (e : T), chunks[k]? = some e → ¬ IsHit e addr) :
    ∃ msg, getChunkIndexNocheck state chunks addr false false = bail msg := by
  have hok : ∃ r, searchChunk state chunks addr false 0 chunks.length 0 0 = .ok r :=
    searchChunk_ok hb 0 chunks.length 0 0 (Nat.le_refl _)
  obtain ⟨r, hr⟩ := hok
  cases r with
  | found i =>
    obtain ⟨e, he, hit⟩ := searchChunk_sound _ _ _ _ hr
    exact absurd hit (hnone i e he)
  | exhausted =>
    rw [getChunkIndexNocheck, hr]
    exact ⟨_, rfl⟩

end Lookup

/-! ## The two layouts -/

section V1

variable {v : List BlobChunkInfoV1Ondisk} {addr : Nat}

theorem isHit_v1_iff {e : BlobChunkInfoV1Ondisk} : IsHit e addr ↔ Covers e addr := by
  simp [IsHit, isBatch]

theorem batchReadable_v1 : BatchReadable v := by
  intro e _ h
  cases h

end V1

theorem batchReadable_v2 (v : List BlobChunkInfoV2Ondisk) : BatchReadable v := by
  intro e _ h
  exact ⟨_, if_pos h⟩

/-- **The lookup on V1 arrays.** On a V1 array sorted by uncompressed range, `get_chunk_index`
returns exactly the index of the entry that covers the address, and fails with an error when
none does. -/
theorem getChunkIndex_v1_iff {s : BlobCompressionContext} {v : List BlobChunkInfoV1Ondisk}
    (harr : s.chunkInfoArray = .v1 v) (hs : UncompressedSorted v) (addr : Nat) :
    (∀ i, s.getChunkIndex addr = .ok i ↔ ∃ e, v[i]? = some e ∧ Covers e addr) ∧
      ((∀ e ∈ v, ¬ Covers e addr) → ∃ msg, s.getChunkIndex addr = bail msg) := by
  have hlookup : s.getChunkIndex addr = getChunkIndexNocheck s v addr false false := by
    rw [BlobCompressionContext.getChunkIndex, harr]
    rfl
  rw [hlookup]
  refine ⟨fun i => ⟨fun h => ?_, fun ⟨e, he, hc⟩ => ?_⟩, fun hnone => ?_⟩
  · obtain ⟨e, he, hit⟩ := getChunkIndexNocheck_sound h
    exact ⟨e, he, isHit_v1_iff.mp hit⟩
  · exact getChunkIndexNocheck_complete hs he (isHit_v1_iff.mpr hc)
  · exact getChunkIndexNocheck_no_hit batchReadable_v1
      fun k e he hit => hnone e (List.mem_of_getElem? he) (isHit_v1_iff.mp hit)

/-- An uncompressed V1 chunk of 4096 bytes at page `page` of the blob, in both ranges. -/
def v1Chunk (page : UInt64) : BlobChunkInfoV1Ondisk :=
  ⟨(page <<< 12) ||| (0xfff <<< blobCcV1ChunkSizeLowShift),
    (page <<< 12) ||| (0xfff <<< blobCcV1ChunkSizeLowShift)⟩

/-- A blob of two V1 chunks. -/
def v1TwoChunks : BlobCompressionContext :=
  ⟨0, 0, 8192, 8192, .v1 [v1Chunk 0, v1Chunk 1], [], []⟩

theorem getChunkIndex_v1_two_chunks :
    v1TwoChunks.chunkInfoArray = .v1 [v1Chunk 0, v1Chunk 1] ∧
      UncompressedSorted [v1Chunk 0, v1Chunk 1] ∧
      ((∀ i, v1TwoChunks.getChunkIndex 5000 = .ok i ↔
          ∃ e, [v1Chunk 0, v1Chunk 1][i]? = some e ∧ Covers e 5000) ∧
        ((∀ e ∈ [v1Chunk 0, v1Chunk 1], ¬ Covers e 5000) →
          ∃ msg, v1TwoChunks.getChunkIndex 5000 = bail msg)) := by
  have hs : UncompressedSorted [v1Chunk 0, v1Chunk 1] := by decide
  exact ⟨rfl, hs, getChunkIndex_v1_iff rfl hs 5000⟩

/-! ## A batch in a V2 array -/

/-- A member of batch 0 as `BatchContextGenerator::generate_chunk_info` writes it: compressed,
in a batch, with no compressed range of its own; 4096 bytes at uncompressed page `page`, at
`offsetInBatch` in the buffer of the batch. -/
def batchMember (page offsetInBatch : UInt64) : BlobChunkInfoV2Ondisk :=
  ⟨chunkV2FlagCompressed ||| chunkV2FlagBatch ||| (0xfff <<< chunkV2UncompSizeShift) ||| page,
    0, offsetInBatch⟩

/-- The two members of a batch of 100 compressed bytes, at pages 0 and 1. -/
def twoMemberBatch : BlobCompressionContext :=
  ⟨0, 0, 100, 8192, .v2 [batchMember 0 0, batchMember 1 4096], [⟨0, 100⟩], []⟩

/-- Both members pass validation, the array is sorted with disjoint ranges, and the second
member covers every address of `[4096, 8192)`; yet `get_chunk_index` fails on each of them.
At the second member the search sees a later member of a batch and moves left, past the only
entry that covers the address. -/
theorem getChunkIndex_misses_later_batch_member :
    (∀ e ∈ [batchMember 0 0, batchMember 1 4096], e.validate twoMemberBatch = .ok ()) ∧
      UncompressedSorted [batchMember 0 0, batchMember 1 4096] ∧
      ∀ addr, 4096 ≤ addr → addr < 8192 →
        Covers (batchMember 1 4096) addr ∧ ∃ msg, twoMemberBatch.getChunkIndex addr = bail msg := by
  have hvalid : ∀ e ∈ [batchMember 0 0, batchMember 1 4096], e.validate twoMemberBatch = .ok () := by
    decide
  have hs : UncompressedSorted [batchMember 0 0, batchMember 1 4096] := by decide
  have hend₀ : uncompressedEnd (batchMember 0 0) = 4096 := by decide
  have hoff₁ : uncompressedOffset (batchMember 1 4096) = 4096 := by decide
  have hend₁ : uncompressedEnd (batchMember 1 4096) = 8192 := by decide
  have hbatch₁ : getUncompressedOffsetInBatchBuf (batchMember 1 4096) = .ok 4096 := by decide
  refine ⟨hvalid, hs, fun addr hlo hhi => ⟨⟨by omega, by omega⟩, ?_⟩⟩
  -- no entry is a hit: the first ends at 4096, the second is a later member of the batch
  have hnone : ∀ (k : Nat) (e : BlobChunkInfoV2Ondisk),
      [batchMember 0 0, batchMember 1 4096][k]? = some e → ¬ IsHit e addr := by
    rintro (_ | _ | k) e hk ⟨⟨h₁, h₂⟩, hb⟩
    · cases hk
      omega
    · cases hk
      have := hb (by decide)
      rw [hbatch₁] at this
      cases this
    · cases hk
  exact getChunkIndexNocheck_no_hit (batchReadable_v2 _) hnone

/-! ## Validation of a V2 entry -/

namespace BlobChunkInfoV2Ondisk

/-- `validate` of a ZRan entry succeeds exactly when each of its checks passes. -/
theorem validate_eq_ok_iff {s : BlobCompressionContext} {e : BlobChunkInfoV2Ondisk}
    (hz : e.isZran = true) :
    e.validate s = .ok () ↔
      e.compressedOffset + e.compressedSize ≤ s.compressedSize ∧
      e.uncompressedOffset + e.uncompressedSize ≤ s.uncompressedSize ∧
      e.uncompressedSize ≠ 0 ∧
      (s.isSeparate = false ∧ e.isBatch = false → e.compressedSize ≠ 0) ∧
      (e.isEncrypted = false ∧ e.isCompressed = false → e.uncompressedSize = e.compressedSize) ∧
      e.checkFlags = 0 ∧ s.blobFeatures &&& blobFeatureZran ≠ 0 ∧
      ∃ index offset ctx, e.getZranIndex = .ok index ∧ e.getZranOffset = .ok offset ∧
        s.zranInfoArray[index]? = some ctx ∧ offset < ctx.outSize ∧
        offset + e.uncompressedSize < 2 ^ 32 ∧ offset + e.uncompressedSize ≤ ctx.outSize := by
  unfold validate
  simp only [Outcome.bail, Outcome.panic, error_bind, ite_error_eq_ok, hz, if_true,
    Bool.and_true, bind_eq_ok, Outcome.get_eq_ok, pure_eq_ok, Bool.or_eq_true,
    decide_eq_true_eq, not_or, Bool.and_eq_true, beq_iff_eq, bne_iff_ne, ne_eq, not_and, not_not,
    Bool.not_eq_eq_eq_not, Bool.not_true, not_le, not_lt, ge_iff_le, gt_iff_lt, and_true]
  constructor
  · rintro ⟨⟨⟨⟨⟨hc, hd⟩, hus⟩, hsep⟩, henc⟩, hflags, hfeat, index, hindex, -, ctx, hctx, offset,
      hoffset, hlt, hov, hle⟩
    exact ⟨hc, hd, hus, hsep, henc, hflags, hfeat, index, offset, ctx, hindex, hoffset, hctx, hlt,
      hov, hle⟩
  · rintro ⟨hc, hd, hus, hsep, henc, hflags, hfeat, index, offset, ctx, hindex, hoffset, hctx, hlt,
      hov, hle⟩
    exact ⟨⟨⟨⟨⟨hc, hd⟩, hus⟩, hsep⟩, henc⟩, hflags, hfeat, index, hindex,
      (List.getElem?_eq_some_iff.mp hctx).1, ctx, hctx, offset, hoffset, hlt, hov, hle⟩

/-- A compressed ZRan entry of `0x2000` bytes at offset `zranOffset` of ZRan context 0, whose
compressed bytes are the blob's first `0x100`. -/
def zranEntry (zranOffset : UInt64) : BlobChunkInfoV2Ondisk :=
  ⟨chunkV2FlagCompressed ||| chunkV2FlagZran ||| (0x1fff <<< chunkV2UncompSizeShift),
    0x100 <<< chunkV2CompSizeShift, zranOffset⟩

/-- A ZRan blob of `0x2000` bytes with one ZRan context of `0xffff_ffff` output bytes. -/
def wideZranBlob : BlobCompressionContext :=
  ⟨0, blobFeatureZran, 0x100, 0x2000, .v2 [zranEntry 0xffff_f000], [], [⟨0xffff_ffff⟩]⟩

/-- The entry at ZRan offset `0xffff_f000` passes every check before the range check, and its
offset is below the context's output size, so `validate` adds the offset and the size in
`u32`: `0xffff_f000 + 0x2000` overflows. -/
theorem validate_zran_offset_overflows :
    (zranEntry 0xffff_f000).validate wideZranBlob =
      Outcome.panic "attempt to add with overflow" := by
  decide

end BlobChunkInfoV2Ondisk

end Nydus.Storage.Meta
