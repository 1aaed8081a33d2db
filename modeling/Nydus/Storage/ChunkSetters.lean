import Mathlib
import Nydus.Lib.Outcome
import Nydus.Lib.BitField
import Nydus.Lib.FieldWrites
import Nydus.Storage.ChunkArray

/-!
# Setting the fields of a chunk entry (`chunk_info_v1.rs`, `chunk_info_v2.rs`)

The builder fills in a chunk entry through the setters of `BlobMetaChunkInfo` and of
`BlobChunkInfoV2Ondisk`; each asserts the range of its argument and writes the bits of its field.
The fields are packed: a V1 entry splits each size, minus one, into a low part of 20 bits and a
high part of 4 bits in another place of the word, and a V2 entry keeps its flags in the top byte
of the word that holds its uncompressed size.

Each getter is a read of bit fields (`Nydus.Lib.extractBits`) and each setter a write of them
(`Nydus.Lib.insertBits`), so an entry behaves as a record of its fields (`V1Fields`,
`V2Fields`): a run of setter calls on the entry is the same run on the record
(`V1Set.foldlM_fields`, `V2Set.foldlM_fields`), where each field keeps the last value written.
-/

namespace Nydus.Storage.Meta

open Nydus.Lib

/-! ## The setters -/

def blobCcV1ChunkSizeLowMask : UInt64 := 0x0f_ffff
def blobCcV1ChunkSizeHighMask : UInt64 := 0xf0_0000

namespace BlobChunkInfoV1Ondisk

variable (e : BlobChunkInfoV1Ondisk)

def setCompressedOffset (offset : Nat) : Outcome BlobChunkInfoV1Ondisk :=
  if offset.toUInt64 &&& ~~~blobCcV1ChunkCompOffsetMask = 0 then
    .ok { e with compInfo := (e.compInfo &&& ~~~blobCcV1ChunkCompOffsetMask) |||
      (offset.toUInt64 &&& blobCcV1ChunkCompOffsetMask) }
  else Outcome.panic "assertion `left == right` failed"

def setCompressedSize (size : Nat) : Outcome BlobChunkInfoV1Ondisk :=
  if size > 0 ∧ size ≤ blobCctChunkSizeMask.toNat + 1 then
    let sizeLow := ((size - 1).toUInt64 &&& blobCcV1ChunkSizeLowMask) <<< blobCcV1ChunkSizeLowShift
    let sizeHigh :=
      ((size - 1).toUInt64 &&& blobCcV1ChunkSizeHighMask) <<< blobCcV1ChunkSizeHighCompShift
    let offset := e.compInfo &&& blobCcV1ChunkCompOffsetMask
    .ok { e with compInfo := sizeLow ||| sizeHigh ||| offset }
  else Outcome.panic "assertion failed: size > 0 && size <= BLOB_CCT_CHUNK_SIZE_MASK + 1"

def setUncompressedOffset (offset : Nat) : Outcome BlobChunkInfoV1Ondisk :=
  if offset.toUInt64 &&& ~~~blobCcV1ChunkUncompOffsetMask = 0 then
    .ok { e with uncompInfo := (e.uncompInfo &&& ~~~blobCcV1ChunkUncompOffsetMask) |||
      (offset.toUInt64 &&& blobCcV1ChunkUncompOffsetMask) }
  else Outcome.panic "assertion `left == right` failed"

def setUncompressedSize (size : Nat) : Outcome BlobChunkInfoV1Ondisk :=
  if size ≠ 0 ∧ size ≤ blobCctChunkSizeMask.toNat + 1 then
    let sizeLow := ((size - 1).toUInt64 &&& blobCcV1ChunkSizeLowMask) <<< blobCcV1ChunkSizeLowShift
    let sizeHigh :=
      ((size - 1).toUInt64 &&& blobCcV1ChunkSizeHighMask) >>> blobCcV1ChunkSizeHighUncompShift
    let offset := e.uncompInfo &&& blobCcV1ChunkUncompOffsetMask
    .ok { e with uncompInfo := sizeLow ||| offset ||| sizeHigh }
  else Outcome.panic "assertion failed: size != 0 && size <= BLOB_CCT_CHUNK_SIZE_MASK + 1"

end BlobChunkInfoV1Ondisk

namespace BlobChunkInfoV2Ondisk

variable (e : BlobChunkInfoV2Ondisk)

/-- `set_compressed`, `set_encrypted`, `set_zran` and `set_batch`: one flag bit of
`uncomp_info`. -/
def setFlag (flag : UInt64) (on : Bool) : BlobChunkInfoV2Ondisk :=
  if on then { e with uncompInfo := e.uncompInfo ||| flag }
  else { e with uncompInfo := e.uncompInfo &&& ~~~flag }

def setCompressed (compressed : Bool) : BlobChunkInfoV2Ondisk :=
  e.setFlag chunkV2FlagCompressed compressed

def setEncrypted (encrypted : Bool) : BlobChunkInfoV2Ondisk :=
  e.setFlag chunkV2FlagEncrypted encrypted

def setZran (zran : Bool) : BlobChunkInfoV2Ondisk := e.setFlag chunkV2FlagZran zran

def setBatch (batch : Bool) : BlobChunkInfoV2Ondisk := e.setFlag chunkV2FlagBatch batch

/-- `set_zran_index` and `set_batch_index`: the upper half of `data`, after `assert!(flag)`. -/
def setDataHigh (flag : Bool) (msg : String) (index : Nat) : Outcome BlobChunkInfoV2Ondisk :=
  if flag then
    .ok { e with data := (e.data &&& (0x0000_0000_ffff_ffff : UInt64)) ||| (index.toUInt64 <<< 32) }
  else Outcome.panic msg

/-- `set_zran_offset` and `set_uncompressed_offset_in_batch_buf`: the lower half of `data`,
after `assert!(flag)`. -/
def setDataLow (flag : Bool) (msg : String) (offset : Nat) : Outcome BlobChunkInfoV2Ondisk :=
  if flag then
    .ok { e with data := (e.data &&& (0xffff_ffff_0000_0000 : UInt64)) ||| offset.toUInt64 }
  else Outcome.panic msg

def setZranIndex (index : Nat) : Outcome BlobChunkInfoV2Ondisk :=
  e.setDataHigh e.isZran "assertion failed: self.is_zran()" index

def setZranOffset (offset : Nat) : Outcome BlobChunkInfoV2Ondisk :=
  e.setDataLow e.isZran "assertion failed: self.is_zran()" offset

def setBatchIndex (index : Nat) : Outcome BlobChunkInfoV2Ondisk :=
  e.setDataHigh e.isBatch "assertion failed: self.is_batch()" index

def setUncompressedOffsetInBatchBuf (offset : Nat) : Outcome BlobChunkInfoV2Ondisk :=
  e.setDataLow e.isBatch "assertion failed: self.is_batch()" offset

def setCompressedOffset (offset : Nat) : Outcome BlobChunkInfoV2Ondisk :=
  if offset.toUInt64 &&& ~~~chunkV2CompOffsetMask = 0 then
    .ok { e with compInfo := (e.compInfo &&& ~~~chunkV2CompOffsetMask) |||
      (offset.toUInt64 &&& chunkV2CompOffsetMask) }
  else Outcome.panic "assertion `left == right` failed"

def setCompressedSize (size : Nat) : Outcome BlobChunkInfoV2Ondisk :=
  if size ≤ blobCctChunkSizeMask.toNat then
    .ok { e with compInfo := (e.compInfo &&& ~~~(blobCctChunkSizeMask <<< chunkV2CompSizeShift)) |||
      (size.toUInt64 <<< chunkV2CompSizeShift) }
  else Outcome.panic "assertion failed: size <= BLOB_CCT_CHUNK_SIZE_MASK"

def setUncompressedOffset (offset : Nat) : Outcome BlobChunkInfoV2Ondisk :=
  let off := (offset.toUInt64 >>> chunkV2UncompOffsetShift) &&& chunkV2UncompOffsetMask
  if offset.toUInt64 = off <<< chunkV2UncompOffsetShift then
    .ok { e with uncompInfo := (e.uncompInfo &&& ~~~chunkV2UncompOffsetMask) ||| off }
  else Outcome.panic "assertion `left == right` failed"

def setUncompressedSize (size : Nat) : Outcome BlobChunkInfoV2Ondisk :=
  if size ≠ 0 ∧ size - 1 ≤ blobCctChunkSizeMask.toNat then
    .ok { e with uncompInfo :=
      (e.uncompInfo &&& ~~~(blobCctChunkSizeMask <<< chunkV2UncompSizeShift)) |||
        ((size - 1).toUInt64 <<< chunkV2UncompSizeShift) }
  else Outcome.panic "assertion failed: size != 0 && size - 1 <= BLOB_CCT_CHUNK_SIZE_MASK"

end BlobChunkInfoV2Ondisk

/-! ## The constants, bit by bit -/

@[simp] theorem getLsbD_compOffsetMask (i : Nat) :
    chunkV2CompOffsetMask.toBitVec.getLsbD i = decide (i < 40) :=
  getLsbD_ofNat_two_pow_sub_one (n := 40) (by omega)

@[simp] theorem getLsbD_chunkSizeMask (i : Nat) :
    blobCctChunkSizeMask.toBitVec.getLsbD i = decide (i < 24) :=
  getLsbD_ofNat_two_pow_sub_one (n := 24) (by omega)

@[simp] theorem getLsbD_uncompOffsetMask (i : Nat) :
    chunkV2UncompOffsetMask.toBitVec.getLsbD i = decide (i < 32) :=
  getLsbD_ofNat_two_pow_sub_one (n := 32) (by omega)

@[simp] theorem getLsbD_lowHalf (i : Nat) :
    (4294967295#64).getLsbD i = decide (i < 32) :=
  getLsbD_ofNat_two_pow_sub_one (n := 32) (by omega)

@[simp] theorem getLsbD_highHalf (i : Nat) :
    (18446744069414584320#64).getLsbD i = decide (32 ≤ i ∧ i < 64) := by
  rw [show 18446744069414584320#64 = BitVec.ofNat 64 ((2 ^ 32 - 1) * 2 ^ 32) from rfl,
    BitVec.getLsbD_ofNat, Nat.testBit_mul_two_pow, Nat.testBit_two_pow_sub_one]
  rw [Bool.eq_iff_iff]
  simp only [Bool.and_eq_true, decide_eq_true_eq]
  omega

@[simp] theorem getLsbD_flagCompressed (i : Nat) :
    chunkV2FlagCompressed.toBitVec.getLsbD i = decide (i = 56) :=
  getLsbD_two_pow (n := 56) (by omega)

@[simp] theorem getLsbD_flagZran (i : Nat) : chunkV2FlagZran.toBitVec.getLsbD i = decide (i = 57) :=
  getLsbD_two_pow (n := 57) (by omega)

@[simp] theorem getLsbD_flagBatch (i : Nat) : chunkV2FlagBatch.toBitVec.getLsbD i = decide (i = 58) :=
  getLsbD_two_pow (n := 58) (by omega)

@[simp] theorem getLsbD_flagEncrypted (i : Nat) :
    chunkV2FlagEncrypted.toBitVec.getLsbD i = decide (i = 59) :=
  getLsbD_two_pow (n := 59) (by omega)

@[simp] theorem getLsbD_flagValid (i : Nat) :
    chunkV2FlagValid.toBitVec.getLsbD i = decide (56 ≤ i ∧ i < 60) := by
  rw [show chunkV2FlagValid.toBitVec = BitVec.ofNat 64 ((2 ^ 4 - 1) * 2 ^ 56) from rfl,
    BitVec.getLsbD_ofNat, Nat.testBit_mul_two_pow, Nat.testBit_two_pow_sub_one]
  rw [Bool.eq_iff_iff]
  simp only [Bool.and_eq_true, decide_eq_true_eq]
  omega

@[simp] theorem compSizeShift_toNat : chunkV2CompSizeShift.toNat = 40 := rfl
@[simp] theorem uncompSizeShift_toNat : chunkV2UncompSizeShift.toNat = 32 := rfl
@[simp] theorem uncompOffsetShift_toNat : chunkV2UncompOffsetShift.toNat = 12 := rfl


/-! ## Getters and setters as bit fields -/

theorem eq_insertBits {w x : UInt64} {s n v : Nat}
    (h : ∀ i < 64, x.toBitVec.getLsbD i =
      if s ≤ i ∧ i < s + n then v.testBit (i - s) else w.toBitVec.getLsbD i) :
    x = insertBits w s n v := by
  apply UInt64.toBitVec_inj.mp
  apply BitVec.eq_of_getLsbD_eq
  intro i hi
  rw [h i hi, getLsbD_insertBits]
  split_ifs <;> simp [hi]

theorem toNat_and_mask {w M : UInt64} {s n : Nat}
    (hM : ∀ i, M.toBitVec.getLsbD i = decide (s ≤ i ∧ i < s + n)) :
    (w &&& M).toNat = extractBits w s n * 2 ^ s := by
  apply toNat_eq_of_getLsbD
  intro i
  rw [UInt64.toBitVec_and, BitVec.getLsbD_and, hM, Nat.testBit_mul_two_pow, testBit_extractBits]
  by_cases hi : s ≤ i ∧ i < s + n
  · simp [hi, show i - s < n by omega, show s + (i - s) = i by omega]
  · by_cases hs : s ≤ i
    · simp [hs, show ¬i < s + n by omega, show ¬i - s < n by omega]
    · simp [hs]

theorem toNat_shiftRight_and_mask {w M : UInt64} {s n : Nat} (hM : M.toNat = 2 ^ n - 1)
    (hs : s < 64) : ((w >>> s.toUInt64) &&& M).toNat = extractBits w s n := by
  rw [UInt64.toNat_and, UInt64.toNat_shiftRight, hM, Nat.and_two_pow_sub_one_eq_mod,
    Nat.toUInt64_eq, UInt64.toNat_ofNat', Nat.mod_eq_of_lt (by omega : s < 2 ^ 64),
    Nat.mod_eq_of_lt hs, Nat.shiftRight_eq_div_pow, extractBits]

@[simp] theorem getLsbD_uint64OfNat (n i : Nat) :
    (UInt64.ofNat n).toBitVec.getLsbD i = (decide (i < 64) && n.testBit i) := by
  rw [UInt64.toBitVec_ofNat', BitVec.getLsbD_ofNat]

theorem getLsbD_ofNat_field {s n i : Nat} (h : s + n ≤ 64) :
    (BitVec.ofNat 64 ((2 ^ n - 1) * 2 ^ s)).getLsbD i = decide (s ≤ i ∧ i < s + n) := by
  rw [BitVec.getLsbD_ofNat, Nat.testBit_mul_two_pow, Nat.testBit_two_pow_sub_one, Bool.eq_iff_iff]
  simp only [Bool.and_eq_true, decide_eq_true_eq]
  omega

@[simp] theorem getLsbD_v1CompOffsetMask (i : Nat) :
    blobCcV1ChunkCompOffsetMask.toBitVec.getLsbD i = decide (i < 40) :=
  getLsbD_ofNat_two_pow_sub_one (n := 40) (by omega)

@[simp] theorem getLsbD_v1UncompOffsetMask (i : Nat) :
    blobCcV1ChunkUncompOffsetMask.toBitVec.getLsbD i = decide (12 ≤ i ∧ i < 44) :=
  getLsbD_ofNat_field (s := 12) (n := 32) (by omega)

@[simp] theorem getLsbD_v1SizeLowMask (i : Nat) :
    blobCcV1ChunkSizeLowMask.toBitVec.getLsbD i = decide (i < 20) :=
  getLsbD_ofNat_two_pow_sub_one (n := 20) (by omega)

@[simp] theorem getLsbD_v1SizeHighMask (i : Nat) :
    blobCcV1ChunkSizeHighMask.toBitVec.getLsbD i = decide (20 ≤ i ∧ i < 24) :=
  getLsbD_ofNat_field (s := 20) (n := 4) (by omega)

@[simp] theorem v1SizeLowShift_toNat : blobCcV1ChunkSizeLowShift.toNat = 44 := rfl
@[simp] theorem v1SizeHighCompShift_toNat : blobCcV1ChunkSizeHighCompShift.toNat = 20 := rfl
@[simp] theorem v1SizeHighUncompShift_toNat : blobCcV1ChunkSizeHighUncompShift.toNat = 12 := rfl

namespace BlobChunkInfoV1Ondisk

variable (e : BlobChunkInfoV1Ondisk)

theorem compressedOffset_eq : e.compressedOffset = extractBits e.compInfo 0 40 := by
  rw [compressedOffset, toNat_and_mask (s := 0) (n := 40) (fun i => by simp)]
  simp

theorem compressedSize_eq :
    e.compressedSize = 2 ^ 20 * extractBits e.compInfo 40 4 + extractBits e.compInfo 44 20 + 1 := by
  have hlow := extractBits_lt e.compInfo 44 20
  have hhigh := extractBits_lt e.compInfo 40 4
  have hfield : ∀ i, (16492674416640 : BitVec 64).getLsbD i = decide (40 ≤ i ∧ i < 44) :=
    fun i => getLsbD_ofNat_field (s := 40) (n := 4) (by omega)
  simp only [compressedSize, UInt64.toNat_toUInt32]
  rw [toNat_eq_of_getLsbD (v := 2 ^ 20 * extractBits e.compInfo 40 4 + extractBits e.compInfo 44 20),
    Nat.mod_eq_of_lt (by omega)]
  intro i
  rw [Nat.testBit_two_pow_mul_add _ hlow, testBit_extractBits, testBit_extractBits]
  simp [-BitVec.getLsbD_eq_getElem]
  grind

theorem uncompressedOffset_eq :
    e.uncompressedOffset = extractBits e.uncompInfo 12 32 * 2 ^ 12 :=
  toNat_and_mask (s := 12) (n := 32) (fun i => by simp)

theorem uncompressedSize_eq : e.uncompressedSize =
    2 ^ 20 * extractBits e.uncompInfo 8 4 + extractBits e.uncompInfo 44 20 + 1 := by
  have hlow := extractBits_lt e.uncompInfo 44 20
  have hhigh := extractBits_lt e.uncompInfo 8 4
  have hfield : ∀ i, (3840 : BitVec 64).getLsbD i = decide (8 ≤ i ∧ i < 12) :=
    fun i => getLsbD_ofNat_field (s := 8) (n := 4) (by omega)
  simp only [uncompressedSize, UInt64.toNat_toUInt32]
  rw [toNat_eq_of_getLsbD (v := 2 ^ 20 * extractBits e.uncompInfo 8 4 + extractBits e.uncompInfo 44 20),
    Nat.mod_eq_of_lt (by omega)]
  intro i
  rw [Nat.testBit_two_pow_mul_add _ hlow, testBit_extractBits, testBit_extractBits]
  simp [-BitVec.getLsbD_eq_getElem]
  grind

theorem insertBits_compOffset (w : UInt64) (o : Nat) :
    (w &&& ~~~blobCcV1ChunkCompOffsetMask) ||| (o.toUInt64 &&& blobCcV1ChunkCompOffsetMask) =
      insertBits w 0 40 o := by
  apply eq_insertBits
  intro i hi
  simp [-BitVec.getLsbD_eq_getElem]
  grind

theorem insertBits_uncompOffset (w : UInt64) (o : Nat) :
    (w &&& ~~~blobCcV1ChunkUncompOffsetMask) ||| (o.toUInt64 &&& blobCcV1ChunkUncompOffsetMask) =
      insertBits w 12 32 (o / 2 ^ 12) := by
  apply eq_insertBits
  intro i hi
  simp only [Nat.testBit_div_two_pow]
  simp [-BitVec.getLsbD_eq_getElem]
  grind

theorem insertBits_compSize (w : UInt64) (v : Nat) :
    ((v.toUInt64 &&& blobCcV1ChunkSizeLowMask) <<< blobCcV1ChunkSizeLowShift) |||
      ((v.toUInt64 &&& blobCcV1ChunkSizeHighMask) <<< blobCcV1ChunkSizeHighCompShift) |||
      (w &&& blobCcV1ChunkCompOffsetMask) = insertBits (insertBits w 40 4 (v / 2 ^ 20)) 44 20 v := by
  apply eq_insertBits
  intro i hi
  simp only [getLsbD_insertBits, Nat.testBit_div_two_pow]
  simp [-BitVec.getLsbD_eq_getElem]
  grind

theorem insertBits_uncompSize (w : UInt64) (v : Nat) :
    ((v.toUInt64 &&& blobCcV1ChunkSizeLowMask) <<< blobCcV1ChunkSizeLowShift) |||
      (w &&& blobCcV1ChunkUncompOffsetMask) |||
      ((v.toUInt64 &&& blobCcV1ChunkSizeHighMask) >>> blobCcV1ChunkSizeHighUncompShift) =
      insertBits (insertBits (insertBits w 0 8 0) 8 4 (v / 2 ^ 20)) 44 20 v := by
  apply eq_insertBits
  intro i hi
  simp only [getLsbD_insertBits, Nat.testBit_div_two_pow]
  simp [-BitVec.getLsbD_eq_getElem]
  grind

end BlobChunkInfoV1Ondisk

namespace BlobChunkInfoV2Ondisk

variable (e : BlobChunkInfoV2Ondisk)

theorem compressedOffset_eq : e.compressedOffset = extractBits e.compInfo 0 40 := by
  rw [compressedOffset, toNat_and_mask (s := 0) (n := 40) (fun i => by simp)]
  simp

theorem compressedSize_eq : e.compressedSize = extractBits e.compInfo 40 24 := by
  rw [compressedSize, UInt64.toNat_toUInt32, show chunkV2CompSizeShift = (40 : Nat).toUInt64 from rfl,
    toNat_shiftRight_and_mask (n := 24) rfl (by omega),
    Nat.mod_eq_of_lt (lt_trans (extractBits_lt _ _ _) (by norm_num))]

theorem uncompressedOffset_eq :
    e.uncompressedOffset = extractBits e.uncompInfo 0 32 * 2 ^ 12 := by
  have hlt := extractBits_lt e.uncompInfo 0 32
  rw [uncompressedOffset, UInt64.toNat_shiftLeft,
    toNat_and_mask (s := 0) (n := 32) (fun i => by simp), uncompOffsetShift_toNat,
    Nat.shiftLeft_eq]
  simp only [Nat.reduceMod]
  omega

theorem uncompressedSize_eq : e.uncompressedSize = extractBits e.uncompInfo 32 24 + 1 := by
  rw [uncompressedSize, UInt64.toNat_toUInt32,
    show chunkV2UncompSizeShift = (32 : Nat).toUInt64 from rfl,
    toNat_shiftRight_and_mask (n := 24) rfl (by omega),
    Nat.mod_eq_of_lt (lt_trans (extractBits_lt _ _ _) (by norm_num))]

theorem isCompressed_eq : e.isCompressed = e.uncompInfo.toBitVec.getLsbD 56 :=
  and_flag_ne_zero getLsbD_flagCompressed

theorem isZran_eq : e.isZran = e.uncompInfo.toBitVec.getLsbD 57 :=
  and_flag_ne_zero getLsbD_flagZran

theorem isBatch_eq : e.isBatch = e.uncompInfo.toBitVec.getLsbD 58 :=
  and_flag_ne_zero getLsbD_flagBatch

theorem isEncrypted_eq : e.isEncrypted = e.uncompInfo.toBitVec.getLsbD 59 :=
  and_flag_ne_zero getLsbD_flagEncrypted

theorem setFlag_eq {f : UInt64} {k : Nat} (hf : ∀ i, f.toBitVec.getLsbD i = decide (i = k))
    (hk : k < 64) (on : Bool) :
    e.setFlag f on = { e with uncompInfo := insertBits e.uncompInfo k 1 on.toNat } := by
  rw [setFlag]
  cases on
  all_goals
    simp only [Bool.false_eq_true, if_false, if_true]
    congr 1
    apply eq_insertBits
    intro i hi
    rcases Nat.lt_trichotomy i k with h | rfl | h
    · simp [-BitVec.getLsbD_eq_getElem, hf, hi, Nat.ne_of_lt h, Nat.not_le.mpr h]
    · simp [-BitVec.getLsbD_eq_getElem, hf]
    · simp [-BitVec.getLsbD_eq_getElem, hf, hi, Nat.ne_of_gt h, Nat.not_le.mpr h]

theorem insertBits_compOffset (w : UInt64) (o : Nat) :
    (w &&& ~~~chunkV2CompOffsetMask) ||| (o.toUInt64 &&& chunkV2CompOffsetMask) =
      insertBits w 0 40 o := by
  apply eq_insertBits
  intro i hi
  by_cases h : i < 40 <;> simp [-BitVec.getLsbD_eq_getElem, h, hi]

theorem insertBits_compSize (w : UInt64) (size : Nat) :
    (w &&& ~~~(blobCctChunkSizeMask <<< chunkV2CompSizeShift)) |||
      (size.toUInt64 <<< chunkV2CompSizeShift) = insertBits w 40 24 size := by
  apply eq_insertBits
  intro i hi
  simp [-BitVec.getLsbD_eq_getElem]
  grind

theorem insertBits_uncompOffset (w : UInt64) (o : Nat) :
    (w &&& ~~~chunkV2UncompOffsetMask) |||
      ((o.toUInt64 >>> chunkV2UncompOffsetShift) &&& chunkV2UncompOffsetMask) =
      insertBits w 0 32 (o / 2 ^ 12) := by
  apply eq_insertBits
  intro i hi
  simp only [Nat.testBit_div_two_pow]
  simp [-BitVec.getLsbD_eq_getElem]
  grind

theorem insertBits_uncompSize (w : UInt64) {size : Nat} (hs : size < 2 ^ 24) :
    (w &&& ~~~(blobCctChunkSizeMask <<< chunkV2UncompSizeShift)) |||
      (size.toUInt64 <<< chunkV2UncompSizeShift) = insertBits w 32 24 size := by
  apply eq_insertBits
  intro i hi
  have hhigh := testBit_eq_false_of_lt_pow hs (i := i - 32)
  simp [-BitVec.getLsbD_eq_getElem]
  grind

theorem insertBits_dataHigh (d : UInt64) (index : Nat) :
    (d &&& (0x0000_0000_ffff_ffff : UInt64)) ||| (index.toUInt64 <<< 32) =
      insertBits d 32 32 index := by
  apply eq_insertBits
  intro i hi
  simp [-BitVec.getLsbD_eq_getElem]
  grind

theorem insertBits_dataLow (d : UInt64) {offset : Nat} (ho : offset < 2 ^ 32) :
    (d &&& (0xffff_ffff_0000_0000 : UInt64)) ||| offset.toUInt64 = insertBits d 0 32 offset := by
  apply eq_insertBits
  intro i hi
  have hhigh := testBit_eq_false_of_lt_pow ho (i := i)
  simp [-BitVec.getLsbD_eq_getElem]
  grind

end BlobChunkInfoV2Ondisk

namespace BlobChunkInfoV2Ondisk

@[simp] theorem isZran_setZran (e : BlobChunkInfoV2Ondisk) : (e.setZran true).isZran = true := by
  rw [isZran, setZran, setFlag, if_pos rfl, and_flag_ne_zero getLsbD_flagZran]
  simp

@[simp] theorem isZran_setData (e : BlobChunkInfoV2Ondisk) (d : UInt64) :
    ({ e with data := d }).isZran = e.isZran := rfl

end BlobChunkInfoV2Ondisk

theorem toUInt64_and_not_mask_eq_zero_iff {M : UInt64} {s n x : Nat}
    (hM : ∀ i, M.toBitVec.getLsbD i = decide (s ≤ i ∧ i < s + n)) (h : s + n ≤ 64)
    (hx : x < 2 ^ 64) : x.toUInt64 &&& ~~~M = 0 ↔ x % 2 ^ s = 0 ∧ x < 2 ^ (s + n) := by
  have hbits : x.toUInt64 &&& ~~~M = 0 ↔ ∀ i, i < 64 → ¬(s ≤ i ∧ i < s + n) → x.testBit i = false := by
    constructor
    · intro hz i hi hout
      have := congrArg (fun w : UInt64 => w.toBitVec.getLsbD i) hz
      simpa [-BitVec.getLsbD_eq_getElem, hM, hi, hout] using this
    · intro hb
      apply UInt64.toBitVec_inj.mp
      apply BitVec.eq_of_getLsbD_eq
      intro i hi
      by_cases hin : s ≤ i ∧ i < s + n
      · simp [-BitVec.getLsbD_eq_getElem, hM, hin]
      · simp [-BitVec.getLsbD_eq_getElem, hM, hin, hb i hi hin]
  rw [hbits]
  constructor
  · intro hb
    refine ⟨Nat.eq_of_testBit_eq fun i => ?_, Nat.lt_pow_two_of_testBit x fun i hi => ?_⟩
    · rw [Nat.testBit_mod_two_pow, Nat.zero_testBit]
      by_cases hi : i < s
      · rw [hb i (by omega) (by omega), Bool.and_false]
      · simp [hi]
    · by_cases h64 : i < 64
      · exact hb i h64 (by omega)
      · exact testBit_eq_false_of_lt_pow hx (by omega)
  · rintro ⟨hlow, hhigh⟩ i _ hout
    by_cases hi : i < s
    · have := Nat.testBit_mod_two_pow x s i
      rwa [hlow, Nat.zero_testBit, decide_eq_true hi, Bool.true_and, eq_comm] at this
    · exact testBit_eq_false_of_lt_pow hhigh (by omega)

/-! ## A V1 entry as a record of its fields -/

/-- What the getters of a V1 entry read. -/
structure V1Fields where
  compressedOffset : Nat
  compressedSize : Nat
  uncompressedOffset : Nat
  uncompressedSize : Nat
  deriving DecidableEq, Repr

def BlobChunkInfoV1Ondisk.fields (e : BlobChunkInfoV1Ondisk) : V1Fields :=
  ⟨e.compressedOffset, e.compressedSize, e.uncompressedOffset, e.uncompressedSize⟩

theorem BlobChunkInfoV1Ondisk.fields_eq (e : BlobChunkInfoV1Ondisk) : e.fields =
    ⟨extractBits e.compInfo 0 40, 2 ^ 20 * extractBits e.compInfo 40 4 + extractBits e.compInfo 44 20 + 1,
      extractBits e.uncompInfo 12 32 * 2 ^ 12,
      2 ^ 20 * extractBits e.uncompInfo 8 4 + extractBits e.uncompInfo 44 20 + 1⟩ := by
  rw [fields, compressedOffset_eq, compressedSize_eq, uncompressedOffset_eq, uncompressedSize_eq]

/-- The fields of a V1 entry. -/
inductive V1Field where
  | compressedOffset | compressedSize | uncompressedOffset | uncompressedSize
  deriving DecidableEq, Repr

/-- Two records agree on a field. -/
def V1Field.Agree : V1Field → V1Fields → V1Fields → Prop
  | compressedOffset, f, g => f.compressedOffset = g.compressedOffset
  | compressedSize, f, g => f.compressedSize = g.compressedSize
  | uncompressedOffset, f, g => f.uncompressedOffset = g.uncompressedOffset
  | uncompressedSize, f, g => f.uncompressedSize = g.uncompressedSize

/-- A call of a setter of a V1 entry, with its argument. -/
inductive V1Set where
  | compressedOffset (offset : Nat)
  | compressedSize (size : Nat)
  | uncompressedOffset (offset : Nat)
  | uncompressedSize (size : Nat)
  deriving DecidableEq, Repr

namespace V1Set

/-- The call on an entry. -/
def apply : V1Set → BlobChunkInfoV1Ondisk → Outcome BlobChunkInfoV1Ondisk
  | compressedOffset o, e => e.setCompressedOffset o
  | compressedSize s, e => e.setCompressedSize s
  | uncompressedOffset o, e => e.setUncompressedOffset o
  | uncompressedSize s, e => e.setUncompressedSize s

/-- The field the call writes. -/
def field : V1Set → V1Field
  | compressedOffset _ => .compressedOffset
  | compressedSize _ => .compressedSize
  | uncompressedOffset _ => .uncompressedOffset
  | uncompressedSize _ => .uncompressedSize

/-- The record with the call's field set to its argument. -/
def write : V1Set → V1Fields → V1Fields
  | compressedOffset o, f => { f with compressedOffset := o }
  | compressedSize s, f => { f with compressedSize := s }
  | uncompressedOffset o, f => { f with uncompressedOffset := o }
  | uncompressedSize s, f => { f with uncompressedSize := s }

/-- The call's field holds its argument. -/
def Holds : V1Set → V1Fields → Prop
  | compressedOffset o, f => f.compressedOffset = o
  | compressedSize s, f => f.compressedSize = s
  | uncompressedOffset o, f => f.uncompressedOffset = o
  | uncompressedSize s, f => f.uncompressedSize = s

/-- The setter's assertion, on its argument. -/
def Guard : V1Set → Prop
  | compressedOffset o => o < 2 ^ 40
  | compressedSize s => 0 < s ∧ s ≤ 2 ^ 24
  | uncompressedOffset o => o % 2 ^ 12 = 0 ∧ o < 2 ^ 44
  | uncompressedSize s => 0 < s ∧ s ≤ 2 ^ 24

instance (op : V1Set) : Decidable op.Guard := by
  cases op <;> unfold Guard <;> infer_instance

/-- The message of the failed assertion. -/
def message : V1Set → String
  | compressedOffset _ | uncompressedOffset _ => "assertion `left == right` failed"
  | compressedSize _ => "assertion failed: size > 0 && size <= BLOB_CCT_CHUNK_SIZE_MASK + 1"
  | uncompressedSize _ => "assertion failed: size != 0 && size <= BLOB_CCT_CHUNK_SIZE_MASK + 1"

/-- The call on the record: the setter's assertion, then the write of its field. -/
def update (op : V1Set) (f : V1Fields) : Outcome V1Fields :=
  if op.Guard then .ok (op.write f) else Outcome.panic op.message

/-- The argument fits the parameter of the setter: a `u64` offset, a `u32` size. -/
def InRange : V1Set → Prop
  | compressedOffset o => o < 2 ^ 64
  | compressedSize s => s < 2 ^ 32
  | uncompressedOffset o => o < 2 ^ 64
  | uncompressedSize s => s < 2 ^ 32

theorem inRange_of_guard {op : V1Set} (h : op.Guard) : op.InRange := by
  cases op <;> simp only [Guard, InRange] at h ⊢ <;> omega

theorem update_of_guard {op : V1Set} (h : op.Guard) (f : V1Fields) :
    op.update f = .ok (op.write f) := if_pos h

theorem update_of_not_guard {op : V1Set} (h : ¬op.Guard) (f : V1Fields) :
    op.update f = Outcome.panic op.message := if_neg h

theorem apply_map_fields {op : V1Set} (h : op.InRange) (e : BlobChunkInfoV1Ondisk) :
    (op.apply e).map BlobChunkInfoV1Ondisk.fields = op.update e.fields := by
  have hmask : blobCctChunkSizeMask.toNat + 1 = 2 ^ 24 := rfl
  cases op with
  | compressedOffset o =>
    have hiff := toUInt64_and_not_mask_eq_zero_iff (M := blobCcV1ChunkCompOffsetMask) (s := 0)
      (n := 40) (fun i => by simp) (by omega) (x := o) h
    simp only [Nat.pow_zero, Nat.mod_one, true_and, Nat.zero_add] at hiff
    simp only [apply, BlobChunkInfoV1Ondisk.setCompressedOffset,
      BlobChunkInfoV1Ondisk.insertBits_compOffset, hiff]
    by_cases hc : o < 2 ^ 40
    · rw [if_pos hc, update_of_guard (show (compressedOffset o).Guard from hc)]
      simp [write, Except.map, BlobChunkInfoV1Ondisk.fields_eq, extractBits_insertBits_self,
        extractBits_insertBits_of_ge]
      omega
    · rw [if_neg hc, update_of_not_guard (show ¬(compressedOffset o).Guard from hc)]
      rfl
  | compressedSize size =>
    simp only [apply, BlobChunkInfoV1Ondisk.setCompressedSize,
      BlobChunkInfoV1Ondisk.insertBits_compSize, hmask, gt_iff_lt]
    by_cases hc : 0 < size ∧ size ≤ 2 ^ 24
    · rw [if_pos hc, update_of_guard (show (compressedSize size).Guard from hc)]
      simp [write, Except.map, BlobChunkInfoV1Ondisk.fields_eq, extractBits_insertBits_self,
        extractBits_insertBits_of_le]
      omega
    · rw [if_neg hc, update_of_not_guard (show ¬(compressedSize size).Guard from hc)]
      rfl
  | uncompressedOffset o =>
    have hiff : _ ↔ o % 2 ^ 12 = 0 ∧ o < 2 ^ 44 := toUInt64_and_not_mask_eq_zero_iff
      (M := blobCcV1ChunkUncompOffsetMask) (s := 12) (n := 32) (fun i => by simp) (by omega) (x := o) h
    simp only [apply, BlobChunkInfoV1Ondisk.setUncompressedOffset,
      BlobChunkInfoV1Ondisk.insertBits_uncompOffset, hiff]
    by_cases hc : o % 2 ^ 12 = 0 ∧ o < 2 ^ 44
    · rw [if_pos hc, update_of_guard (show (uncompressedOffset o).Guard from hc)]
      simp [write, Except.map, BlobChunkInfoV1Ondisk.fields_eq, extractBits_insertBits_self,
        extractBits_insertBits_of_le, extractBits_insertBits_of_ge]
      omega
    · rw [if_neg hc, update_of_not_guard (show ¬(uncompressedOffset o).Guard from hc)]
      rfl
  | uncompressedSize size =>
    simp only [apply, BlobChunkInfoV1Ondisk.setUncompressedSize,
      BlobChunkInfoV1Ondisk.insertBits_uncompSize, hmask]
    by_cases hc : 0 < size ∧ size ≤ 2 ^ 24
    · rw [if_pos (show size ≠ 0 ∧ size ≤ 2 ^ 24 by omega), update_of_guard (show (uncompressedSize size).Guard from hc)]
      simp [write, Except.map, BlobChunkInfoV1Ondisk.fields_eq, extractBits_insertBits_self,
        extractBits_insertBits_of_le, extractBits_insertBits_of_ge]
      omega
    · rw [if_neg (show ¬(size ≠ 0 ∧ size ≤ 2 ^ 24) by omega), update_of_not_guard (show ¬(uncompressedSize size).Guard from hc)]
      rfl

/-- **Run.** A run of setter calls on an entry is the same run on its record. -/
theorem foldlM_fields {ops : List V1Set} (h : ∀ op ∈ ops, op.InRange) (e : BlobChunkInfoV1Ondisk) :
    (ops.foldlM (fun e (op : V1Set) => op.apply e) e).map BlobChunkInfoV1Ondisk.fields =
      ops.foldlM (fun f op => op.update f) e.fields := by
  apply foldlM_map
  intro e op hop
  exact apply_map_fields (h op hop) e

/-! ### Writes to the record -/

theorem write_write (op : V1Set) (f : V1Fields) : op.write (op.write f) = op.write f := by
  cases op <;> rfl

theorem write_comm {op op' : V1Set} (h : op.field ≠ op'.field) (f : V1Fields) :
    op.write (op'.write f) = op'.write (op.write f) := by
  cases op <;> cases op' <;> first | rfl | exact absurd rfl h

theorem holds_iff_write_eq (op : V1Set) (f : V1Fields) : op.Holds f ↔ op.write f = f := by
  cases f
  cases op <;> simp [Holds, write, eq_comm]

theorem agree_write {i : V1Field} {op : V1Set} (h : op.field ≠ i) {f g : V1Fields}
    (hg : i.Agree f g) : i.Agree f (op.write g) := by
  cases op <;> cases i <;> first | exact hg | exact absurd rfl h

theorem agree_refl (i : V1Field) (f : V1Fields) : i.Agree f f := by
  cases i <;> rfl

theorem foldlM_readBack {ops : List V1Set} (hkey : (ops.map field).Nodup)
    (hg : ∀ op ∈ ops, op.Guard) (e : BlobChunkInfoV1Ondisk) :
    ∃ e', ops.foldlM (fun e op => op.apply e) e = .ok e' ∧ (∀ op ∈ ops, op.Holds e'.fields) ∧
      ∀ i ∉ ops.map field, i.Agree e.fields e'.fields := by
  have hstep : ∀ (f : V1Fields) (op : V1Set), op.Guard → op.update f = .ok (op.write f) :=
    fun f op hop => if_pos hop
  have hrun := foldlM_eq_ok_of_guardedRun hstep (s := e.fields)
    (guardedRun_of_forall fun op hop _ => hg op hop)
  rw [← foldlM_fields (fun op hop => inRange_of_guard (hg op hop)) e, map_eq_ok] at hrun
  obtain ⟨e', he', hfields⟩ := hrun
  refine ⟨e', he', fun op hop => ?_, fun i hi => ?_⟩
  · rw [holds_iff_write_eq, hfields]
    exact holds_foldl_of_nodup write_write (fun a b f h => write_comm h f) hkey op hop
  · rw [hfields]
    exact agree_foldl_of_not_mem agree_refl (fun i a f g h hg => agree_write h hg) hi

end V1Set

/-! ## A V2 entry as a record of its fields -/

theorem uncompOffset_assert_iff {o : Nat} (ho : o < 2 ^ 64) :
    o.toUInt64 = ((o.toUInt64 >>> chunkV2UncompOffsetShift) &&& chunkV2UncompOffsetMask) <<<
      chunkV2UncompOffsetShift ↔ o % 2 ^ 12 = 0 ∧ o < 2 ^ 44 := by
  have hword : ((o.toUInt64 >>> chunkV2UncompOffsetShift) &&& chunkV2UncompOffsetMask) <<<
      chunkV2UncompOffsetShift = o.toUInt64 &&& blobCcV1ChunkUncompOffsetMask := by
    apply UInt64.toBitVec_inj.mp
    apply BitVec.eq_of_getLsbD_eq
    intro i hi
    simp [-BitVec.getLsbD_eq_getElem]
    grind
  have hsplit : o.toUInt64 = o.toUInt64 &&& blobCcV1ChunkUncompOffsetMask ↔
      o.toUInt64 &&& ~~~blobCcV1ChunkUncompOffsetMask = 0 := by
    constructor
    · intro heq
      rw [heq, UInt64.and_assoc, UInt64.and_not_self, UInt64.and_zero]
    · intro hz
      apply UInt64.toBitVec_inj.mp
      apply BitVec.eq_of_getLsbD_eq
      intro i hi
      have := congrArg (fun w : UInt64 => w.toBitVec.getLsbD i) hz
      simp [-BitVec.getLsbD_eq_getElem] at this ⊢
      grind
  rw [hword, hsplit, toUInt64_and_not_mask_eq_zero_iff (s := 12) (n := 32) (fun i => by simp)
    (by omega) ho]

/-- What the getters of a V2 entry read; the two halves of `data` are read by the ZRan and the
batch getters, each after asserting its flag. -/
structure V2Fields where
  compressedOffset : Nat
  compressedSize : Nat
  uncompressedOffset : Nat
  uncompressedSize : Nat
  compressed : Bool
  encrypted : Bool
  zran : Bool
  batch : Bool
  dataHigh : Nat
  dataLow : Nat
  deriving DecidableEq, Repr

def BlobChunkInfoV2Ondisk.fields (e : BlobChunkInfoV2Ondisk) : V2Fields :=
  ⟨e.compressedOffset, e.compressedSize, e.uncompressedOffset, e.uncompressedSize, e.isCompressed,
    e.isEncrypted, e.isZran, e.isBatch, extractBits e.data 32 32, extractBits e.data 0 32⟩

theorem BlobChunkInfoV2Ondisk.fields_eq (e : BlobChunkInfoV2Ondisk) : e.fields =
    ⟨extractBits e.compInfo 0 40, extractBits e.compInfo 40 24, extractBits e.uncompInfo 0 32 * 2 ^ 12,
      extractBits e.uncompInfo 32 24 + 1, e.uncompInfo.toBitVec.getLsbD 56,
      e.uncompInfo.toBitVec.getLsbD 59, e.uncompInfo.toBitVec.getLsbD 57,
      e.uncompInfo.toBitVec.getLsbD 58, extractBits e.data 32 32, extractBits e.data 0 32⟩ := by
  rw [fields, compressedOffset_eq, compressedSize_eq, uncompressedOffset_eq, uncompressedSize_eq,
    isCompressed_eq, isEncrypted_eq, isZran_eq, isBatch_eq]

/-- The fields of a V2 entry. -/
inductive V2Field where
  | compressedOffset | compressedSize | uncompressedOffset | uncompressedSize
  | compressed | encrypted | zran | batch | dataHigh | dataLow
  deriving DecidableEq, Repr

/-- Two records agree on a field. -/
def V2Field.Agree : V2Field → V2Fields → V2Fields → Prop
  | compressedOffset, f, g => f.compressedOffset = g.compressedOffset
  | compressedSize, f, g => f.compressedSize = g.compressedSize
  | uncompressedOffset, f, g => f.uncompressedOffset = g.uncompressedOffset
  | uncompressedSize, f, g => f.uncompressedSize = g.uncompressedSize
  | compressed, f, g => f.compressed = g.compressed
  | encrypted, f, g => f.encrypted = g.encrypted
  | zran, f, g => f.zran = g.zran
  | batch, f, g => f.batch = g.batch
  | dataHigh, f, g => f.dataHigh = g.dataHigh
  | dataLow, f, g => f.dataLow = g.dataLow

/-- A call of a setter of a V2 entry, with its argument. -/
inductive V2Set where
  | compressedOffset (offset : Nat)
  | compressedSize (size : Nat)
  | uncompressedOffset (offset : Nat)
  | uncompressedSize (size : Nat)
  | compressed (on : Bool)
  | encrypted (on : Bool)
  | zran (on : Bool)
  | batch (on : Bool)
  | zranIndex (index : Nat)
  | zranOffset (offset : Nat)
  | batchIndex (index : Nat)
  | uncompressedOffsetInBatchBuf (offset : Nat)
  deriving DecidableEq, Repr

namespace V2Set

/-- The call on an entry. -/
def apply : V2Set → BlobChunkInfoV2Ondisk → Outcome BlobChunkInfoV2Ondisk
  | compressedOffset o, e => e.setCompressedOffset o
  | compressedSize s, e => e.setCompressedSize s
  | uncompressedOffset o, e => e.setUncompressedOffset o
  | uncompressedSize s, e => e.setUncompressedSize s
  | compressed b, e => .ok (e.setCompressed b)
  | encrypted b, e => .ok (e.setEncrypted b)
  | zran b, e => .ok (e.setZran b)
  | batch b, e => .ok (e.setBatch b)
  | zranIndex i, e => e.setZranIndex i
  | zranOffset o, e => e.setZranOffset o
  | batchIndex i, e => e.setBatchIndex i
  | uncompressedOffsetInBatchBuf o, e => e.setUncompressedOffsetInBatchBuf o

/-- The field the call writes: the ZRan and the batch setters share the halves of `data`. -/
def field : V2Set → V2Field
  | compressedOffset _ => .compressedOffset
  | compressedSize _ => .compressedSize
  | uncompressedOffset _ => .uncompressedOffset
  | uncompressedSize _ => .uncompressedSize
  | compressed _ => .compressed
  | encrypted _ => .encrypted
  | zran _ => .zran
  | batch _ => .batch
  | zranIndex _ | batchIndex _ => .dataHigh
  | zranOffset _ | uncompressedOffsetInBatchBuf _ => .dataLow

/-- The record with the call's field set to its argument. -/
def write : V2Set → V2Fields → V2Fields
  | compressedOffset o, f => { f with compressedOffset := o }
  | compressedSize s, f => { f with compressedSize := s }
  | uncompressedOffset o, f => { f with uncompressedOffset := o }
  | uncompressedSize s, f => { f with uncompressedSize := s }
  | compressed b, f => { f with compressed := b }
  | encrypted b, f => { f with encrypted := b }
  | zran b, f => { f with zran := b }
  | batch b, f => { f with batch := b }
  | zranIndex i, f | batchIndex i, f => { f with dataHigh := i }
  | zranOffset o, f | uncompressedOffsetInBatchBuf o, f => { f with dataLow := o }

/-- The call's field holds its argument. -/
def Holds : V2Set → V2Fields → Prop
  | compressedOffset o, f => f.compressedOffset = o
  | compressedSize s, f => f.compressedSize = s
  | uncompressedOffset o, f => f.uncompressedOffset = o
  | uncompressedSize s, f => f.uncompressedSize = s
  | compressed b, f => f.compressed = b
  | encrypted b, f => f.encrypted = b
  | zran b, f => f.zran = b
  | batch b, f => f.batch = b
  | zranIndex i, f | batchIndex i, f => f.dataHigh = i
  | zranOffset o, f | uncompressedOffsetInBatchBuf o, f => f.dataLow = o

/-- The setter's assertion: on its argument, or for the halves of `data` on the flag of the
record it is called on. -/
def Guard : V2Set → V2Fields → Prop
  | compressedOffset o, _ => o < 2 ^ 40
  | compressedSize s, _ => s < 2 ^ 24
  | uncompressedOffset o, _ => o % 2 ^ 12 = 0 ∧ o < 2 ^ 44
  | uncompressedSize s, _ => 0 < s ∧ s ≤ 2 ^ 24
  | compressed _, _ | encrypted _, _ | zran _, _ | batch _, _ => True
  | zranIndex _, f | zranOffset _, f => f.zran = true
  | batchIndex _, f | uncompressedOffsetInBatchBuf _, f => f.batch = true

instance (op : V2Set) (f : V2Fields) : Decidable (op.Guard f) := by
  cases op <;> unfold Guard <;> infer_instance

/-- The message of the failed assertion. -/
def message : V2Set → String
  | compressedOffset _ | uncompressedOffset _ => "assertion `left == right` failed"
  | compressedSize _ => "assertion failed: size <= BLOB_CCT_CHUNK_SIZE_MASK"
  | uncompressedSize _ => "assertion failed: size != 0 && size - 1 <= BLOB_CCT_CHUNK_SIZE_MASK"
  | compressed _ | encrypted _ | zran _ | batch _ => ""
  | zranIndex _ | zranOffset _ => "assertion failed: self.is_zran()"
  | batchIndex _ | uncompressedOffsetInBatchBuf _ => "assertion failed: self.is_batch()"

/-- The call on the record: the setter's assertion, then the write of its field. -/
def update (op : V2Set) (f : V2Fields) : Outcome V2Fields :=
  if op.Guard f then .ok (op.write f) else Outcome.panic op.message

/-- The argument fits the parameter of the setter: a `u64` offset, a `u32` size or half. -/
def InRange : V2Set → Prop
  | compressedOffset o => o < 2 ^ 64
  | compressedSize s => s < 2 ^ 32
  | uncompressedOffset o => o < 2 ^ 64
  | uncompressedSize s => s < 2 ^ 32
  | compressed _ | encrypted _ | zran _ | batch _ => True
  | zranIndex i => i < 2 ^ 32
  | zranOffset o => o < 2 ^ 32
  | batchIndex i => i < 2 ^ 32
  | uncompressedOffsetInBatchBuf o => o < 2 ^ 32

instance (op : V2Set) : Decidable op.InRange := by
  cases op <;> unfold InRange <;> infer_instance

theorem update_of_guard {op : V2Set} {f : V2Fields} (h : op.Guard f) :
    op.update f = .ok (op.write f) := if_pos h

theorem update_of_not_guard {op : V2Set} {f : V2Fields} (h : ¬op.Guard f) :
    op.update f = Outcome.panic op.message := if_neg h

theorem apply_map_fields {op : V2Set} (h : op.InRange) (e : BlobChunkInfoV2Ondisk) :
    (op.apply e).map BlobChunkInfoV2Ondisk.fields = op.update e.fields := by
  have hmask : blobCctChunkSizeMask.toNat = 2 ^ 24 - 1 := rfl
  cases op with
  | compressedOffset o =>
    have hiff := toUInt64_and_not_mask_eq_zero_iff (M := chunkV2CompOffsetMask) (s := 0)
      (n := 40) (fun i => by simp) (by omega) (x := o) h
    simp only [Nat.pow_zero, Nat.mod_one, true_and, Nat.zero_add] at hiff
    simp only [apply, BlobChunkInfoV2Ondisk.setCompressedOffset,
      BlobChunkInfoV2Ondisk.insertBits_compOffset, hiff]
    by_cases hc : o < 2 ^ 40
    · rw [if_pos hc, update_of_guard (show (compressedOffset o).Guard e.fields from hc)]
      simp [write, -BitVec.getLsbD_eq_getElem, Except.map, BlobChunkInfoV2Ondisk.fields_eq,
        extractBits_insertBits_self, extractBits_insertBits_of_ge,
        ]
      omega
    · rw [if_neg hc, update_of_not_guard (show ¬(compressedOffset o).Guard e.fields from hc)]
      rfl
  | compressedSize size =>
    simp only [apply, BlobChunkInfoV2Ondisk.setCompressedSize,
      BlobChunkInfoV2Ondisk.insertBits_compSize, hmask]
    by_cases hc : size < 2 ^ 24
    · rw [if_pos (show size ≤ 2 ^ 24 - 1 by omega), update_of_guard (show (compressedSize size).Guard e.fields from hc)]
      simp [write, -BitVec.getLsbD_eq_getElem, Except.map, BlobChunkInfoV2Ondisk.fields_eq,
        extractBits_insertBits_self, extractBits_insertBits_of_le, 
        ]
      omega
    · rw [if_neg (show ¬size ≤ 2 ^ 24 - 1 by omega), update_of_not_guard (show ¬(compressedSize size).Guard e.fields from hc)]
      rfl
  | uncompressedOffset o =>
    simp only [apply, BlobChunkInfoV2Ondisk.setUncompressedOffset,
      BlobChunkInfoV2Ondisk.insertBits_uncompOffset, uncompOffset_assert_iff h]
    by_cases hc : o % 2 ^ 12 = 0 ∧ o < 2 ^ 44
    · rw [if_pos hc, update_of_guard (show (uncompressedOffset o).Guard e.fields from hc)]
      simp [write, -BitVec.getLsbD_eq_getElem, Except.map, BlobChunkInfoV2Ondisk.fields_eq,
        extractBits_insertBits_self, extractBits_insertBits_of_ge,
        getLsbD_insertBits]
      omega
    · rw [if_neg hc, update_of_not_guard (show ¬(uncompressedOffset o).Guard e.fields from hc)]
      rfl
  | uncompressedSize size =>
    simp only [apply, BlobChunkInfoV2Ondisk.setUncompressedSize, hmask]
    by_cases hc : 0 < size ∧ size ≤ 2 ^ 24
    · rw [if_pos (show size ≠ 0 ∧ size - 1 ≤ 2 ^ 24 - 1 by omega), update_of_guard (show (uncompressedSize size).Guard e.fields from hc),
        BlobChunkInfoV2Ondisk.insertBits_uncompSize _ (by omega)]
      simp [write, -BitVec.getLsbD_eq_getElem, Except.map, BlobChunkInfoV2Ondisk.fields_eq,
        extractBits_insertBits_self, extractBits_insertBits_of_le, 
        getLsbD_insertBits]
      omega
    · rw [if_neg (show ¬(size ≠ 0 ∧ size - 1 ≤ 2 ^ 24 - 1) by omega), update_of_not_guard (show ¬(uncompressedSize size).Guard e.fields from hc)]
      rfl
  -- A flag is one bit of the uncompressed word.
  | compressed on =>
    rw [apply, BlobChunkInfoV2Ondisk.setCompressed,
      BlobChunkInfoV2Ondisk.setFlag_eq _ getLsbD_flagCompressed (by omega)]
    cases on <;> simp [update, Guard, write, -BitVec.getLsbD_eq_getElem, Except.map, BlobChunkInfoV2Ondisk.fields_eq,
      extractBits_insertBits_of_le, 
      getLsbD_insertBits]
  | encrypted on =>
    rw [apply, BlobChunkInfoV2Ondisk.setEncrypted,
      BlobChunkInfoV2Ondisk.setFlag_eq _ getLsbD_flagEncrypted (by omega)]
    cases on <;> simp [update, Guard, write, -BitVec.getLsbD_eq_getElem, Except.map, BlobChunkInfoV2Ondisk.fields_eq,
      extractBits_insertBits_of_le, 
      getLsbD_insertBits]
  | zran on =>
    rw [apply, BlobChunkInfoV2Ondisk.setZran,
      BlobChunkInfoV2Ondisk.setFlag_eq _ getLsbD_flagZran (by omega)]
    cases on <;> simp [update, Guard, write, -BitVec.getLsbD_eq_getElem, Except.map, BlobChunkInfoV2Ondisk.fields_eq,
      extractBits_insertBits_of_le, 
      getLsbD_insertBits]
  | batch on =>
    rw [apply, BlobChunkInfoV2Ondisk.setBatch,
      BlobChunkInfoV2Ondisk.setFlag_eq _ getLsbD_flagBatch (by omega)]
    cases on <;> simp [update, Guard, write, -BitVec.getLsbD_eq_getElem, Except.map, BlobChunkInfoV2Ondisk.fields_eq,
      extractBits_insertBits_of_le, 
      getLsbD_insertBits]
  -- A half of data is written after the assertion on the flag.
  | zranIndex i =>
    simp only [apply, update, Guard, BlobChunkInfoV2Ondisk.setZranIndex,
      BlobChunkInfoV2Ondisk.setDataHigh, BlobChunkInfoV2Ondisk.insertBits_dataHigh,
      BlobChunkInfoV2Ondisk.isZran_eq]
    have hlt : i < 2 ^ 32 := h
    by_cases hf : e.uncompInfo.toBitVec.getLsbD 57 = true
    · simp [hf, write, -BitVec.getLsbD_eq_getElem, Except.map, BlobChunkInfoV2Ondisk.fields_eq, extractBits_insertBits_self,
        extractBits_insertBits_of_le]
      omega
    · simp only [BlobChunkInfoV2Ondisk.fields_eq, hf, Bool.false_eq_true, ↓reduceIte]
      rfl
  | zranOffset o =>
    simp only [apply, update, Guard, BlobChunkInfoV2Ondisk.setZranOffset,
      BlobChunkInfoV2Ondisk.setDataLow, BlobChunkInfoV2Ondisk.insertBits_dataLow _ h,
      BlobChunkInfoV2Ondisk.isZran_eq]
    have hlt : o < 2 ^ 32 := h
    by_cases hf : e.uncompInfo.toBitVec.getLsbD 57 = true
    · simp [hf, write, -BitVec.getLsbD_eq_getElem, Except.map, BlobChunkInfoV2Ondisk.fields_eq, extractBits_insertBits_self,
        extractBits_insertBits_of_ge]
      omega
    · simp only [BlobChunkInfoV2Ondisk.fields_eq, hf, Bool.false_eq_true, ↓reduceIte]
      rfl
  | batchIndex i =>
    simp only [apply, update, Guard, BlobChunkInfoV2Ondisk.setBatchIndex,
      BlobChunkInfoV2Ondisk.setDataHigh, BlobChunkInfoV2Ondisk.insertBits_dataHigh,
      BlobChunkInfoV2Ondisk.isBatch_eq]
    have hlt : i < 2 ^ 32 := h
    by_cases hf : e.uncompInfo.toBitVec.getLsbD 58 = true
    · simp [hf, write, -BitVec.getLsbD_eq_getElem, Except.map, BlobChunkInfoV2Ondisk.fields_eq, extractBits_insertBits_self,
        extractBits_insertBits_of_le]
      omega
    · simp only [BlobChunkInfoV2Ondisk.fields_eq, hf, Bool.false_eq_true, ↓reduceIte]
      rfl
  | uncompressedOffsetInBatchBuf o =>
    simp only [apply, update, Guard, BlobChunkInfoV2Ondisk.setUncompressedOffsetInBatchBuf,
      BlobChunkInfoV2Ondisk.setDataLow, BlobChunkInfoV2Ondisk.insertBits_dataLow _ h,
      BlobChunkInfoV2Ondisk.isBatch_eq]
    have hlt : o < 2 ^ 32 := h
    by_cases hf : e.uncompInfo.toBitVec.getLsbD 58 = true
    · simp [hf, write, -BitVec.getLsbD_eq_getElem, Except.map, BlobChunkInfoV2Ondisk.fields_eq, extractBits_insertBits_self,
        extractBits_insertBits_of_ge]
      omega
    · simp only [BlobChunkInfoV2Ondisk.fields_eq, hf, Bool.false_eq_true, ↓reduceIte]
      rfl

/-- **Run.** A run of setter calls on an entry is the same run on its record. -/
theorem foldlM_fields {ops : List V2Set} (h : ∀ op ∈ ops, op.InRange) (e : BlobChunkInfoV2Ondisk) :
    (ops.foldlM (fun e (op : V2Set) => op.apply e) e).map BlobChunkInfoV2Ondisk.fields =
      ops.foldlM (fun f op => op.update f) e.fields := by
  apply foldlM_map
  intro e op hop
  exact apply_map_fields (h op hop) e

/-! ### Writes to the record -/

theorem write_write (op : V2Set) (f : V2Fields) : op.write (op.write f) = op.write f := by
  cases op <;> rfl

theorem write_comm {op op' : V2Set} (h : op.field ≠ op'.field) (f : V2Fields) :
    op.write (op'.write f) = op'.write (op.write f) := by
  cases op <;> cases op' <;> first | rfl | exact absurd rfl h

theorem holds_iff_write_eq (op : V2Set) (f : V2Fields) : op.Holds f ↔ op.write f = f := by
  cases f
  cases op <;> simp [Holds, write, eq_comm]

theorem agree_write {i : V2Field} {op : V2Set} (h : op.field ≠ i) {f g : V2Fields}
    (hg : i.Agree f g) : i.Agree f (op.write g) := by
  cases op <;> cases i <;> first | exact hg | exact absurd rfl h

theorem agree_refl (i : V2Field) (f : V2Fields) : i.Agree f f := by
  cases i <;> rfl

theorem foldlM_readBack {ops : List V2Set} (hr : ∀ op ∈ ops, op.InRange)
    (hkey : (ops.map field).Nodup) (e : BlobChunkInfoV2Ondisk)
    (hg : GuardedRun write Guard ops e.fields) :
    ∃ e', ops.foldlM (fun e op => op.apply e) e = .ok e' ∧ (∀ op ∈ ops, op.Holds e'.fields) ∧
      ∀ i ∉ ops.map field, i.Agree e.fields e'.fields := by
  have hstep : ∀ (f : V2Fields) (op : V2Set), op.Guard f → op.update f = .ok (op.write f) :=
    fun f op hop => if_pos hop
  have hrun := foldlM_eq_ok_of_guardedRun hstep hg
  rw [← foldlM_fields hr e, map_eq_ok] at hrun
  obtain ⟨e', he', hfields⟩ := hrun
  refine ⟨e', he', fun op hop => ?_, fun i hi => ?_⟩
  · rw [holds_iff_write_eq, hfields]
    exact holds_foldl_of_nodup write_write (fun a b f h => write_comm h f) hkey op hop
  · rw [hfields]
    exact agree_foldl_of_not_mem agree_refl (fun i a f g h hg => agree_write h hg) hi

end V2Set

/-- The setters of both layouts, in any order that keeps each assertion: a run of calls writing
different fields yields an entry whose getters read back every value set and every field no
call writes as it was. For V2 the assertions of the ZRan and batch setters read the flag, so a
call of one of them has to come after its flag is set. -/
theorem chunkInfoSetters_readBack :
    (∀ (ops : List V1Set) (e : BlobChunkInfoV1Ondisk), (ops.map V1Set.field).Nodup →
      (∀ op ∈ ops, op.Guard) →
      ∃ e', ops.foldlM (fun e op => op.apply e) e = .ok e' ∧ (∀ op ∈ ops, op.Holds e'.fields) ∧
        ∀ i ∉ ops.map V1Set.field, i.Agree e.fields e'.fields) ∧
    (∀ (ops : List V2Set) (e : BlobChunkInfoV2Ondisk), (∀ op ∈ ops, op.InRange) →
      (ops.map V2Set.field).Nodup → GuardedRun V2Set.write V2Set.Guard ops e.fields →
      ∃ e', ops.foldlM (fun e op => op.apply e) e = .ok e' ∧ (∀ op ∈ ops, op.Holds e'.fields) ∧
        ∀ i ∉ ops.map V2Set.field, i.Agree e.fields e'.fields) :=
  ⟨fun _ e hkey hg => V1Set.foldlM_readBack hkey hg e,
    fun _ e hr hkey hg => V2Set.foldlM_readBack hr hkey e hg⟩

theorem chunkInfoSetters_readBack_full_entries :
    (∃ e', [V1Set.uncompressedSize 0x1000000, V1Set.compressedOffset 0xffffffffff,
        V1Set.uncompressedOffset 0xffffffff000, V1Set.compressedSize 0x100001].foldlM
        (fun e op => op.apply e) (⟨0, 0⟩ : BlobChunkInfoV1Ondisk) = .ok e' ∧
      e'.fields = ⟨0xffffffffff, 0x100001, 0xffffffff000, 0x1000000⟩) ∧
    (∃ e', [V2Set.zran true, V2Set.uncompressedSize 0x1000000, V2Set.zranIndex 3,
        V2Set.compressedSize 0xffffff, V2Set.zranOffset 5].foldlM
        (fun e op => op.apply e) (⟨0, 0, 0⟩ : BlobChunkInfoV2Ondisk) = .ok e' ∧
      e'.fields.zran = true ∧ e'.fields.uncompressedSize = 0x1000000 ∧ e'.fields.dataHigh = 3 ∧
        e'.fields.compressedSize = 0xffffff ∧ e'.fields.dataLow = 5 ∧ e'.fields.batch = false) := by
  constructor
  · obtain ⟨e', he', hholds, -⟩ := chunkInfoSetters_readBack.1 [V1Set.uncompressedSize 0x1000000,
      V1Set.compressedOffset 0xffffffffff, V1Set.uncompressedOffset 0xffffffff000,
      V1Set.compressedSize 0x100001] ⟨0, 0⟩ (by decide) (by decide)
    refine ⟨e', he', ?_⟩
    simp only [List.mem_cons, List.not_mem_nil, or_false, forall_eq_or_imp, forall_eq,
      V1Set.Holds] at hholds
    obtain ⟨h1, h2, h3, h4⟩ := hholds
    rw [← h1, ← h2, ← h3, ← h4]
  · obtain ⟨e', he', hholds, hframe⟩ :=
      chunkInfoSetters_readBack.2 [V2Set.zran true, V2Set.uncompressedSize 0x1000000,
        V2Set.zranIndex 3, V2Set.compressedSize 0xffffff, V2Set.zranOffset 5] ⟨0, 0, 0⟩
        (by decide) (by decide) (by decide)
    refine ⟨e', he', ?_⟩
    simp only [List.mem_cons, List.not_mem_nil, or_false, forall_eq_or_imp, forall_eq,
      V2Set.Holds] at hholds
    have hbatch := hframe .batch (by decide)
    simp only [V2Field.Agree] at hbatch
    exact ⟨hholds.1, hholds.2.1, hholds.2.2.1, hholds.2.2.2.1, hholds.2.2.2.2, hbatch ▸ rfl⟩

/-- The V2 setters do not run in every order: `set_zran_index` before `set_zran(true)` panics at
its assertion. -/
theorem setZranIndex_before_setZran_panics :
    [V2Set.zranIndex 1, V2Set.zran true].foldlM (fun e op => op.apply e)
      (⟨0, 0, 0⟩ : BlobChunkInfoV2Ondisk) = Outcome.panic "assertion failed: self.is_zran()" := by
  rfl

end Nydus.Storage.Meta
