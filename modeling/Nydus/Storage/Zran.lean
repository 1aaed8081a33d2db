import Mathlib
import Nydus.Lib.Outcome
import Nydus.Storage.ChunkArray
import Nydus.Storage.ChunkSetters
import Nydus.Storage.MetaFile
import Nydus.Storage.IoRegion
import Nydus.Utils.ZlibRandom

/-!
# ZRan chunk information (`ZranContextGenerator`, `storage/src/meta/zran.rs`)

When the builder converts a gzip-compressed tarball without recompressing it, each chunk is a
slice of the decompressed stream, read between `start_chunk` and `finish_chunk` of a
`ZranContextGenerator`. `finish_chunk` packs what `end_read` returns into a V2 chunk entry
with the ZRan flag: the compressed range of the chunk in the gzip stream, its ZRan context and
its offset in the context's output. `to_vec` writes the contexts as `ZranInflateContext`
records, which the runtime maps and reads back, and against which it validates each entry.

The setters of `BlobChunkInfoV2Ondisk` are modelled on its `u64` words, and
`finishChunk_ok` decodes the entry `finish_chunk` builds.
-/

namespace Nydus.Storage.Meta

open Nydus.Lib BlobMetaChunkInfo
open Nydus.Lib.Outcome (bail)
open Nydus.Utils.ZlibRandom

namespace BlobChunkInfoV2Ondisk

/-- The entry `finish_chunk` fills in, from `BlobChunkInfoV2Ondisk::default()`. -/
def zranChunk (compressedOffset compressedSize uncompressedOffset uncompressedSize zranIndex
    zranOffset : Nat) : Outcome BlobChunkInfoV2Ondisk := do
  let chunk : BlobChunkInfoV2Ondisk := ⟨0, 0, 0⟩
  let chunk ← chunk.setCompressedOffset compressedOffset
  let chunk ← chunk.setCompressedSize compressedSize
  let chunk ← chunk.setUncompressedOffset uncompressedOffset
  let chunk ← chunk.setUncompressedSize uncompressedSize
  let chunk := chunk.setZran true
  let chunk ← chunk.setZranIndex zranIndex
  let chunk ← chunk.setZranOffset zranOffset
  let chunk := chunk.setCompressed true
  pure (chunk.setEncrypted false)

/-! ## Decoding the entry -/

/-- What an entry reads back as through the getters of `BlobMetaChunkInfo`: a compressed,
unencrypted ZRan chunk outside any batch, with no unknown flag. -/
structure ReadsAs (e : BlobChunkInfoV2Ondisk) (co cs uo us zi zo : Nat) : Prop where
  compressedOffset : e.compressedOffset = co
  compressedSize : e.compressedSize = cs
  uncompressedOffset : e.uncompressedOffset = uo
  uncompressedSize : e.uncompressedSize = us
  isZran : e.isZran = true
  isCompressed : e.isCompressed = true
  isEncrypted : e.isEncrypted = false
  isBatch : e.isBatch = false
  checkFlags : e.checkFlags = 0
  getZranIndex : e.getZranIndex = .ok zi
  getZranOffset : e.getZranOffset = .ok zo

theorem zranChunk_readsAs {co cs uo us zi zo : Nat} {e : BlobChunkInfoV2Ondisk}
    (h : zranChunk co cs uo us zi zo = .ok e) (hco : co < 2 ^ 64) (huo : uo < 2 ^ 64)
    (hzi : zi < 2 ^ 32) (hzo : zo < 2 ^ 32) :
    co < 2 ^ 40 ∧ cs < 2 ^ 24 ∧ 0 < us ∧ us ≤ 2 ^ 24 ∧ e.ReadsAs co cs uo us zi zo := by
  simp only [zranChunk, setCompressedOffset, setCompressedSize, setUncompressedOffset,
    setUncompressedSize, setZranIndex, setZranOffset, setDataHigh, setDataLow, bind_eq_ok, pure_eq_ok, Outcome.panic,
    ite_ok_eq_ok, isZran_setZran, true_and] at h
  obtain ⟨_, ⟨hco', rfl⟩, _, ⟨hcs, rfl⟩, _, ⟨huo', rfl⟩, _, ⟨⟨hus0, hus⟩, rfl⟩, _, rfl, _, ⟨-, rfl⟩,
    he⟩ := h
  obtain rfl := Except.ok.inj he
  have hco40 : co < 2 ^ 40 := by
    apply Nat.lt_pow_two_of_testBit
    intro i hi
    have hb := congrArg (fun x : UInt64 => x.toBitVec.getLsbD i) hco'
    simp only [UInt64.toBitVec_and, UInt64.toBitVec_not, BitVec.getLsbD_and, BitVec.getLsbD_not,
      getLsbD_toUInt64, getLsbD_compOffsetMask, UInt64.toBitVec_zero, BitVec.getLsbD_zero] at hb
    by_cases h64 : i < 64
    · simpa [h64, Nat.not_lt.mpr hi] using hb
    · exact testBit_eq_false_of_lt_pow hco (by omega)
  have hcs24 : cs < 2 ^ 24 := by
    have : blobCctChunkSizeMask.toNat = 2 ^ 24 - 1 := rfl
    omega
  have hus24 : us - 1 < 2 ^ 24 := by
    have : blobCctChunkSizeMask.toNat = 2 ^ 24 - 1 := rfl
    omega
  refine ⟨hco40, hcs24, by omega, by omega, ?_⟩
  simp only [setEncrypted, setCompressed, setZran, setFlag, if_true, if_false, Bool.false_eq_true]
  constructor
  · unfold compressedOffset
    apply toNat_eq_of_getLsbD
    intro i
    simp
    by_cases hi : i < 40
    · simp [hi, show i < 64 by omega]
    · simp [hi, testBit_eq_false_of_lt_pow hco40 (Nat.not_lt.mp hi)]
  · unfold compressedSize
    rw [UInt64.toNat_toUInt32]
    apply toNat_mod_eq_of_getLsbD (by omega)
    intro i hi
    simp [-BitVec.getLsbD_eq_getElem]
    by_cases h24 : i < 24
    · simp [h24, show 40 + i < 64 by omega, show i < 64 by omega]
    · simp [h24, testBit_eq_false_of_lt_pow hcs24 (Nat.not_lt.mp h24)]
  · unfold uncompressedOffset
    have hbi := fun i => congrArg (fun x : UInt64 => x.toBitVec.getLsbD i) huo'
    apply toNat_eq_of_getLsbD
    intro i
    have hb := hbi i
    simp [-BitVec.getLsbD_eq_getElem] at hb ⊢
    by_cases h12 : i < 12
    · simp only [h12, decide_true, Bool.not_true, Bool.and_false, Bool.false_and] at hb ⊢
      rw [decide_eq_true (by omega : i < 64), Bool.true_and] at hb
      exact hb.symm
    by_cases h44 : i < 44
    · simp [h12, show 12 + (i - 12) = i by omega, show i < 64 by omega, show i - 12 < 32 by omega,
        show i - 12 ≠ 56 by omega, show i - 12 ≠ 57 by omega, show i - 12 < 64 by omega,
        show i - 12 ≠ 59 by omega]
    · have h32 : ¬i - 12 < 32 := by omega
      have hout : uo.testBit i = false := by
        by_cases h64 : i < 64
        · simpa [h64, h12, h32] using hb
        · exact testBit_eq_false_of_lt_pow huo (by omega)
      simp [h32, hout]
  · unfold uncompressedSize
    rw [UInt64.toNat_toUInt32, toNat_mod_eq_of_getLsbD (v := us - 1) (by omega)]
    · omega
    intro i hi
    simp [-BitVec.getLsbD_eq_getElem]
    by_cases h24 : i < 24
    · simp [h24, show 32 + i < 64 by omega, show 32 + i ≠ 56 by omega, show 32 + i ≠ 57 by omega,
        show 32 + i ≠ 59 by omega, show i < 64 by omega]
    · simp [h24, testBit_eq_false_of_lt_pow hus24 (Nat.not_lt.mp h24)]
  · rw [isZran, and_flag_ne_zero getLsbD_flagZran]
    simp [-BitVec.getLsbD_eq_getElem]
  · rw [isCompressed, and_flag_ne_zero getLsbD_flagCompressed]
    simp [-BitVec.getLsbD_eq_getElem]
  · rw [isEncrypted, and_flag_ne_zero getLsbD_flagEncrypted]
    simp [-BitVec.getLsbD_eq_getElem]
  · rw [isBatch, and_flag_ne_zero getLsbD_flagBatch]
    simp [-BitVec.getLsbD_eq_getElem, testBit_eq_false_of_lt_pow hus24]
  · unfold checkFlags
    rw [UInt64.toNat_toUInt8, toNat_mod_eq_of_getLsbD (v := 0) (by omega)]
    intro i hi
    simp [-BitVec.getLsbD_eq_getElem]
    rw [show 56 + i - 32 = 24 + i by omega, testBit_eq_false_of_lt_pow hus24 (by omega)]
    have h32 : ¬56 + i < 32 := by omega
    simp only [h32, Bool.false_eq_true, and_false, false_and, or_false, false_or]
    omega
  · unfold getZranIndex dataHigh
    rw [if_pos (by rw [isZran, and_flag_ne_zero getLsbD_flagZran]; simp [-BitVec.getLsbD_eq_getElem])]
    rw [UInt64.toNat_toUInt32, toNat_mod_eq_of_getLsbD hzi]
    intro i hi
    simp [-BitVec.getLsbD_eq_getElem, show 32 + i < 64 by omega, show i < 64 by omega,
      testBit_eq_false_of_lt_pow hzo (by omega : 32 ≤ 32 + i)]
  · unfold getZranOffset dataLow
    rw [if_pos (by rw [isZran, and_flag_ne_zero getLsbD_flagZran]; simp [-BitVec.getLsbD_eq_getElem])]
    rw [UInt64.toNat_toUInt32, toNat_mod_eq_of_getLsbD hzo]
    intro i hi
    simp [-BitVec.getLsbD_eq_getElem, hi, show i < 64 by omega]

end BlobChunkInfoV2Ondisk

/-! ## The generator -/

/-- `ZranContextGenerator` without its reader: the `ZranGenerator`, and where the next chunk
starts in the uncompressed data of the blob. -/
structure ZranContextGenerator where
  generator : ZranGenerator
  uncompPos : Nat
  deriving DecidableEq, Repr

namespace ZranContextGenerator

def new : ZranContextGenerator :=
  ⟨((ZranGenerator.new.setMinCompressedSize (Cache.rafsDefaultChunkSize / 2)).setMaxCompressedSize
      Cache.rafsDefaultChunkSize).setMaxUncompressedSize (Cache.rafsDefaultChunkSize * 2), 0⟩

variable (g : ZranContextGenerator)

def len : Nat := g.generator.ciArray.length

def startChunk (r : ReaderView) (chunkSize : Nat) : Outcome Nat × ZranContextGenerator :=
  let (res, generator) := g.generator.beginRead r chunkSize
  (res, { g with generator := generator })

/-- `finish_chunk`, with the reader at `info`. -/
def finishChunk (info : ZranCompInfo) :
    Outcome (BlobChunkInfoV2Ondisk × ZranContextGenerator) := do
  let (ci, generator) ← g.generator.endRead info
  let chunk ← BlobChunkInfoV2Ondisk.zranChunk ci.inPos ci.inLen g.uncompPos ci.ciLen ci.ciIndex
    ci.ciOffset
  let step ← roundUp4k ci.ciLen
  let uncompPos ← debugAdd g.uncompPos step
  pure (chunk, ⟨generator, uncompPos⟩)

/-- The `n` bytes of `x`, least significant first. -/
def leBytes (x : Nat) : Nat → List UInt8
  | 0 => []
  | n + 1 => x.toUInt8 :: leBytes (x / 256) n

/-- The 40 bytes of the `ZranInflateContext` that `to_vec` makes of `info`. -/
def inflateContextBytes (info : ZranContext) (dictOff : Nat) : List UInt8 :=
  leBytes info.inOffset 8 ++ leBytes info.outOffset 8 ++ leBytes dictOff 8 ++
    leBytes info.inLen 4 ++ leBytes info.outLen 4 ++ leBytes info.dict.length 4 ++
    [info.ctxByte, info.ctxBits, 0, 0]

/-- The first loop of `to_vec`, from the dictionary offset `dictOff` on. -/
def contextRecords : List ZranContext → Nat → List UInt8
  | [], _ => []
  | info :: infos, dictOff =>
    inflateContextBytes info dictOff ++ contextRecords infos (dictOff + info.dict.length)

/-- `to_vec`: the context records, then their dictionaries, and the number of records. -/
def toVec : List UInt8 × Nat :=
  let records := g.generator.ciArray
  (contextRecords records 0 ++ (records.map ZranContext.dict).flatten, records.length % 2 ^ 32)

end ZranContextGenerator

/-- One chunk the builder reads through the generator (`Node::read_file_chunk`): the reader when
`start_chunk` is called, the chunk size passed to it, and the reader's position when
`finish_chunk` is called. -/
structure Transaction where
  chunkSize : Nat
  start : ReaderView
  finish : ZranCompInfo
  deriving DecidableEq, Repr

namespace ZranContextGenerator

/-- The chunks of a sequence of transactions, each `start_chunk(..)?` then `finish_chunk()?`. -/
def run : ZranContextGenerator → List Transaction →
    Outcome (List BlobChunkInfoV2Ondisk × ZranContextGenerator)
  | g, [] => pure ([], g)
  | g, t :: ts => do
    let (idx, g) := g.startChunk t.start t.chunkSize
    let _ ← idx
    let (chunk, g) ← g.finishChunk t.finish
    let (chunks, g) ← run g ts
    pure (chunk :: chunks, g)

/-- **`finish_chunk`.** A call that succeeds ends the chunk at `info` in the current context: the
entry it returns is the one `zranChunk` builds of the chunk's place, and the context is stretched
to `info`. -/
theorem finishChunk_ok {g g' : ZranContextGenerator} {info : ZranCompInfo}
    {e : BlobChunkInfoV2Ondisk} (h : g.finishChunk info = .ok (e, g')) :
    ∃ idx ctx, g.generator.currCiIdx = some idx ∧ g.generator.ciArray[idx]? = some ctx ∧
      ctx.inOffset ≤ info.inPos ∧ ctx.outOffset ≤ g.generator.currCiOffset ∧
      g.generator.currCiOffset ≤ info.outPos ∧ g.generator.currInOffset ≤ info.inPos ∧
      BlobChunkInfoV2Ondisk.zranChunk g.generator.currInOffset
        ((info.inPos - g.generator.currInOffset) % 2 ^ 32) g.uncompPos
        ((info.outPos - g.generator.currCiOffset) % 2 ^ 32) (idx % 2 ^ 32)
        ((g.generator.currCiOffset - ctx.outOffset) % 2 ^ 32) = .ok e ∧
      g'.generator.ciArray = g.generator.ciArray.set idx { ctx with
        outLen := (info.outPos - ctx.outOffset) % 2 ^ 32,
        inLen := (info.inPos - ctx.inOffset) % 2 ^ 32 } ∧
      g'.uncompPos < 2 ^ 64 := by
  unfold finishChunk at h
  rw [bind_eq_ok] at h
  obtain ⟨⟨ci, gen⟩, hend, h⟩ := h
  obtain ⟨idx, ctx, hidx, hctx, hin, hoff, hlen, hinl, rfl, rfl⟩ := ZranGenerator.endRead_ok hend
  simp only [bind_eq_ok, ZranGenerator.debugAdd_eq_ok, pure_eq_ok] at h
  obtain ⟨chunk, hchunk, step, -, uncompPos, ⟨hlt, rfl⟩, h⟩ := h
  cases h
  exact ⟨idx, ctx, hidx, hctx, hin, hoff, hlen, hinl, hchunk, rfl, hlt⟩

theorem finishChunk_uncompPos {g g' : ZranContextGenerator} {info : ZranCompInfo}
    {e : BlobChunkInfoV2Ondisk} (h : g.finishChunk info = .ok (e, g')) :
    g.uncompPos + (info.outPos - g.generator.currCiOffset) % 2 ^ 32 ≤ g'.uncompPos := by
  unfold finishChunk at h
  rw [bind_eq_ok] at h
  obtain ⟨⟨ci, gen⟩, hend, h⟩ := h
  obtain ⟨idx, ctx, -, -, -, -, -, -, rfl, rfl⟩ := ZranGenerator.endRead_ok hend
  simp only [bind_eq_ok, ZranGenerator.debugAdd_eq_ok, pure_eq_ok] at h
  obtain ⟨chunk, -, step, hstep, uncompPos, ⟨-, rfl⟩, h⟩ := h
  cases h
  unfold roundUp4k at hstep
  split_ifs at hstep
  · cases hstep
  · cases hstep
    dsimp only
    omega

theorem run_cons_eq_ok {g g' : ZranContextGenerator} {t : Transaction} {ts : List Transaction}
    {cs : List BlobChunkInfoV2Ondisk} (h : g.run (t :: ts) = .ok (cs, g')) :
    ∃ idx gb e g₁ cs', g.generator.beginRead t.start t.chunkSize = (.ok idx, gb) ∧
      ({ g with generator := gb } : ZranContextGenerator).finishChunk t.finish = .ok (e, g₁) ∧
      g₁.run ts = .ok (cs', g') ∧ cs = e :: cs' := by
  rcases hb : g.generator.beginRead t.start t.chunkSize with ⟨res, gb⟩
  simp only [run, startChunk, hb] at h
  cases res with
  | error err => cases h
  | ok idx =>
    simp only [ok_bind, bind_eq_ok, pure_eq_ok] at h
    obtain ⟨⟨e, g₁⟩, hf, ⟨cs', g₂⟩, hrun, h⟩ := h
    cases h
    exact ⟨idx, gb, e, g₁, cs', rfl, hf, hrun, rfl⟩

end ZranContextGenerator

end Nydus.Storage.Meta
