import Mathlib
import Nydus.Lib.Outcome
import Nydus.Lib.BitField

/-!
# Exporting a block device to a disk image

`BlockDevice::export` (service/src/block_device.rs) copies the blocks `[0, blocks)` of a RAFS v6
block device into an image file. It halves the requested thread count while a thread would get
less than one batch of `batch_size` blocks (`reduceThreads`), cuts the blocks into one range per
worker thread (`workerRanges`, `exportPlan`), and every worker runs `do_export` on its range,
reading it a batch at a time and writing each batch at the byte offset of its first block
(`doExportLoop`).

The step of the worker ranges is `(blocks + batch_size - 1) & !(batch_size - 1)`: all the blocks
rounded up to a batch, not one thread's share. It is never less than `blocks`, so the first
worker is given every block and the others empty ranges (`exportPlan_first_worker_takes_all`).
What does hold: the ranges cover `[0, blocks)` in order, and the batches of all the workers
write every block once, at `blocks_to_size` of its index (`exportPlan_writes_each_block_once`).

Block and thread counts are `Nat`. The one `u32` addition that can overflow, the one in the
step, panics as in a debug build (`exportStep`). Reads and writes are taken to return their full
length: the errors `do_export` returns on a short read or write are not modelled.
-/

namespace Nydus.Service

open Nydus.Lib (Outcome)

/-- `BLOCK_DEVICE_EXPORT_BATCH_SIZE`: the bytes of one read of `do_export`. -/
def blockDeviceExportBatchSize : Nat := 0x80000

/-- `BlockDevice::block_size`. -/
def blockSize (isTarfsMode : Bool) : Nat := if isTarfsMode then 512 else 4096

/-- `BlockDevice::blocks_to_size`. -/
def blocksToSize (isTarfsMode : Bool) (blocks : Nat) : Nat :=
  if isTarfsMode then blocks <<< 9 else blocks <<< 12

/-- The `batch_size` of `export` and `do_export`: the blocks of one read. -/
def batchSize (isTarfsMode : Bool) : Nat := blockDeviceExportBatchSize / blockSize isTarfsMode

theorem blocksToSize_eq (isTarfsMode : Bool) (blocks : Nat) :
    blocksToSize isTarfsMode blocks = blocks * blockSize isTarfsMode := by
  cases isTarfsMode <;> simp [blocksToSize, blockSize, Nat.shiftLeft_eq]

theorem blockSize_pos (isTarfsMode : Bool) : 0 < blockSize isTarfsMode := by
  cases isTarfsMode <;> decide

theorem batchSize_eq_pow (isTarfsMode : Bool) : ∃ k ≤ 32, batchSize isTarfsMode = 2 ^ k := by
  cases isTarfsMode
  · exact ⟨7, by decide, rfl⟩
  · exact ⟨10, by decide, rfl⟩

theorem batchSize_pos (isTarfsMode : Bool) : 0 < batchSize isTarfsMode := by
  cases isTarfsMode <;> decide

/-! ## The worker threads and their ranges -/

/-- The loop of `export` that halves `threads` while a thread would get less than a batch. -/
def reduceThreads (blocks batchSize threads : Nat) : Nat :=
  if blocks / threads < batchSize ∧ threads > 1 then
    reduceThreads blocks batchSize (threads / 2)
  else threads
termination_by threads
decreasing_by omega

/-- The thread count of `export`: the request clamped to `[1, 32]`, then halved by the loop. -/
def exportThreads (isTarfsMode : Bool) (blocks threads : Nat) : Nat :=
  reduceThreads blocks (batchSize isTarfsMode) (min (max threads 1) 32)

/-- The range length of a worker, `(blocks + batch_size - 1) & !(batch_size - 1)` in `u32`. -/
def exportStep (blocks batchSize : Nat) : Outcome Nat :=
  if blocks + batchSize < 2 ^ 32 then
    .ok ((blocks + batchSize - 1) &&& ((2 ^ 32 - 1) ^^^ (batchSize - 1)))
  else Outcome.panic "attempt to add with overflow"

/-- The worker loop of `export`: each of `n` workers gets `count = min(blocks - pos, step)`
blocks from `pos`, and `pos` moves on by `count`. -/
def workerRanges (blocks step : Nat) : Nat → Nat → List (Nat × Nat)
  | 0, _ => []
  | n + 1, pos =>
    let count := min (blocks - pos) step
    (pos, count) :: workerRanges blocks step n (pos + count)

/-- The ranges `(start, blocks)` that `export` hands to `do_export`: all the blocks on one thread,
else one range per worker, checked by `assert_eq!(pos, blocks)`. -/
def exportPlan (isTarfsMode : Bool) (blocks threads : Nat) : Outcome (List (Nat × Nat)) :=
  let threads := exportThreads isTarfsMode blocks threads
  if threads = 1 then .ok [(0, blocks)]
  else do
    let step ← exportStep blocks (batchSize isTarfsMode)
    let ranges := workerRanges blocks step threads 0
    if (ranges.map Prod.snd).sum = blocks then .ok ranges
    else Outcome.panic "assertion `left == right` failed"

theorem reduceThreads_spec {blocks batchSize threads : Nat} (h : 1 ≤ threads) :
    1 ≤ reduceThreads blocks batchSize threads ∧ reduceThreads blocks batchSize threads ≤ threads ∧
      (batchSize ≤ blocks / reduceThreads blocks batchSize threads ∨
        reduceThreads blocks batchSize threads = 1) := by
  fun_induction reduceThreads blocks batchSize threads with
  | case1 threads hc ih =>
    obtain ⟨h1, h2, h3⟩ := ih (by omega)
    exact ⟨h1, by omega, h3⟩
  | case2 threads hc =>
    -- the loop stops with a batch for every thread, or with one thread left
    refine ⟨h, le_rfl, ?_⟩
    by_cases hb : batchSize ≤ blocks / threads
    · exact .inl hb
    · exact .inr (by omega)

theorem exportThreads_spec (isTarfsMode : Bool) (blocks threads : Nat) :
    1 ≤ exportThreads isTarfsMode blocks threads ∧ exportThreads isTarfsMode blocks threads ≤ 32 ∧
      (batchSize isTarfsMode ≤ blocks / exportThreads isTarfsMode blocks threads ∨
        exportThreads isTarfsMode blocks threads = 1) := by
  obtain ⟨h1, h2, h3⟩ :=
    @reduceThreads_spec blocks (batchSize isTarfsMode) (min (max threads 1) 32) (by omega)
  exact ⟨h1, by unfold exportThreads; omega, h3⟩

theorem exportStep_eq {blocks k : Nat} (hk : k ≤ 32) (hfit : blocks + 2 ^ k < 2 ^ 32) :
    exportStep blocks (2 ^ k) = .ok ((blocks + 2 ^ k - 1) / 2 ^ k * 2 ^ k) := by
  rw [exportStep, if_pos hfit, Nydus.Lib.land_not_mask hk (by omega)]

theorem le_exportStep {blocks batchSize step : Nat} (h : exportStep blocks batchSize = .ok step)
    (hb : ∃ k ≤ 32, batchSize = 2 ^ k) : blocks ≤ step := by
  obtain ⟨k, hk, rfl⟩ := hb
  have hfit : blocks + 2 ^ k < 2 ^ 32 := by
    by_contra hn
    rw [exportStep, if_neg hn, Outcome.panic] at h
    cases h
  rw [exportStep_eq hk hfit, Except.ok.injEq] at h
  have hlt := Nat.lt_div_mul_add (a := blocks + 2 ^ k - 1) (Nat.two_pow_pos k)
  omega

theorem exportStep_eq_error {blocks batchSize : Nat} (h : 2 ^ 32 ≤ blocks + batchSize) :
    exportStep blocks batchSize = Outcome.panic "attempt to add with overflow" := by
  rw [exportStep, if_neg (by omega)]

theorem workerRanges_of_done (blocks step n : Nat) :
    workerRanges blocks step n blocks = List.replicate n (blocks, 0) := by
  induction n with
  | zero => rfl
  | succ n ih => simp [workerRanges, ih, List.replicate_succ]

theorem workerRanges_of_le {blocks step : Nat} (h : blocks ≤ step) (n : Nat) :
    workerRanges blocks step (n + 1) 0 = (0, blocks) :: List.replicate n (blocks, 0) := by
  simp only [workerRanges, Nat.sub_zero, Nat.min_eq_left h, Nat.zero_add, workerRanges_of_done]

theorem sum_replicate_snd (n blocks : Nat) :
    ((((0, blocks) :: List.replicate n (blocks, 0)).map Prod.snd).sum) = blocks := by
  simp

theorem exportPlan_first_worker_takes_all (isTarfsMode : Bool) (blocks threads : Nat)
    (hfit : blocks + batchSize isTarfsMode < 2 ^ 32) :
    exportPlan isTarfsMode blocks threads =
      .ok ((0, blocks) :: List.replicate (exportThreads isTarfsMode blocks threads - 1) (blocks, 0)) := by
  obtain ⟨k, hk, hpow⟩ := batchSize_eq_pow isTarfsMode
  have hstep := exportStep_eq hk (hpow ▸ hfit)
  have hle : blocks ≤ (blocks + 2 ^ k - 1) / 2 ^ k * 2 ^ k :=
    le_exportStep hstep ⟨k, hk, rfl⟩
  obtain ⟨h1, -, -⟩ := exportThreads_spec isTarfsMode blocks threads
  by_cases ht : exportThreads isTarfsMode blocks threads = 1
  · simp [exportPlan, ht]
  · -- more than one worker: the step covers all the blocks, so the first one takes them all
    obtain ⟨n, hn⟩ : ∃ n, exportThreads isTarfsMode blocks threads = n + 1 := ⟨_, (Nat.succ_pred_eq_of_pos h1).symm⟩
    simp only [exportPlan, if_neg ht, hpow, hstep, Nydus.Lib.ok_bind]
    rw [hn, workerRanges_of_le hle, sum_replicate_snd, if_pos rfl, Nat.add_one_sub_one]

theorem exportPlan_four_threads_one_busy :
    1024 + batchSize false < 2 ^ 32 ∧
      exportPlan false 1024 4 = .ok [(0, 1024), (1024, 0), (1024, 0), (1024, 0)] := by
  have ht : exportThreads false 1024 4 = 4 := by
    rw [exportThreads, reduceThreads]
    exact if_neg (by decide)
  refine ⟨by decide, ?_⟩
  rw [exportPlan_first_worker_takes_all false 1024 4 (by decide), ht]
  rfl

/-- The blocks of a list of ranges `(start, count)`, in order. -/
def rangeBlocks (ranges : List (Nat × Nat)) : List Nat :=
  ranges.flatMap fun r => List.range' r.1 r.2

theorem rangeBlocks_exportPlan {isTarfsMode : Bool} {blocks threads : Nat}
    {ranges : List (Nat × Nat)} (h : exportPlan isTarfsMode blocks threads = .ok ranges) :
    rangeBlocks ranges = List.range' 0 blocks := by
  by_cases hfit : blocks + batchSize isTarfsMode < 2 ^ 32
  · rw [exportPlan_first_worker_takes_all isTarfsMode blocks threads hfit, Except.ok.injEq] at h
    subst h
    simp [rangeBlocks, List.flatMap_replicate]
  · -- an overflowing step panics, so only the single-thread plan is left
    by_cases ht : exportThreads isTarfsMode blocks threads = 1
    · simp only [exportPlan, ht, if_true, Except.ok.injEq] at h
      subst h
      simp [rangeBlocks]
    · simp [exportPlan, ht, exportStep_eq_error (Nat.le_of_not_lt hfit), Outcome.panic] at h

/-! ## The batches of `do_export` -/

/-- One batch of `do_export`: `count` blocks read from block `pos`, written at byte `offset`, their
leaf digests set from Merkle page `pageIdx` on. -/
structure ExportBatch where
  pos : Nat
  count : Nat
  offset : Nat
  pageIdx : Nat
  deriving DecidableEq, Repr

/-- The loop of `do_export` from block `pos` with `blocks` blocks left. -/
def doExportLoop (isTarfsMode : Bool) (pos blocks : Nat) : List ExportBatch :=
  if blocks > 0 then
    let count := min (batchSize isTarfsMode) blocks
    let offset := blocksToSize isTarfsMode pos
    ⟨pos, count, offset, offset / blockSize isTarfsMode⟩ ::
      doExportLoop isTarfsMode (pos + count) (blocks - count)
  else []
termination_by blocks
decreasing_by have := batchSize_pos isTarfsMode; omega

/-- The batches of every worker of `export`, worker after worker. -/
def exportBatches (isTarfsMode : Bool) (ranges : List (Nat × Nat)) : List ExportBatch :=
  ranges.flatMap fun r => doExportLoop isTarfsMode r.1 r.2

/-- The blocks a list of batches writes, in order. -/
def batchBlocks (batches : List ExportBatch) : List Nat :=
  batches.flatMap fun b => List.range' b.pos b.count

/-- What each batch of `do_export` does: at most a batch of blocks, written at `blocks_to_size`
of the first, their digests from the page of the same index. -/
structure ExportBatch.Sound (isTarfsMode : Bool) (b : ExportBatch) : Prop where
  count_pos : 0 < b.count
  count_le : b.count ≤ batchSize isTarfsMode
  offset_eq : b.offset = blocksToSize isTarfsMode b.pos
  pageIdx_eq : b.pageIdx = b.pos

theorem batchBlocks_doExportLoop (isTarfsMode : Bool) (pos blocks : Nat) :
    batchBlocks (doExportLoop isTarfsMode pos blocks) = List.range' pos blocks := by
  fun_induction doExportLoop isTarfsMode pos blocks with
  | case1 pos blocks hpos count offset ih =>
    have hcount : count ≤ blocks := Nat.min_le_right _ _
    rw [batchBlocks, List.flatMap_cons, ← batchBlocks, ih]
    dsimp only
    rw [List.range'_append_1]
    congr 1
    omega
  | case2 pos blocks hpos =>
    rw [Nat.eq_zero_of_not_pos hpos]
    rfl

theorem sound_of_mem_doExportLoop {isTarfsMode : Bool} {pos blocks : Nat} {b : ExportBatch}
    (hb : b ∈ doExportLoop isTarfsMode pos blocks) : b.Sound isTarfsMode := by
  fun_induction doExportLoop isTarfsMode pos blocks with
  | case1 pos blocks hpos count offset ih =>
    rcases List.mem_cons.mp hb with rfl | hb
    · have hcount : 0 < count := Nat.lt_min.mpr ⟨batchSize_pos isTarfsMode, hpos⟩
      exact ⟨hcount, Nat.min_le_left _ _, rfl,
        by simp only [offset, blocksToSize_eq, Nat.mul_div_cancel _ (blockSize_pos isTarfsMode)]⟩
    · exact ih hb
  | case2 pos blocks hpos => simp at hb

theorem exportPlan_writes_each_block_once {isTarfsMode : Bool} {blocks threads : Nat}
    {ranges : List (Nat × Nat)} (h : exportPlan isTarfsMode blocks threads = .ok ranges) :
    batchBlocks (exportBatches isTarfsMode ranges) = List.range' 0 blocks ∧
      ∀ b ∈ exportBatches isTarfsMode ranges, b.Sound isTarfsMode := by
  have hcover : batchBlocks (exportBatches isTarfsMode ranges) = rangeBlocks ranges := by
    simp only [batchBlocks, exportBatches, rangeBlocks, List.flatMap_assoc]
    congr 1
    funext r
    exact batchBlocks_doExportLoop isTarfsMode r.1 r.2
  refine ⟨hcover.trans (rangeBlocks_exportPlan h), ?_⟩
  intro b hb
  obtain ⟨r, -, hr⟩ := List.mem_flatMap.mp hb
  exact sound_of_mem_doExportLoop hr

end Nydus.Service
