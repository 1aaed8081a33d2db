import Mathlib
import Nydus.Lib.Outcome

/-!
# Merging blob I/O into backend requests (`BlobIoMergeState`, `storage/src/cache/mod.rs`)

Before a cache reads a list of blob I/O descriptors from the backend, it merges runs of them
into `BlobIoRange`s, one backend request each (`BlobIoMergeState::merge_and_issue`). The
descriptors are taken in order. The pending run is issued, and a new one started, when the next
descriptor is not continuous with the one before it (`BlobIoDesc::is_continuous`: same blob, and
a gap of at most `max_gap` after it) or when the compressed size of the run has reached
`max_comp_size`. Issuing builds the range from the run's first descriptor (`BlobIoRange::new`)
and merges the others into it (`BlobIoRange::merge`), which asserts that each one starts at the
range's end or at most `max_gap` after it.

For a legacy stargz blob `is_continuous` accepts a gap of up to `8 * max_gap`, while `merge`
still asserts `max_gap`: two chunks of such a blob with a gap in between make `merge_and_issue`
panic (`mergeAndIssue_legacy_stargz_gap_panics`). For the other blobs every run passes
`merge`'s assertions, and the ranges issued hold the descriptors' chunks in order, each range
spanning exactly its chunks (`mergeAndIssue_spec`).

Model notes. The callback `op` is the list of the ranges it is called with, in order. A chunk is
what the read path reads of it: its id, its blob, its compressed range (which the merge reads)
and its uncompressed range (which the cache reads, `Nydus.Storage.IoRegion`). Arithmetic that
overflows panics, as in a debug build.
-/

namespace Nydus.Storage.Cache

open Nydus.Lib
open Nydus.Lib.Outcome (bail)

/-- What the read path reads of a chunk (`BlobChunkInfo`): the merge its compressed range, the
cache its uncompressed one. -/
structure ChunkInfo where
  id : Nat
  blobIndex : Nat
  compressedOffset : Nat
  compressedSize : Nat
  uncompressedOffset : Nat
  uncompressedSize : Nat
  deriving DecidableEq, Repr

def ChunkInfo.compressedEnd (c : ChunkInfo) : Nat := c.compressedOffset + c.compressedSize

/-- The fields of a `BlobIoDesc` the merge reads; `legacyStargz` is `blob.is_legacy_stargz()`. -/
structure BlobIoDesc where
  chunk : ChunkInfo
  legacyStargz : Bool
  offset : Nat
  size : Nat
  userIo : Bool
  deriving DecidableEq, Repr

/-- `BlobIoTag`: a user request keeps the segment of the chunk it wants. -/
inductive BlobIoTag where
  | user (offset len : Nat)
  | internal
  deriving DecidableEq, Repr

/-- The fields of a `BlobIoRange` the merge sets. -/
structure BlobIoRange where
  blobOffset : Nat
  blobSize : Nat
  chunks : List ChunkInfo
  tags : List BlobIoTag
  deriving DecidableEq, Repr

/-- `BlobIoDesc::is_continuous`. -/
def BlobIoDesc.isContinuous (d next : BlobIoDesc) (maxGap : Nat) : Outcome Bool :=
  let prevEnd := d.chunk.compressedEnd
  let nextOffset := next.chunk.compressedOffset
  if prevEnd ≥ 2 ^ 64 then Outcome.panic "attempt to add with overflow"
  else if d.chunk.blobIndex = next.chunk.blobIndex ∧ nextOffset ≥ prevEnd then
    if next.legacyStargz then
      if maxGap * 8 ≥ 2 ^ 64 then Outcome.panic "attempt to multiply with overflow"
      else .ok (nextOffset - prevEnd ≤ maxGap * 8)
    else .ok (nextOffset - prevEnd ≤ maxGap)
  else .ok false

namespace BlobIoRange

/-- `BlobIoRange::tag_from_desc`. -/
def tagFromDesc (bio : BlobIoDesc) : BlobIoTag :=
  if bio.userIo then .user bio.offset bio.size else .internal

/-- `BlobIoRange::new`. -/
def new (bio : BlobIoDesc) : Outcome BlobIoRange :=
  if bio.chunk.compressedEnd ≥ 2 ^ 64 then
    Outcome.panic "assertion failed: blob_offset.checked_add(blob_size).is_some()"
  else .ok ⟨bio.chunk.compressedOffset, bio.chunk.compressedSize, [bio.chunk], [tagFromDesc bio]⟩

/-- The bytes `merge` adds to the range for a chunk at `offset` of `size` bytes after `end`. -/
def mergeSize (rangeEnd offset size maxGap : Nat) : Outcome Nat :=
  if rangeEnd = offset then
    if offset + size ≥ 2 ^ 64 then Outcome.panic "assertion failed: offset.checked_add(size).is_some()"
    else .ok size
  else if offset > rangeEnd ∧ offset - rangeEnd ≤ maxGap then .ok (size + (offset - rangeEnd))
  else Outcome.panic "assertion failed: (offset > end && offset - end <= max_gap)"

/-- `BlobIoRange::merge`. -/
def merge (r : BlobIoRange) (bio : BlobIoDesc) (maxGap : Nat) : Outcome BlobIoRange := do
  let rangeEnd := r.blobOffset + r.blobSize
  if rangeEnd ≥ 2 ^ 64 then Outcome.panic "attempt to add with overflow"
  let size ← mergeSize rangeEnd bio.chunk.compressedOffset bio.chunk.compressedSize maxGap
  if rangeEnd + size ≥ 2 ^ 64 then Outcome.panic "assertion failed: end.checked_add(size).is_some()"
  pure ⟨r.blobOffset, r.blobSize + size, r.chunks ++ [bio.chunk], r.tags ++ [tagFromDesc bio]⟩

end BlobIoRange

/-- `BlobIoMergeState`: the compressed size of the pending run (a `u32`), the run, and the ranges
issued to the callback so far. -/
structure MergeState where
  size : Nat
  bios : List BlobIoDesc
  issued : List BlobIoRange

namespace MergeState

/-- `BlobIoMergeState::new`. -/
def new (bio : BlobIoDesc) : MergeState := ⟨bio.chunk.compressedSize, [bio], []⟩

/-- The bytes `push` adds for `bio` after the run's last descriptor: the gap and the chunk. -/
def pushSize (last bio : BlobIoDesc) : Outcome Nat :=
  let start := bio.chunk.compressedOffset
  let prev := last.chunk.compressedEnd
  if prev ≥ 2 ^ 64 then Outcome.panic "attempt to add with overflow"
  else if ¬prev ≤ start then Outcome.panic "assertion failed: prev <= start"
  else if ¬start - prev < 2 ^ 32 - 1 then
    Outcome.panic "assertion failed: start - prev < u32::MAX as u64"
  else if start - prev + bio.chunk.compressedSize ≥ 2 ^ 32 then
    Outcome.panic "attempt to add with overflow"
  else .ok (start - prev + bio.chunk.compressedSize)

/-- `BlobIoMergeState::push`. -/
def push (s : MergeState) (bio : BlobIoDesc) : Outcome MergeState := do
  let size ← match s.bios.getLast? with
    | some last => pushSize last bio
    | none => pure bio.chunk.compressedSize
  if s.size + size ≥ 2 ^ 32 then
    Outcome.panic "assertion failed: self.size.checked_add(size).is_some()"
  pure ⟨s.size + size, s.bios ++ [bio], s.issued⟩

/-- `BlobIoMergeState::issue`: the run as one range, given to the callback. -/
def issue (s : MergeState) (maxGap : Nat) : Outcome MergeState :=
  match s.bios with
  | [] => .ok s
  | first :: rest => do
    let mr ← BlobIoRange.new first
    let mr ← rest.foldlM (fun mr bio => mr.merge bio maxGap) mr
    pure ⟨0, [], s.issued ++ [mr]⟩

end MergeState

/-- One turn of the loop of `merge_and_issue`: the pending run is issued when `cur` is not
continuous with `prev` or the run is big enough, then `cur` is pushed. -/
def mergeStep (maxCompSize maxGap : Nat) (prev cur : BlobIoDesc) (s : MergeState) :
    Outcome MergeState := do
  let s ← if !(← prev.isContinuous cur maxGap) || decide (s.size ≥ maxCompSize) then
      s.issue maxGap
    else pure s
  s.push cur

/-- The loop of `merge_and_issue` over `bios[1..]`, with `bios[index - 1]` as `prev`. -/
def mergeLoop (maxCompSize maxGap : Nat) : BlobIoDesc → List BlobIoDesc → MergeState →
    Outcome MergeState
  | _, [], s => .ok s
  | prev, cur :: rest, s => do
    let s ← mergeStep maxCompSize maxGap prev cur s
    mergeLoop maxCompSize maxGap cur rest s

/-- `BlobIoMergeState::merge_and_issue`: the ranges the callback is called with. -/
def mergeAndIssue (bios : List BlobIoDesc) (maxCompSize maxGap : Nat) :
    Outcome (List BlobIoRange) :=
  match bios with
  | [] => .ok []
  | first :: rest => do
    let s ← mergeLoop maxCompSize maxGap first rest (MergeState.new first)
    let s ← s.issue maxGap
    pure s.issued

/-! ## A gap in a legacy stargz blob -/

/-- A user read of chunk `id` of a legacy stargz blob, stored compressed at
`[offset, offset + 0x800)` and uncompressed as the blob's `id`-th chunk of `0x1000` bytes. -/
def stargzDesc (id offset : Nat) : BlobIoDesc :=
  ⟨⟨id, 0, offset, 0x800, id * 0x1000, 0x1000⟩, true, 0, 0x1000, true⟩

/-- Two chunks of one legacy stargz blob, sorted, with a gap of `0x800` bytes between them.
With `max_gap = 0x100` they are continuous (`0x800 ≤ 8 * 0x100`) and under `max_comp_size`, so
they form one run, and `merge` panics on the gap. -/
theorem mergeAndIssue_legacy_stargz_gap_panics :
    (stargzDesc 0 0).isContinuous (stargzDesc 1 0x1000) 0x100 = .ok true ∧
      mergeAndIssue [stargzDesc 0 0, stargzDesc 1 0x1000] 0x4000 0x100 =
        Outcome.panic "assertion failed: (offset > end && offset - end <= max_gap)" :=
  ⟨rfl, rfl⟩

/-! ## Runs of descriptors that are not of a legacy stargz blob -/

/-- `is_continuous` holds of two descriptors. -/
def Joined (maxGap : Nat) (a b : BlobIoDesc) : Prop := a.isContinuous b maxGap = .ok true

/-- A descriptor the merge takes without overflow: not of a legacy stargz blob, with a chunk
that ends below `2^64`, and small enough that a run of `max_comp_size` bytes, a gap and the
chunk fit the run's `u32` size. -/
def Fits (maxCompSize maxGap : Nat) (d : BlobIoDesc) : Prop :=
  d.legacyStargz = false ∧ d.chunk.compressedEnd < 2 ^ 64 ∧
    maxCompSize + maxGap + d.chunk.compressedSize < 2 ^ 32

instance (maxCompSize maxGap : Nat) : DecidablePred (Fits maxCompSize maxGap) := fun _ =>
  inferInstanceAs (Decidable (_ ∧ _ ∧ _))

/-- The last descriptor of the run `first :: rest`. -/
def lastOf (first : BlobIoDesc) (rest : List BlobIoDesc) : BlobIoDesc := rest.getLast?.getD first

/-- The range the run `first :: rest` stands for: its chunks and their tags, over the compressed
bytes from the start of its first chunk to the end of its last. -/
def rangeOf (first : BlobIoDesc) (rest : List BlobIoDesc) : BlobIoRange :=
  ⟨first.chunk.compressedOffset,
    (lastOf first rest).chunk.compressedEnd - first.chunk.compressedOffset,
    (first :: rest).map (·.chunk), (first :: rest).map BlobIoRange.tagFromDesc⟩

section Spec

variable {maxCompSize maxGap : Nat} {first bio : BlobIoDesc} {rest : List BlobIoDesc}

@[simp] theorem lastOf_nil : lastOf first [] = first := rfl

@[simp] theorem lastOf_append_singleton : lastOf first (rest ++ [bio]) = bio := by
  simp [lastOf]

theorem getLast?_run : (first :: rest).getLast? = some (lastOf first rest) := by
  simp [lastOf, List.getLast?_cons]

theorem isContinuous_eq {a b : BlobIoDesc} (ha : a.chunk.compressedEnd < 2 ^ 64)
    (hb : b.legacyStargz = false) :
    a.isContinuous b maxGap = .ok (decide (a.chunk.blobIndex = b.chunk.blobIndex ∧
      a.chunk.compressedEnd ≤ b.chunk.compressedOffset ∧
      b.chunk.compressedOffset - a.chunk.compressedEnd ≤ maxGap)) := by
  unfold BlobIoDesc.isContinuous
  rw [if_neg (by omega)]
  by_cases hjoin : a.chunk.blobIndex = b.chunk.blobIndex ∧
      a.chunk.compressedEnd ≤ b.chunk.compressedOffset
  · rw [if_pos hjoin, hb]
    simp [hjoin]
  · rw [if_neg hjoin]
    simp only [Except.ok.injEq, false_eq_decide_iff, not_and]
    intro h1 h2
    exact absurd ⟨h1, h2⟩ hjoin

theorem joined_iff {a b : BlobIoDesc} (ha : a.chunk.compressedEnd < 2 ^ 64)
    (hb : b.legacyStargz = false) :
    Joined maxGap a b ↔ a.chunk.blobIndex = b.chunk.blobIndex ∧
      a.chunk.compressedEnd ≤ b.chunk.compressedOffset ∧
      b.chunk.compressedOffset - a.chunk.compressedEnd ≤ maxGap := by
  rw [Joined, isContinuous_eq ha hb]
  simp

theorem issue_test {a b : BlobIoDesc} {size : Nat} (ha : a.chunk.compressedEnd < 2 ^ 64)
    (hb : b.legacyStargz = false) (h : ¬(Joined maxGap a b ∧ size < maxCompSize)) :
    (!decide (a.chunk.blobIndex = b.chunk.blobIndex ∧
        a.chunk.compressedEnd ≤ b.chunk.compressedOffset ∧
        b.chunk.compressedOffset - a.chunk.compressedEnd ≤ maxGap) ||
      decide (size ≥ maxCompSize)) = true := by
  rw [joined_iff ha hb] at h
  by_cases hj : a.chunk.blobIndex = b.chunk.blobIndex ∧
      a.chunk.compressedEnd ≤ b.chunk.compressedOffset ∧
      b.chunk.compressedOffset - a.chunk.compressedEnd ≤ maxGap
  · have hbig : size ≥ maxCompSize := Nat.not_lt.mp fun hs => h ⟨hj, hs⟩
    simp [hj, hbig]
  · simp only [decide_eq_false hj, Bool.not_false, Bool.true_or]

theorem merge_rangeOf (hle : first.chunk.compressedOffset ≤ (lastOf first rest).chunk.compressedEnd)
    (hlast : (lastOf first rest).chunk.compressedEnd < 2 ^ 64)
    (hjoin : Joined maxGap (lastOf first rest) bio) (hbio : Fits maxCompSize maxGap bio) :
    (rangeOf first rest).merge bio maxGap = .ok (rangeOf first (rest ++ [bio])) := by
  obtain ⟨-, hgap, hmax⟩ := (joined_iff hlast hbio.1).mp hjoin
  have hend : bio.chunk.compressedOffset + bio.chunk.compressedSize < 2 ^ 64 := hbio.2.1
  have hrangeEnd : first.chunk.compressedOffset + ((lastOf first rest).chunk.compressedEnd -
      first.chunk.compressedOffset) = (lastOf first rest).chunk.compressedEnd := by omega
  have hsize : BlobIoRange.mergeSize (lastOf first rest).chunk.compressedEnd
      bio.chunk.compressedOffset bio.chunk.compressedSize maxGap =
        .ok (bio.chunk.compressedSize +
          (bio.chunk.compressedOffset - (lastOf first rest).chunk.compressedEnd)) := by
    unfold BlobIoRange.mergeSize
    split
    · rw [if_neg (show ¬bio.chunk.compressedOffset + bio.chunk.compressedSize ≥ 2 ^ 64 by omega)]
      congr 1
      omega
    · rw [if_pos (show bio.chunk.compressedOffset > (lastOf first rest).chunk.compressedEnd ∧
        bio.chunk.compressedOffset - (lastOf first rest).chunk.compressedEnd ≤ maxGap by omega)]
  simp only [BlobIoRange.merge, rangeOf, hrangeEnd]
  rw [if_neg (show ¬(lastOf first rest).chunk.compressedEnd ≥ 2 ^ 64 by omega)]
  simp only [ok_bind, hsize]
  rw [if_neg (show ¬(lastOf first rest).chunk.compressedEnd + (bio.chunk.compressedSize +
    (bio.chunk.compressedOffset - (lastOf first rest).chunk.compressedEnd)) ≥ 2 ^ 64 by omega)]
  simp only [pure_eq_ok, lastOf_append_singleton, List.map_cons, List.map_append, List.map_nil,
    List.cons_append, Except.ok.injEq, BlobIoRange.mk.injEq, and_true, true_and]
  unfold ChunkInfo.compressedEnd at hle hgap ⊢
  omega

theorem foldlM_merge_rangeOf : ∀ (todo : List BlobIoDesc) (rest : List BlobIoDesc),
    first.chunk.compressedOffset ≤ (lastOf first rest).chunk.compressedEnd →
    (lastOf first rest).chunk.compressedEnd < 2 ^ 64 →
    (lastOf first rest :: todo).IsChain (Joined maxGap) →
    (∀ d ∈ todo, Fits maxCompSize maxGap d) →
    todo.foldlM (fun mr bio => mr.merge bio maxGap) (rangeOf first rest) =
      .ok (rangeOf first (rest ++ todo))
  | [], rest, _, _, _, _ => by simp
  | b :: todo, rest, hle, hlast, hchain, hfits => by
    rw [List.isChain_cons_cons] at hchain
    have hb := hfits b List.mem_cons_self
    obtain ⟨-, hgap, -⟩ := (joined_iff hlast hb.1).mp hchain.1
    have hle' : first.chunk.compressedOffset ≤ (lastOf first (rest ++ [b])).chunk.compressedEnd := by
      rw [lastOf_append_singleton]
      unfold ChunkInfo.compressedEnd at hle hgap ⊢
      omega
    rw [List.foldlM_cons, merge_rangeOf hle hlast hchain.1 hb, ok_bind]
    have ih := foldlM_merge_rangeOf todo (rest ++ [b]) hle' (by simpa using hb.2.1)
      (by simpa using hchain.2) (fun d hd => hfits d (List.mem_cons_of_mem b hd))
    simpa using ih

theorem issue_run {s : MergeState} (hbios : s.bios = first :: rest)
    (hchain : (first :: rest).IsChain (Joined maxGap))
    (hfits : ∀ d ∈ first :: rest, Fits maxCompSize maxGap d) :
    s.issue maxGap = .ok ⟨0, [], s.issued ++ [rangeOf first rest]⟩ := by
  have hfirst := hfits first List.mem_cons_self
  have hnew : BlobIoRange.new first = .ok (rangeOf first []) := by
    unfold BlobIoRange.new
    rw [if_neg (by have := hfirst.2.1; omega)]
    simp [rangeOf, ChunkInfo.compressedEnd]
  unfold MergeState.issue
  rw [hbios]
  simp only [hnew, ok_bind]
  rw [foldlM_merge_rangeOf rest [] (by simp [ChunkInfo.compressedEnd]) hfirst.2.1 hchain
    (fun d hd => hfits d (List.mem_cons_of_mem first hd))]
  rfl

theorem push_empty {s : MergeState} (hbios : s.bios = [])
    (hfit : s.size + bio.chunk.compressedSize < 2 ^ 32) :
    s.push bio = .ok ⟨s.size + bio.chunk.compressedSize, [bio], s.issued⟩ := by
  unfold MergeState.push
  rw [hbios]
  simp only [List.getLast?_nil, pure_eq_ok, ok_bind]
  rw [if_neg (by omega)]
  rfl

theorem push_run {s : MergeState} (hbios : s.bios = first :: rest)
    (hlast : (lastOf first rest).chunk.compressedEnd < 2 ^ 64)
    (hjoin : Joined maxGap (lastOf first rest) bio) (hbio : Fits maxCompSize maxGap bio)
    (hsize : s.size < maxCompSize) :
    s.push bio = .ok ⟨s.size + (bio.chunk.compressedOffset -
      (lastOf first rest).chunk.compressedEnd + bio.chunk.compressedSize), s.bios ++ [bio],
      s.issued⟩ := by
  obtain ⟨-, hle, hgap⟩ := (joined_iff hlast hbio.1).mp hjoin
  have hfit := hbio.2.2
  have hpush : MergeState.pushSize (lastOf first rest) bio =
      .ok (bio.chunk.compressedOffset - (lastOf first rest).chunk.compressedEnd +
        bio.chunk.compressedSize) := by
    unfold MergeState.pushSize
    rw [if_neg (by omega), if_neg (by omega), if_neg (by omega), if_neg (by omega)]
  unfold MergeState.push
  rw [hbios, getLast?_run]
  simp only [hpush, ok_bind]
  rw [if_neg (by omega)]
  rfl

/-- **The invariant of the loop of `merge_and_issue`** after the descriptors `done`, the last of
which is `prev`: the ranges issued are those of runs that make up `done` up to the pending
run, and the pending run ends at `prev`, with the size of the compressed bytes it spans. -/
structure LoopInv (maxGap : Nat) (done : List BlobIoDesc) (prev : BlobIoDesc) (s : MergeState) :
    Prop where
  issued : ∃ runs : List (BlobIoDesc × List BlobIoDesc),
    s.issued = runs.map (fun r => rangeOf r.1 r.2) ∧
    (∀ r ∈ runs, (r.1 :: r.2).IsChain (Joined maxGap)) ∧
    runs.flatMap (fun r => r.1 :: r.2) ++ s.bios = done
  pending : ∃ first rest, s.bios = first :: rest ∧ (first :: rest).IsChain (Joined maxGap) ∧
    lastOf first rest = prev ∧ first.chunk.compressedOffset ≤ prev.chunk.compressedEnd ∧
    s.size = prev.chunk.compressedEnd - first.chunk.compressedOffset

theorem loopInv_new : LoopInv maxGap [first] first (MergeState.new first) :=
  ⟨⟨[], rfl, by simp, rfl⟩,
    ⟨first, [], rfl, .singleton _, rfl, by simp [ChunkInfo.compressedEnd],
      by simp [MergeState.new, ChunkInfo.compressedEnd]⟩⟩

theorem mergeStep_inv {done : List BlobIoDesc} {prev cur : BlobIoDesc} {s : MergeState}
    (hinv : LoopInv maxGap done prev s) (hfits : ∀ d ∈ done, Fits maxCompSize maxGap d)
    (hcur : Fits maxCompSize maxGap cur) (hprev : prev.chunk.compressedEnd < 2 ^ 64) :
    ∃ s', mergeStep maxCompSize maxGap prev cur s = .ok s' ∧
      LoopInv maxGap (done ++ [cur]) cur s' := by
  obtain ⟨runs, hissued, hruns, hdone⟩ := hinv.issued
  obtain ⟨first, rest, hbios, hchain, hlast, hle, hsize⟩ := hinv.pending
  subst hlast
  have hrun : ∀ d ∈ first :: rest, Fits maxCompSize maxGap d := fun d hd =>
    hfits d (hdone ▸ List.mem_append_right _ (hbios ▸ hd))
  unfold mergeStep
  rw [isContinuous_eq hprev hcur.1, ok_bind]
  by_cases hjoin : Joined maxGap (lastOf first rest) cur ∧ s.size < maxCompSize
  -- `cur` joins the pending run
  · obtain ⟨hjoin, hsmall⟩ := hjoin
    have hj := (joined_iff hprev hcur.1).mp hjoin
    rw [if_neg (by simp [hj, Nat.not_le.mpr hsmall]), pure_eq_ok, ok_bind]
    dsimp only
    rw [push_run hbios hprev hjoin hcur hsmall]
    refine ⟨_, rfl, ⟨runs, hissued, hruns, ?_⟩, first, rest ++ [cur], by simp [hbios], ?_,
      lastOf_append_singleton, ?_, ?_⟩
    · rw [← hdone, List.append_assoc]
    · exact hchain.append (.singleton cur) (by simp [getLast?_run, hjoin])
    · unfold ChunkInfo.compressedEnd at hle hj ⊢
      omega
    · dsimp only
      unfold ChunkInfo.compressedEnd at hle hj hsize ⊢
      omega
  -- the pending run is issued and `cur` starts the next one
  · rw [if_pos (issue_test hprev hcur.1 hjoin), issue_run hbios hchain hrun, ok_bind]
    dsimp only
    rw [push_empty rfl (by
      have := hcur.2.2
      dsimp only
      omega)]
    refine ⟨_, rfl, ⟨runs ++ [(first, rest)], by simp [hissued], ?_, ?_⟩,
      cur, [], rfl, .singleton cur, rfl, by simp [ChunkInfo.compressedEnd], ?_⟩
    · intro r hr
      rcases List.mem_append.mp hr with hr | hr
      · exact hruns r hr
      · rw [List.mem_singleton] at hr
        subst hr
        exact hchain
    · rw [← hdone, hbios]
      simp
    · simp [ChunkInfo.compressedEnd]

theorem mergeLoop_inv : ∀ (todo done : List BlobIoDesc) (prev : BlobIoDesc) (s : MergeState),
    LoopInv maxGap done prev s → (∀ d ∈ done ++ todo, Fits maxCompSize maxGap d) →
    prev ∈ done →
    ∃ s', mergeLoop maxCompSize maxGap prev todo s = .ok s' ∧
      LoopInv maxGap (done ++ todo) (todo.getLast?.getD prev) s'
  | [], done, prev, s, hinv, _, _ => ⟨s, rfl, by simpa using hinv⟩
  | cur :: todo, done, prev, s, hinv, hfits, hprev => by
    have hprevFits := hfits prev (List.mem_append_left _ hprev)
    obtain ⟨s₁, hstep, hinv₁⟩ := mergeStep_inv hinv
      (fun d hd => hfits d (List.mem_append_left _ hd))
      (hfits cur (by simp)) hprevFits.2.1
    obtain ⟨s', hloop, hinv'⟩ := mergeLoop_inv todo (done ++ [cur]) cur s₁ hinv₁
      (by simpa using hfits) (by simp)
    refine ⟨s', ?_, ?_⟩
    · rw [mergeLoop, hstep, ok_bind]
      exact hloop
    · have hget : (cur :: todo).getLast?.getD prev = todo.getLast?.getD cur := by
        simp [List.getLast?_cons]
      simpa [hget] using hinv'

end Spec

/-- **`merge_and_issue` off legacy stargz blobs.** For descriptors that fit the run's `u32`
size and are not of a legacy stargz blob, in any order: `merge_and_issue` does not panic, and
the callback is called once for each run of the descriptors, in order, where the runs make up
the input and each is a chain of `is_continuous` pairs; each call gets the run's chunks over the
compressed bytes from its first chunk's start to its last chunk's end (`rangeOf`). -/
theorem mergeAndIssue_spec {bios : List BlobIoDesc} {maxCompSize maxGap : Nat}
    (hfits : ∀ d ∈ bios, Fits maxCompSize maxGap d) :
    ∃ runs : List (BlobIoDesc × List BlobIoDesc),
      mergeAndIssue bios maxCompSize maxGap = .ok (runs.map fun r => rangeOf r.1 r.2) ∧
      runs.flatMap (fun r => r.1 :: r.2) = bios ∧
      ∀ r ∈ runs, (r.1 :: r.2).IsChain (Joined maxGap) := by
  cases bios with
  | nil => exact ⟨[], rfl, rfl, by simp⟩
  | cons first rest =>
    obtain ⟨s, hloop, hinv⟩ := mergeLoop_inv rest [first] first (MergeState.new first)
      loopInv_new (by simpa using hfits) (by simp)
    obtain ⟨runs, hissued, hruns, hdone⟩ := hinv.issued
    obtain ⟨f, r, hbios, hchain, -, -, -⟩ := hinv.pending
    have hrun : ∀ d ∈ f :: r, Fits maxCompSize maxGap d := fun d hd =>
      hfits d (by rw [← List.singleton_append, ← hdone, hbios]; exact List.mem_append_right _ hd)
    refine ⟨runs ++ [(f, r)], ?_, ?_, ?_⟩
    · simp only [mergeAndIssue, hloop, ok_bind, issue_run hbios hchain hrun, pure_eq_ok,
        hissued, List.map_append, List.map_singleton]
    · show _ = [first] ++ rest
      rw [← hdone, hbios]
      simp
    · intro q hq
      rcases List.mem_append.mp hq with hq | hq
      · exact hruns q hq
      · rw [List.mem_singleton] at hq
        subst hq
        exact hchain

/-- A user read of chunk `id` of a blob that is not legacy stargz, stored compressed at
`[offset, offset + 0x800)`. -/
def plainDesc (id offset : Nat) : BlobIoDesc :=
  ⟨⟨id, 0, offset, 0x800, id * 0x1000, 0x1000⟩, false, 0, 0x1000, true⟩

/-- The two chunks of `stargzDesc` on a blob that is not legacy stargz: the gap is too wide to
join them, and each gets a range of its own. -/
theorem mergeAndIssue_spec_plain_gap :
    (∀ d ∈ [plainDesc 0 0, plainDesc 1 0x1000], Fits 0x4000 0x100 d) ∧
      ∃ runs : List (BlobIoDesc × List BlobIoDesc),
        mergeAndIssue [plainDesc 0 0, plainDesc 1 0x1000] 0x4000 0x100 =
          .ok (runs.map fun r => rangeOf r.1 r.2) ∧
        runs.flatMap (fun r => r.1 :: r.2) = [plainDesc 0 0, plainDesc 1 0x1000] ∧
        ∀ r ∈ runs, (r.1 :: r.2).IsChain (Joined 0x100) :=
  have hfits : ∀ d ∈ [plainDesc 0 0, plainDesc 1 0x1000], Fits 0x4000 0x100 d := by decide
  ⟨hfits, mergeAndIssue_spec hfits⟩

end Nydus.Storage.Cache
