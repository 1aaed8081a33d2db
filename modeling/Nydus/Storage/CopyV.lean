import Mathlib
import Nydus.Lib.Outcome
import Nydus.Lib.Segments

/-!
# Copying between lists of buffers

`copyv` (storage/src/utils.rs) copies `length` bytes of a list of source buffers, starting
`offset` bytes into the first one, into a list of destination slices from the position
`(dst_index, dst_offset)`, and returns how many bytes it copied and the position after them.
The backend read path uses it to scatter a buffer it read into the user's slices.

The destination slices are `FileVolatileSlice`s over the caller's memory; their bytes are the
state the function changes, so the model passes them in and returns them beside the result,
also when the result is an error (the bytes written before it stay written). A slice's
`write` is vm-memory's `VolatileSlice::write`, which is a parameter (`SliceWrite`) with the two
laws the results use: at an address inside the slice it writes as many bytes as fit, and a write
that succeeds writes at most the buffer and something of a non-empty one. `SliceWrite.plain`
is one slice that keeps them.

The outer `for` over the source buffers is `copySources`, a recursion over the list; the inner
`loop` is `copyLoop`, which recurses on the bytes of the buffer still to write: a pass that does
not leave the loop wrote at least one byte.
-/

namespace Nydus.Storage

open Nydus.Lib
open Nydus.Lib.Outcome (panic)

/-- vm-memory's `Error`, as a slice write returns it. -/
inductive VolatileMemoryError where
  /-- `OutOfBounds { addr }`. -/
  | outOfBounds (addr : Nat)
  deriving DecidableEq, Repr

/-- The `StorageError` variants that `copyv` and the chunk map of the cache return. -/
inductive StorageError where
  /-- `MemOverflow`: the destination has no room left. -/
  | memOverflow
  /-- `VolatileSlice(e)`: a slice write failed. -/
  | volatileSlice (e : VolatileMemoryError)
  /-- `CacheIndex(e)`: the base chunk map's `is_ready` failed. -/
  | cacheIndex
  /-- `Timeout`: `wait_for_inflight` expired. -/
  | timeout
  deriving DecidableEq, Repr

/-- `StorageResult`. -/
abbrev StorageResult (β : Type) := Except StorageError β

variable {α : Type}

/-- What `copyv` uses of a destination slice: vm-memory's `VolatileSlice::write(buf, addr)` on
a slice holding `slice`, which returns the slice after the write and the number of bytes
written, with its laws. -/
structure SliceWrite (α : Type) where
  write : List α → List α → Nat → Except VolatileMemoryError (List α × Nat)
  /-- At an address inside the slice, a write puts there as much of the buffer as fits. -/
  write_of_lt : ∀ (slice buf : List α) (addr : Nat), addr < slice.length →
    write slice buf addr = .ok (overwrite slice addr (buf.take (min buf.length (slice.length - addr))),
      min buf.length (slice.length - addr))
  /-- A write that succeeds writes at most the buffer, and something of a non-empty buffer. -/
  written_le : ∀ (slice buf slice' : List α) (addr written : Nat),
    write slice buf addr = .ok (slice', written) → written ≤ buf.length ∧ (buf ≠ [] → 0 < written)

/-- The destination cursor after `written` bytes went into the slice of length `sliceLen` at
`(dstIndex, dstOffset)`: a slice written to its end moves the cursor to the next one. -/
def nextPosition (sliceLen dstIndex dstOffset written : Nat) : Nat × Nat :=
  if sliceLen - dstOffset = written then (dstIndex + 1, 0) else (dstIndex, dstOffset + written)

/-- The variables `copyv`'s loops update, with the destination slices' bytes. -/
structure CopyvState (α : Type) where
  /-- The bytes of the destination slices. -/
  dst : List (List α)
  dstIndex : Nat
  dstOffset : Nat
  copied : Nat
  /-- Where the rest of the current source buffer starts. -/
  srcOffset : Nat

/-- How the inner loop is left. -/
inductive LoopExit where
  /-- `continue 'next_source`. -/
  | nextSource
  /-- `return Err(e)` from `copyv`. -/
  | fail (e : StorageError)
  deriving DecidableEq, Repr

variable (W : SliceWrite α)

/-- The inner `loop` of `copyv` over the source buffer `s`, with `bufferLen` of its bytes from
`st.srcOffset` on still to write. -/
def copyLoop (s : List α) (st : CopyvState α) (bufferLen : Nat) :
    Outcome (LoopExit × CopyvState α) :=
  if hidx : st.dst.length ≤ st.dstIndex then .ok (.fail .memOverflow, st)
  else if hs : st.srcOffset + bufferLen ≤ s.length then
    let dstSlice := st.dst[st.dstIndex]
    let buffer := (s.drop st.srcOffset).take bufferLen
    match hw : W.write dstSlice buffer st.dstOffset with
    | .error e => .ok (.fail (.volatileSlice e), st)
    | .ok (slice, written) =>
      let dst := st.dst.set st.dstIndex slice
      let pos := nextPosition dstSlice.length st.dstIndex st.dstOffset written
      if hall : written = bufferLen then
        .ok (.nextSource, ⟨dst, pos.1, pos.2, st.copied + written, 0⟩)
      else
        copyLoop s ⟨dst, pos.1, pos.2, st.copied + written, st.srcOffset + written⟩
          (bufferLen - written)
  -- `&s[src_offset..src_offset + buffer_len]`
  else panic "range end index out of range for slice"
termination_by bufferLen
decreasing_by
  -- the buffer has `bufferLen` bytes, so a write that is not all of it wrote some
  have hlen : buffer.length = bufferLen := by
    change (List.take bufferLen (List.drop st.srcOffset s)).length = bufferLen
    rw [List.length_take, List.length_drop]
    omega
  obtain ⟨hle, hpos⟩ := W.written_le _ _ _ _ _ hw
  have := hpos (List.ne_nil_of_length_pos (by omega))
  omega

/-- The `for s in src` loop of `copyv`, over the source buffers left. -/
def copySources (length : Nat) :
    List (List α) → CopyvState α → Outcome (StorageResult (Nat × (Nat × Nat)) × List (List α))
  | [], st => .ok (.ok (st.copied, (st.dstIndex, st.dstOffset)), st.dst)
  | s :: rest, st => do
    let r ← copyLoop W s st (min (s.length - st.srcOffset) (length - st.copied))
    match r.1 with
    | .nextSource => copySources length rest r.2
    | .fail e => pure (.error e, r.2.dst)

/-- `copyv(src, dst, offset, length, dst_index, dst_offset)`, with `dst` the bytes of the
destination slices: the result, and those bytes after the call. -/
def copyv (src dst : List (List α)) (offset length dstIndex dstOffset : Nat) :
    Outcome (StorageResult (Nat × (Nat × Nat)) × List (List α)) :=
  match src with
  | [] => .ok (.ok (0, (dstIndex, dstOffset)), dst)
  | s0 :: _ =>
    if length = 0 then .ok (.ok (0, (dstIndex, dstOffset)), dst)
    else if offset > s0.length then .ok (.error .memOverflow, dst)
    else if h : dst.length ≤ dstIndex then .ok (.error .memOverflow, dst)
    else if dstOffset > dst[dstIndex].length then .ok (.error .memOverflow, dst)
    else copySources W length src ⟨dst, dstIndex, dstOffset, 0, offset⟩

section Loop

variable {s : List α} {st : CopyvState α} {bufferLen : Nat}

theorem copyLoop_of_full (h : st.dst.length ≤ st.dstIndex) :
    copyLoop W s st bufferLen = .ok (.fail .memOverflow, st) := by
  rw [copyLoop, dif_pos h]

theorem copyLoop_of_write (s : List α) (st : CopyvState α) (bufferLen : Nat)
    (hidx : st.dstIndex < st.dst.length) (hs : st.srcOffset + bufferLen ≤ s.length)
    {slice : List α} {written : Nat}
    (hw : W.write st.dst[st.dstIndex] ((s.drop st.srcOffset).take bufferLen) st.dstOffset =
      .ok (slice, written)) :
    copyLoop W s st bufferLen =
      if written = bufferLen then
        .ok (.nextSource, ⟨st.dst.set st.dstIndex slice,
          (nextPosition st.dst[st.dstIndex].length st.dstIndex st.dstOffset written).1,
          (nextPosition st.dst[st.dstIndex].length st.dstIndex st.dstOffset written).2,
          st.copied + written, 0⟩)
      else
        copyLoop W s ⟨st.dst.set st.dstIndex slice,
          (nextPosition st.dst[st.dstIndex].length st.dstIndex st.dstOffset written).1,
          (nextPosition st.dst[st.dstIndex].length st.dstIndex st.dstOffset written).2,
          st.copied + written, st.srcOffset + written⟩ (bufferLen - written) := by
  rw [copyLoop, dif_neg (Nat.not_le.mpr hidx), dif_pos hs]
  dsimp only
  split
  · next e heq => rw [hw] at heq; cases heq
  · next slice' written' heq =>
    rw [hw] at heq
    cases heq
    rfl

end Loop

/-- Whatever the slice, as long as it keeps the laws: the first source buffer fills the
destination exactly, and the second, with nothing left to copy, meets the full destination. -/
theorem copyv_exact_fill_then_source (W : SliceWrite UInt8) :
    copyv W [[1, 2], [3]] [[0, 0]] 0 2 0 0 = .ok (.error .memOverflow, [[(1 : UInt8), 2]]) := by
  have hw : W.write [0, 0] [1, 2] 0 = .ok ([(1 : UInt8), 2], 2) := by
    rw [W.write_of_lt _ _ _ (by decide)]
    rfl
  have first : copyLoop W [1, 2] ⟨[[0, 0]], 0, 0, 0, 0⟩ 2 =
      .ok (.nextSource, ⟨[[(1 : UInt8), 2]], 1, 0, 2, 0⟩) := by
    rw [copyLoop_of_write W _ _ _ (by decide) (by decide) hw]
    rfl
  have second : copyLoop W [3] ⟨[[(1 : UInt8), 2]], 1, 0, 2, 0⟩ 0 =
      .ok (.fail .memOverflow, ⟨[[1, 2]], 1, 0, 2, 0⟩) :=
    copyLoop_of_full W (by decide)
  simp [copyv, copySources, first, second]

/-! ## What `copyv` copies

Over destination slices that are all non-empty, the cursor `(dst_index, dst_offset)` names a
flat offset into their concatenation (`CursorAt`). A pass of the inner loop writes as much of
the buffer as the slice at the cursor takes and moves the cursor past it (`CursorAt.write`);
the loop over one buffer writes all of it if the destination has room and the cursor is not at
its end (`copyLoop_fits`), and otherwise fills the destination and fails
(`copyLoop_overflows`). -/

section Spec

variable {lens : List Nat}

/-- The cursor of `st` is at flat offset `p` of destination slices of lengths `lens`. -/
structure CursorAt (lens : List Nat) (st : CopyvState α) (p : Nat) : Prop where
  lengths : st.dst.map List.length = lens
  position : positionOf lens p = (st.dstIndex, st.dstOffset)
  le_sum : p ≤ lens.sum

theorem CursorAt.inside {st : CopyvState α} {p : Nat} (hc : CursorAt lens st p)
    (hp : p < lens.sum) :
    ∃ hi : st.dstIndex < st.dst.length,
      st.dstOffset < st.dst[st.dstIndex].length ∧ flatPos lens st.dstIndex st.dstOffset = p := by
  have h := flatPos_positionOf hp
  rw [hc.position] at h
  obtain ⟨hi, ho, hflat⟩ := h
  dsimp only at hi ho hflat
  have hlen : st.dst.length = lens.length := by rw [← hc.lengths, List.length_map]
  have hslice : st.dst[st.dstIndex].length = lens[st.dstIndex] := by simp [← hc.lengths]
  exact ⟨by omega, by omega, hflat⟩

/-- After a write of `d` at the cursor, inside the slice there, the cursor names the flat
offset just past `d`. -/
theorem CursorAt.write (hpos : ∀ l ∈ lens, 0 < l) {st : CopyvState α} {p : Nat}
    (hc : CursorAt lens st p) (hi : st.dstIndex < st.dst.length)
    (ho : st.dstOffset < st.dst[st.dstIndex].length)
    (hflat : flatPos lens st.dstIndex st.dstOffset = p) {d : List α}
    (hd : d.length ≤ st.dst[st.dstIndex].length - st.dstOffset) (copied srcOffset : Nat) :
    CursorAt lens ⟨st.dst.set st.dstIndex (overwrite st.dst[st.dstIndex] st.dstOffset d),
      (nextPosition st.dst[st.dstIndex].length st.dstIndex st.dstOffset d.length).1,
      (nextPosition st.dst[st.dstIndex].length st.dstIndex st.dstOffset d.length).2,
      copied, srcOffset⟩ (p + d.length) := by
  have hlen : st.dst.length = lens.length := by rw [← hc.lengths, List.length_map]
  have hslice : st.dst[st.dstIndex].length = lens[st.dstIndex] := by simp [← hc.lengths]
  refine ⟨?_, ?_, ?_⟩
  · rw [map_length_set_overwrite hi (by omega), hc.lengths]
  · rw [← hflat, positionOf_advance hpos (by omega) (by omega) (by omega), nextPosition, hslice]
  · rw [← hflat, flatPos, Nat.add_assoc]
    have := flatPos_le_sum (i := st.dstIndex) (o := st.dstOffset + d.length)
      (show st.dstIndex < lens.length by omega) (by omega)
    rwa [flatPos] at this

theorem CursorAt.length_flatten {st : CopyvState α} {p : Nat} (hc : CursorAt lens st p) :
    st.dst.flatten.length = lens.sum := by
  rw [List.length_flatten, hc.lengths]

theorem copyLoop_pass (hpos : ∀ l ∈ lens, 0 < l) (s : List α) {st : CopyvState α} {p b : Nat}
    (hc : CursorAt lens st p) (hp : p < lens.sum) (hs : st.srcOffset + b ≤ s.length) :
    ∃ w st₁, w ≤ b ∧ (0 < b → 0 < w) ∧ p + w ≤ lens.sum ∧ CursorAt lens st₁ (p + w) ∧
      st₁.dst.flatten = overwrite st.dst.flatten p (((s.drop st.srcOffset).take b).take w) ∧
      st₁.copied = st.copied + w ∧ st₁.srcOffset = st.srcOffset + w ∧
      copyLoop W s st b =
        if w = b then .ok (.nextSource, { st₁ with srcOffset := 0 })
        else copyLoop W s st₁ (b - w) := by
  obtain ⟨hi, ho, hflat⟩ := hc.inside hp
  have hblen : ((s.drop st.srcOffset).take b).length = b := by
    rw [List.length_take, List.length_drop]
    omega
  have hw := W.write_of_lt _ ((s.drop st.srcOffset).take b) _ ho
  rw [hblen] at hw
  set w := min b (st.dst[st.dstIndex].length - st.dstOffset) with hwdef
  have hd : (((s.drop st.srcOffset).take b).take w).length = w := by
    rw [List.length_take, hblen]
    omega
  have hc₁ := hc.write hpos hi ho hflat (d := ((s.drop st.srcOffset).take b).take w)
    (by omega) (st.copied + w) (st.srcOffset + w)
  rw [hd] at hc₁
  refine ⟨w, _, by omega, by omega, hc₁.le_sum, hc₁, ?_, rfl, rfl, ?_⟩
  · rw [flatten_set_overwrite hi (by omega), hc.lengths, hflat]
  · rw [copyLoop_of_write W s st b hi hs hw]

theorem buffer_after {s : List α} {srcOffset b w : Nat} :
    (s.drop (srcOffset + w)).take (b - w) = ((s.drop srcOffset).take b).drop w := by
  rw [← List.drop_drop, List.drop_take]

/-- With room for the whole buffer and the cursor before the end, the loop writes all of it at
the cursor and leaves for the next source buffer. -/
theorem copyLoop_fits (hpos : ∀ l ∈ lens, 0 < l) (s : List α) :
    ∀ (b : Nat) {st : CopyvState α} {p : Nat}, CursorAt lens st p → p < lens.sum →
      p + b ≤ lens.sum → st.srcOffset + b ≤ s.length →
      ∃ st', copyLoop W s st b = .ok (.nextSource, st') ∧ CursorAt lens st' (p + b) ∧
        st'.dst.flatten = overwrite st.dst.flatten p ((s.drop st.srcOffset).take b) ∧
        st'.copied = st.copied + b ∧ st'.srcOffset = 0 := by
  intro b
  induction b using Nat.strong_induction_on with
  | _ b ih =>
  intro st p hc hp hfit hs
  obtain ⟨w, st₁, hwb, hwpos, -, hc₁, hflat₁, hcopied₁, hsrc₁, hrun⟩ :=
    copyLoop_pass W hpos s hc hp hs
  by_cases hall : w = b
  · -- the slice took the whole buffer
    subst hall
    rw [List.take_take, Nat.min_self] at hflat₁
    exact ⟨{ st₁ with srcOffset := 0 }, by rw [hrun, if_pos rfl],
      ⟨hc₁.lengths, hc₁.position, hc₁.le_sum⟩, hflat₁, hcopied₁, rfl⟩
  · -- the slice filled up first: the rest of the buffer goes on from the next slice
    rw [if_neg hall] at hrun
    have hw₀ : 0 < w := hwpos (by omega)
    obtain ⟨st', hrun', hc', hflat', hcopied', hsrc'⟩ :=
      ih (b - w) (by omega) hc₁ (by omega) (by omega) (by rw [hsrc₁]; omega)
    have hlen : (((s.drop st.srcOffset).take b).take w).length = w := by
      simp only [List.length_take, List.length_drop]
      omega
    refine ⟨st', by rw [hrun, hrun'], ?_, ?_, by rw [hcopied', hcopied₁]; omega, hsrc'⟩
    · rwa [show p + w + (b - w) = p + b by omega] at hc'
    · rw [hflat', hflat₁, hsrc₁, buffer_after, show p + w = p + (((s.drop st.srcOffset).take b).take
        w).length by rw [hlen], overwrite_append (by rw [hc.length_flatten]; omega),
        List.take_append_drop]

/-- Without room for the whole buffer, or with the cursor at the end, the loop fills the
destination with the buffer's first bytes and fails with `MemOverflow`. -/
theorem copyLoop_overflows (hpos : ∀ l ∈ lens, 0 < l) (s : List α) :
    ∀ (b : Nat) {st : CopyvState α} {p : Nat}, CursorAt lens st p →
      (lens.sum < p + b ∨ p = lens.sum) → st.srcOffset + b ≤ s.length →
      ∃ st', copyLoop W s st b = .ok (.fail .memOverflow, st') ∧ st'.dst.map List.length = lens ∧
        st'.dst.flatten =
          overwrite st.dst.flatten p (((s.drop st.srcOffset).take b).take (lens.sum - p)) := by
  intro b
  induction b using Nat.strong_induction_on with
  | _ b ih =>
  intro st p hc hroom hs
  by_cases hend : p = lens.sum
  · -- the cursor is at the end: the first check fails
    have hpos' := hc.position
    rw [hend, positionOf_sum] at hpos'
    have hfull : st.dst.length ≤ st.dstIndex := by
      rw [← List.length_map (f := List.length), hc.lengths]
      exact Nat.le_of_eq (congrArg Prod.fst hpos')
    refine ⟨st, copyLoop_of_full W hfull, hc.lengths, ?_⟩
    rw [hend, Nat.sub_self, List.take_zero, overwrite_nil]
  · obtain ⟨w, st₁, hwb, hwpos, hwroom, hc₁, hflat₁, -, hsrc₁, hrun⟩ :=
      copyLoop_pass W hpos s hc (by have := hc.le_sum; omega) hs
    have hall : w ≠ b := by omega
    rw [if_neg hall] at hrun
    have hw₀ : 0 < w := hwpos (by omega)
    obtain ⟨st', hrun', hlens', hflat'⟩ :=
      ih (b - w) (by omega) hc₁ (by omega) (by rw [hsrc₁]; omega)
    have hlen : (((s.drop st.srcOffset).take b).take w).length = w := by
      simp only [List.length_take, List.length_drop]
      omega
    refine ⟨st', by rw [hrun, hrun'], hlens', ?_⟩
    rw [hflat', hflat₁, hsrc₁, buffer_after, show p + w = p + (((s.drop st.srcOffset).take b).take
      w).length by rw [hlen], overwrite_append (by rw [hc.length_flatten]; omega), hlen,
      ← List.take_add, show w + (lens.sum - (p + w)) = lens.sum - p by omega]

/-- The bytes the loop over the source buffers `srcs` has still to copy: those after
`st.srcOffset`, up to `length` in all. -/
def pending (length : Nat) (srcs : List (List α)) (st : CopyvState α) : List α :=
  (srcs.flatten.drop st.srcOffset).take (length - st.copied)

theorem pending_cons {length : Nat} {s : List α} (rest : List (List α)) {st : CopyvState α}
    (hoff : st.srcOffset ≤ s.length) (copied : Nat)
    (hcopied : copied = st.copied + min (s.length - st.srcOffset) (length - st.copied)) :
    pending length (s :: rest) st =
      (s.drop st.srcOffset).take (min (s.length - st.srcOffset) (length - st.copied)) ++
        rest.flatten.take (length - copied) := by
  have hlen : (s.drop st.srcOffset).length = s.length - st.srcOffset := List.length_drop
  rw [pending, List.flatten_cons, List.drop_append_of_le_length hoff, List.take_append, hlen,
    show length - st.copied - (s.length - st.srcOffset) = length - copied by omega]
  congr 1
  exact List.take_eq_take_iff.mpr (by rw [hlen]; omega)

theorem pending_of_srcOffset {length : Nat} {srcs : List (List α)} {st : CopyvState α}
    (h : st.srcOffset = 0) : pending length srcs st = srcs.flatten.take (length - st.copied) := by
  rw [pending, h, List.drop_zero]

theorem pending_cons_of_next {length : Nat} {s : List α} (rest : List (List α))
    {st st' : CopyvState α} (hoff : st.srcOffset ≤ s.length)
    (hcopied : st'.copied = st.copied + min (s.length - st.srcOffset) (length - st.copied))
    (hsrc : st'.srcOffset = 0) :
    pending length (s :: rest) st =
      (s.drop st.srcOffset).take (min (s.length - st.srcOffset) (length - st.copied)) ++
        pending length rest st' := by
  rw [pending_cons rest hoff st'.copied hcopied, pending_of_srcOffset hsrc]

theorem copySources_fits (hpos : ∀ l ∈ lens, 0 < l) (length : Nat) :
    ∀ (srcs : List (List α)) {st : CopyvState α} {p : Nat}, CursorAt lens st p →
      st.srcOffset ≤ (srcs.headD []).length →
      p + (pending length srcs st).length < lens.sum →
      ∃ dst', copySources W length srcs st =
          .ok (.ok (st.copied + (pending length srcs st).length,
            positionOf lens (p + (pending length srcs st).length)), dst') ∧
        dst'.map List.length = lens ∧
        dst'.flatten = overwrite st.dst.flatten p (pending length srcs st)
  | [], st, p, hc, _, _ => by
    refine ⟨st.dst, ?_, hc.lengths, ?_⟩
    · simp [copySources, pending, hc.position]
    · simp [pending]
  | s :: rest, st, p, hc, hoff, hroom => by
    rw [List.headD_cons] at hoff
    set b := min (s.length - st.srcOffset) (length - st.copied) with hb
    have hblen : ((s.drop st.srcOffset).take b).length = b := by
      simp only [List.length_take, List.length_drop]
      omega
    have hfit : p + b ≤ (pending length (s :: rest) st).length + p := by
      rw [pending_cons rest hoff (st.copied + b) rfl, List.length_append, hblen]
      omega
    obtain ⟨st', hrun, hc', hflat', hcopied', hsrc'⟩ :=
      copyLoop_fits W hpos s b hc (by omega) (by omega) (by omega)
    have hsplit' : pending length (s :: rest) st =
        (s.drop st.srcOffset).take b ++ pending length rest st' :=
      pending_cons_of_next rest hoff hcopied' hsrc'
    have hlen : (pending length (s :: rest) st).length =
        b + (pending length rest st').length := by
      rw [hsplit', List.length_append, hblen]
    obtain ⟨dst', hrun', hlens', hflat''⟩ := copySources_fits hpos length rest hc'
      (by rw [hsrc']; exact Nat.zero_le _) (by omega)
    refine ⟨dst', ?_, hlens', ?_⟩
    · rw [copySources, hrun, ok_bind]
      dsimp only
      rw [hrun', hcopied', hlen, Nat.add_assoc, Nat.add_assoc]
    · rw [hflat'', hflat', hsplit', show p + b = p + ((s.drop st.srcOffset).take b).length by
        rw [hblen], overwrite_append (by rw [hc.length_flatten]; omega)]

theorem copySources_overflows (hpos : ∀ l ∈ lens, 0 < l) (length : Nat) :
    ∀ (srcs : List (List α)) {st : CopyvState α} {p : Nat}, CursorAt lens st p →
      st.srcOffset ≤ (srcs.headD []).length →
      lens.sum < p + (pending length srcs st).length →
      ∃ dst', copySources W length srcs st = .ok (.error .memOverflow, dst') ∧
        dst'.map List.length = lens ∧
        dst'.flatten = overwrite st.dst.flatten p ((pending length srcs st).take (lens.sum - p))
  | [], st, p, hc, _, hroom => by
    have := hc.le_sum
    simp [pending] at hroom
    omega
  | s :: rest, st, p, hc, hoff, hroom => by
    rw [List.headD_cons] at hoff
    set b := min (s.length - st.srcOffset) (length - st.copied) with hb
    have hblen : ((s.drop st.srcOffset).take b).length = b := by
      simp only [List.length_take, List.length_drop]
      omega
    by_cases hfits : p < lens.sum ∧ p + b ≤ lens.sum
    · -- the first buffer fits: the overflow comes later
      obtain ⟨st', hrun, hc', hflat', hcopied', hsrc'⟩ :=
        copyLoop_fits W hpos s b hc hfits.1 hfits.2 (by omega)
      have hsplit' : pending length (s :: rest) st =
          (s.drop st.srcOffset).take b ++ pending length rest st' :=
        pending_cons_of_next rest hoff hcopied' hsrc'
      have hlen : (pending length (s :: rest) st).length =
          b + (pending length rest st').length := by
        rw [hsplit', List.length_append, hblen]
      obtain ⟨dst', hrun', hlens', hflat''⟩ := copySources_overflows hpos length rest hc'
        (by rw [hsrc']; exact Nat.zero_le _) (by omega)
      refine ⟨dst', ?_, hlens', ?_⟩
      · rw [copySources, hrun, ok_bind]
        exact hrun'
      · have hdata : (pending length (s :: rest) st).take (lens.sum - p) =
            (s.drop st.srcOffset).take b ++ (pending length rest st').take (lens.sum - (p + b)) := by
          rw [hsplit', List.take_append, hblen, List.take_of_length_le (by rw [hblen]; omega),
            Nat.sub_sub]
        rw [hflat'', hflat', hdata, show p + b = p + ((s.drop st.srcOffset).take b).length by
          rw [hblen], overwrite_append (by rw [hc.length_flatten]; omega)]
    · -- the destination runs out inside the first buffer
      obtain ⟨st', hrun, hlens', hflat'⟩ :=
        copyLoop_overflows W hpos s b hc (by have := hc.le_sum; omega) (by omega)
      refine ⟨st'.dst, ?_, hlens', ?_⟩
      · rw [copySources, hrun, ok_bind]
        rfl
      · rw [hflat', pending_cons rest hoff (st.copied + b) rfl,
          List.take_append_of_le_length (by rw [hblen]; have := hc.le_sum; omega)]

end Spec

/-- With non-empty destination slices and the cursor inside one of them, `copyv` copies the
bytes after `offset`, at most `length` of them, to the cursor and returns their number and the
position just past them when the destination has more room than that; when it has less, it
fills the destination with their first bytes and fails with `MemOverflow`. Either way the
bytes outside the written span are kept. -/
theorem copyv_copies (src dst : List (List α)) (offset length dstIndex dstOffset : Nat)
    (hne : ∀ d ∈ dst, d ≠ []) (hoff : offset ≤ (src.headD []).length)
    (hi : dstIndex < dst.length) (ho : dstOffset < dst[dstIndex].length)
    (lens : List Nat) (hlens : lens = dst.map List.length)
    (p : Nat) (hp : p = flatPos lens dstIndex dstOffset)
    (data : List α) (hdata : data = (src.flatten.drop offset).take length) :
    (p + data.length < lens.sum →
      ∃ dst', copyv W src dst offset length dstIndex dstOffset =
          .ok (.ok (data.length, positionOf lens (p + data.length)), dst') ∧
        dst'.map List.length = lens ∧ dst'.flatten = overwrite dst.flatten p data) ∧
    (lens.sum < p + data.length →
      ∃ dst', copyv W src dst offset length dstIndex dstOffset = .ok (.error .memOverflow, dst') ∧
        dst'.map List.length = lens ∧
        dst'.flatten = overwrite dst.flatten p (data.take (lens.sum - p))) := by
  subst hlens hp hdata
  have hpos : ∀ l ∈ dst.map List.length, 0 < l := by
    intro l hl
    obtain ⟨d, hd, rfl⟩ := List.mem_map.mp hl
    exact List.length_pos_iff.mpr (hne d hd)
  have hi' : dstIndex < (dst.map List.length).length := by simpa using hi
  have ho' : dstOffset < (dst.map List.length)[dstIndex] := by simpa using ho
  have hc : CursorAt (dst.map List.length) ⟨dst, dstIndex, dstOffset, 0, offset⟩
      (flatPos (dst.map List.length) dstIndex dstOffset) :=
    ⟨rfl, positionOf_flatPos hpos hi' ho', flatPos_le_sum hi' (Nat.le_of_lt ho')⟩
  by_cases htriv : src = [] ∨ length = 0
  · -- nothing to copy: `copyv` returns before its loops
    have hnil : (src.flatten.drop offset).take length = [] := by
      rcases htriv with rfl | rfl <;> simp
    have hret : copyv W src dst offset length dstIndex dstOffset =
        .ok (.ok (0, (dstIndex, dstOffset)), dst) := by
      rcases htriv with rfl | rfl
      · rfl
      · cases src <;> simp [copyv]
    rw [hret, hnil]
    have := hc.le_sum
    refine ⟨fun _ => ⟨dst, ?_, rfl, by simp⟩, fun h => absurd h (by simp; omega)⟩
    simp [← hc.position]
  · obtain ⟨s0, rest, rfl⟩ : ∃ s0 rest, src = s0 :: rest :=
      List.exists_cons_of_ne_nil (by tauto)
    have hrun : copyv W (s0 :: rest) dst offset length dstIndex dstOffset =
        copySources W length (s0 :: rest) ⟨dst, dstIndex, dstOffset, 0, offset⟩ := by
      rw [copyv, if_neg (by tauto), if_neg (by simpa using hoff), dif_neg (by omega),
        if_neg (by omega)]
    have hdata : ((s0 :: rest).flatten.drop offset).take length =
        pending length (s0 :: rest) ⟨dst, dstIndex, dstOffset, 0, offset⟩ := by
      simp [pending]
    rw [hrun, hdata]
    refine ⟨fun hroom => ?_, fun hroom => copySources_overflows W hpos length _ hc hoff hroom⟩
    obtain ⟨dst', hcopy, hlens, hflat⟩ := copySources_fits W hpos length _ hc hoff hroom
    exact ⟨dst', by simpa using hcopy, hlens, hflat⟩

/-- A slice that keeps the laws, and answers as vm-memory does outside its bytes: nothing for an
empty buffer, `OutOfBounds` otherwise. -/
def SliceWrite.plain : SliceWrite α where
  write slice buf addr :=
    if buf.isEmpty then .ok (slice, 0)
    else if addr ≥ slice.length then .error (.outOfBounds addr)
    else .ok (overwrite slice addr (buf.take (min buf.length (slice.length - addr))),
      min buf.length (slice.length - addr))
  write_of_lt slice buf addr h := by
    by_cases hemp : buf.isEmpty
    · rw [if_pos hemp, List.isEmpty_iff.mp hemp]
      simp
    · rw [if_neg hemp, if_neg (Nat.not_le.mpr h)]
  written_le slice buf slice' addr written h := by
    split_ifs at h with hemp hout
    · cases h
      simp_all
    · cases h
      have hb : 0 < buf.length := List.length_pos_iff.mpr (by simpa using hemp)
      exact ⟨Nat.min_le_left _ _, fun _ => by omega⟩

theorem copyv_copies_second_slice :
    ∃ dst', copyv SliceWrite.plain [[1, 2, 3], [4, 5, 6]] [[0, 0, 0, 0], [0, 0, 0, 0]] 1 3 1 0 =
        .ok (.ok (3, (1, 3)), dst') ∧ dst'.map List.length = [4, 4] ∧
        dst'.flatten = [(0 : UInt8), 0, 0, 0, 2, 3, 4, 0] :=
  (copyv_copies SliceWrite.plain [[1, 2, 3], [4, 5, 6]] [[0, 0, 0, 0], [0, 0, 0, 0]] 1 3 1 0
    (by decide) (by decide) (by decide) (by decide) _ rfl _ rfl _ rfl).1 (by decide)

end Nydus.Storage
