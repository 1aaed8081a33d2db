import Mathlib
import Nydus.Lib.Outcome
import Nydus.Lib.BitField
import Nydus.Lib.Runs
import Nydus.Lib.SortedMap

/-!
# The inode bitmap (`inode_bitmap.rs`)

`InodeBitmap` keeps a set of inode numbers as 64-bit words in a `BTreeMap` keyed by `ino >> 6`:
`ino` is in the set when bit `ino & 63` of word `ino >> 6` is. `bitmap_to_vec` walks the words in
key order and the set bits of each word lowest first, and stitches consecutive numbers into runs,
each pushed as `[s, e]`, or as `[s]` for a single number.

The set bits of a bitmap are a set of inodes that `set`, `clear` and `clear_all` change by an
insert, an erase and emptying it (`isSet_set`, `isSet_clear`, `isSet_clearAll`), so after any
calls they are the inodes the calls leave set (`setInodes`, `isSet_run`). The walk visits
the inodes in increasing order (`inodes_sorted`), and the stitching keeps the maximal runs of the
inodes it has visited (`Scan.Inv`, `Scan.push_inv`), so `bitmap_to_array` returns exactly the
maximal runs of the set inodes (`bitmapToVec_eq`), those the calls leave set. The lock and the
atomics are left out: each operation is one step.
-/

namespace Nydus.Utils

open Nydus.Lib

/-- `InodeBitmap`: its `BTreeMap<u64, AtomicU64>`, whose keys are `ino >> 6` of a `u64`. -/
structure InodeBitmap where
  map : SortedMap Nat UInt64
  bound : ∀ k ∈ map.entries.map Prod.fst, k < 2 ^ 58

namespace InodeBitmap

/-- `get_index_and_mask`. -/
def getIndexAndMask (ino : UInt64) : UInt64 × UInt64 := (ino >>> 6, 1 <<< (ino &&& 0x3f))

/-- `range_to_vec`. -/
def rangeToVec (start finish : Nat) : List Nat := if start = finish then [start] else [start, finish]

theorem index_toNat_lt (ino : UInt64) : (getIndexAndMask ino).1.toNat < 2 ^ 58 := by
  simp only [getIndexAndMask, UInt64.toNat_shiftRight]
  have := ino.toNat_lt
  simp only [UInt64.reduceToNat, Nat.reduceMod, Nat.shiftRight_eq_div_pow]
  omega

def new : InodeBitmap := ⟨SortedMap.empty, by simp [SortedMap.empty]⟩

/-- `set`: the word of the index, or a new zero word, gets the bit. -/
def set (b : InodeBitmap) (ino : UInt64) : InodeBitmap :=
  let index := (getIndexAndMask ino).1.toNat
  let mask := (getIndexAndMask ino).2
  match b.map.get index with
  | some _ => ⟨b.map.update index (· ||| mask), by rw [SortedMap.keys_update]; exact b.bound⟩
  | none => ⟨b.map.upsert index 0 (· ||| mask), fun k hk => by
      rcases SortedMap.mem_keys_upsert hk with rfl | hk
      · exact index_toNat_lt ino
      · exact b.bound k hk⟩

/-- `is_set`. -/
def isSet (b : InodeBitmap) (ino : UInt64) : Bool :=
  match b.map.get (getIndexAndMask ino).1.toNat with
  | some v => v &&& (getIndexAndMask ino).2 != 0
  | none => false

/-- `clear`: a word that is present loses the bit. -/
def clear (b : InodeBitmap) (ino : UInt64) : InodeBitmap :=
  ⟨b.map.update (getIndexAndMask ino).1.toNat (· &&& ~~~(getIndexAndMask ino).2),
    by rw [SortedMap.keys_update]; exact b.bound⟩

/-- `clear_all`: every word is stored zero, and stays in the map. -/
def clearAll (b : InodeBitmap) : InodeBitmap :=
  ⟨b.map.mapValues fun _ => 0, by rw [SortedMap.keys_mapValues]; exact b.bound⟩

/-- The locals of `bitmap_to_vec`. -/
structure Scan where
  ret : List (List Nat)
  start : Option Nat
  last : Nat

/-- One pass of the inner loop, after `ino` is computed: extend the current run or close it. -/
def Scan.push (st : Scan) (ino : Nat) : Outcome Scan :=
  match st.start with
  | none => .ok ⟨st.ret, some ino, ino⟩
  | some s =>
    if st.last + 1 < 2 ^ 64 then
      if ino ≠ st.last + 1 then .ok ⟨st.ret ++ [rangeToVec s st.last], some ino, ino⟩
      else .ok ⟨st.ret, some s, ino⟩
    else Outcome.panic "attempt to add with overflow"

/-- A pass of the inner loop from `let ino = base + v.trailing_zeros()` on. -/
def Scan.pushAt (st : Scan) (ino : Nat) : Outcome Scan :=
  if ino < 2 ^ 64 then st.push ino else Outcome.panic "attempt to add with overflow"

/-- The inner loop, over the set bits of one word. -/
def scanWord (base : Nat) (v : UInt64) (st : Scan) : Outcome Scan :=
  forEachSetBit (fun st tz => st.pushAt (base + tz)) v st

/-- The run still open after the loop is pushed. -/
def Scan.finish (st : Scan) : List (List Nat) :=
  match st.start with
  | some s => st.ret ++ [rangeToVec s st.last]
  | none => st.ret

/-- `bitmap_to_vec`: `load` gives the value read from a word and the value left in it. -/
def bitmapToVec (load : UInt64 → UInt64 × UInt64) (b : InodeBitmap) :
    Outcome (List (List Nat) × InodeBitmap) := do
  let st ← b.map.entries.foldlM (fun st p => scanWord ((p.1 <<< 6) % 2 ^ 64) (load p.2).1 st)
    ⟨[], none, 0⟩
  pure (st.finish, ⟨b.map.mapValues fun v => (load v).2,
    by rw [SortedMap.keys_mapValues]; exact b.bound⟩)

/-- `bitmap_to_array`: the words are read. -/
def bitmapToArray (b : InodeBitmap) : Outcome (List (List Nat)) :=
  Prod.fst <$> bitmapToVec (fun v => (v, v)) b

/-- `bitmap_to_array_and_clear`: each word is read and cleared by `fetch_and(0)`. -/
def bitmapToArrayAndClear (b : InodeBitmap) : Outcome (List (List Nat) × InodeBitmap) :=
  bitmapToVec (fun v => (v, v &&& 0)) b

/-! ## The set of inodes -/

theorem index_toNat (ino : UInt64) : (getIndexAndMask ino).1.toNat = ino.toNat / 64 := by
  simp [getIndexAndMask, UInt64.toNat_shiftRight, Nat.shiftRight_eq_div_pow]

theorem getLsbD_mask (ino : UInt64) (i : Nat) :
    (getIndexAndMask ino).2.toBitVec.getLsbD i = decide (i = ino.toNat % 64) := by
  have h63 : ino.toNat &&& 63 = ino.toNat % 64 := Nat.and_two_pow_sub_one_eq_mod _ 6
  simp only [getIndexAndMask, UInt64.toBitVec_shiftLeft, UInt64.toBitVec_and]
  simp [-BitVec.getLsbD_eq_getElem, h63]
  by_cases hi : i = ino.toNat % 64
  · simp [hi, Nat.mod_lt]
  · simp only [hi, decide_false]
    simp
    omega

theorem isSet_eq (b : InodeBitmap) (ino : UInt64) :
    b.isSet ino = ((b.map.get (ino.toNat / 64)).getD 0).toBitVec.getLsbD (ino.toNat % 64) := by
  unfold isSet
  rw [index_toNat]
  cases b.map.get (ino.toNat / 64) with
  | none => simp
  | some v => exact and_flag_ne_zero (getLsbD_mask ino)

theorem get_set (b : InodeBitmap) (ino : UInt64) (k : Nat) :
    (b.set ino).map.get k = if k = (getIndexAndMask ino).1.toNat then
      some (((b.map.get (getIndexAndMask ino).1.toNat).getD 0) ||| (getIndexAndMask ino).2)
    else b.map.get k := by
  simp only [set]
  split
  · rename_i w hw
    rw [SortedMap.get_update, hw]
    rfl
  · rename_i hw
    rw [SortedMap.get_upsert, hw]

theorem get_clear (b : InodeBitmap) (ino : UInt64) (k : Nat) :
    (b.clear ino).map.get k = if k = (getIndexAndMask ino).1.toNat then
      (b.map.get (getIndexAndMask ino).1.toNat).map (· &&& ~~~(getIndexAndMask ino).2)
    else b.map.get k :=
  SortedMap.get_update _ _ _ _

theorem eq_iff_div_mod {i j : UInt64} : i = j ↔ i.toNat / 64 = j.toNat / 64 ∧ i.toNat % 64 = j.toNat % 64 := by
  rw [← UInt64.toNat_inj]
  omega

theorem isSet_set (b : InodeBitmap) (ino j : UInt64) :
    (b.set ino).isSet j = true ↔ j = ino ∨ b.isSet j = true := by
  rw [isSet_eq, isSet_eq, get_set, index_toNat, eq_iff_div_mod]
  by_cases hk : j.toNat / 64 = ino.toNat / 64
  · rw [if_pos hk, hk, Option.getD_some, UInt64.toBitVec_or, BitVec.getLsbD_or, getLsbD_mask]
    simp [or_comm]
  · simp [hk]

theorem isSet_clear (b : InodeBitmap) (ino j : UInt64) :
    (b.clear ino).isSet j = true ↔ j ≠ ino ∧ b.isSet j = true := by
  rw [isSet_eq, isSet_eq, get_clear, index_toNat, ne_eq, eq_iff_div_mod]
  by_cases hk : j.toNat / 64 = ino.toNat / 64
  · rw [if_pos hk, hk]
    cases b.map.get (ino.toNat / 64) with
    | none => simp
    | some w =>
      simp only [Option.map_some, Option.getD_some, UInt64.toBitVec_and, UInt64.toBitVec_not,
        BitVec.getLsbD_and, BitVec.getLsbD_not, getLsbD_mask]
      by_cases hb : j.toNat % 64 < 64
      · simp [hb]
        tauto
      · omega
  · simp [hk]

theorem isSet_clearAll (b : InodeBitmap) (j : UInt64) : b.clearAll.isSet j = false := by
  rw [isSet_eq]
  simp only [clearAll, SortedMap.get_mapValues]
  cases b.map.get (j.toNat / 64) <;> simp

theorem isSet_new (j : UInt64) : new.isSet j = false := by
  rw [isSet_eq]
  simp [new]

/-- A call on the bitmap. -/
inductive Op where
  | set (ino : UInt64)
  | clear (ino : UInt64)
  | clearAll
  deriving DecidableEq, Repr

/-- The call. -/
def Op.apply : Op → InodeBitmap → InodeBitmap
  | .set ino, b => b.set ino
  | .clear ino, b => b.clear ino
  | .clearAll, b => b.clearAll

/-- What the call does to the set of inodes. -/
def Op.applySet : Op → Finset UInt64 → Finset UInt64
  | .set ino, s => insert ino s
  | .clear ino, s => s.erase ino
  | .clearAll, _ => ∅

/-- The bitmap after the calls, from a new one. -/
def run (ops : List Op) : InodeBitmap := ops.foldl (fun b op => op.apply b) new

/-- The inodes the calls leave set: `set` inserts, `clear` erases and `clear_all` empties. -/
def setInodes (ops : List Op) : Finset UInt64 := ops.foldl (fun s op => op.applySet s) ∅

/-- **Step.** A call changes the set bits as the call changes the set. -/
theorem Op.isSet_apply (op : Op) {b : InodeBitmap} {s : Finset UInt64}
    (h : ∀ i, b.isSet i = true ↔ i ∈ s) (i : UInt64) : (op.apply b).isSet i = true ↔ i ∈ op.applySet s := by
  cases op with
  | set ino => rw [apply, isSet_set, h, applySet, Finset.mem_insert]
  | clear ino => rw [apply, isSet_clear, h, applySet, Finset.mem_erase]
  | clearAll => simp [apply, applySet, isSet_clearAll]

/-- **Run.** The set bits of a bitmap are the set the calls build. -/
theorem isSet_run (ops : List Op) (i : UInt64) : (run ops).isSet i = true ↔ i ∈ setInodes ops := by
  unfold run setInodes
  suffices ∀ (ops : List Op) (b : InodeBitmap) (s : Finset UInt64), (∀ i, b.isSet i = true ↔ i ∈ s) →
      ∀ i, (ops.foldl (fun b op => op.apply b) b).isSet i = true ↔
        i ∈ ops.foldl (fun s op => op.applySet s) s from
    this ops new ∅ (fun i => by simp [isSet_new]) i
  intro ops
  induction ops with
  | nil => exact fun b s h => h
  | cons op ops ih => exact fun b s h => ih (op.apply b) (op.applySet s) (op.isSet_apply h)

/-! ## The walk -/

/-- The inodes of the bitmap in the order `bitmap_to_vec` visits them. -/
def inodes (b : InodeBitmap) : List Nat :=
  b.map.entries.flatMap fun p => (setBits p.2).map (p.1 * 64 + ·)

theorem mem_inodes (b : InodeBitmap) (n : Nat) :
    n ∈ b.inodes ↔ ∃ i : UInt64, i.toNat = n ∧ b.isSet i = true := by
  simp only [inodes, List.mem_flatMap, List.mem_map]
  constructor
  · rintro ⟨⟨k, w⟩, hkw, j, hj, rfl⟩
    have hk := b.bound k (List.mem_map_of_mem hkw)
    have hj64 := lt_of_mem_setBits hj
    refine ⟨(k * 64 + j).toUInt64, by simp; omega, ?_⟩
    rw [isSet_eq, UInt64.toNat_ofNat', Nat.mod_eq_of_lt (by omega),
      show (k * 64 + j) / 64 = k by omega, show (k * 64 + j) % 64 = j by omega,
      (b.map.mem_entries_iff).mp hkw, Option.getD_some, ← mem_setBits]
    exact hj
  · rintro ⟨i, rfl, hi⟩
    rw [isSet_eq] at hi
    cases hw : b.map.get (i.toNat / 64) with
    | none => simp [hw] at hi
    | some w =>
      rw [hw, Option.getD_some, ← mem_setBits] at hi
      exact ⟨⟨i.toNat / 64, w⟩, (b.map.mem_entries_iff).mpr hw, i.toNat % 64, hi, by omega⟩

theorem inodes_sorted (b : InodeBitmap) : b.inodes.Pairwise (· < ·) := by
  rw [inodes, List.pairwise_flatMap]
  constructor
  · intro p _
    exact (setBits_sorted p.2).map _ fun x y h => by omega
  · -- a later word has a larger key, and every bit is below 64
    have hkeys := b.map.sorted
    rw [List.pairwise_map] at hkeys
    refine hkeys.imp fun {p q} hpq => ?_
    intro x hx y hy
    simp only [List.mem_map] at hx hy
    obtain ⟨i, hi, rfl⟩ := hx
    obtain ⟨j, -, rfl⟩ := hy
    have := lt_of_mem_setBits hi
    omega

theorem inodes_lt (b : InodeBitmap) {n : Nat} (h : n ∈ b.inodes) : n < 2 ^ 64 := by
  obtain ⟨i, rfl, -⟩ := (mem_inodes b n).mp h
  exact i.toNat_lt

theorem scanWord_eq (base : Nat) (v : UInt64) (st : Scan) :
    scanWord base v st = ((setBits v).map (base + ·)).foldlM Scan.pushAt st := by
  rw [scanWord, forEachSetBit_eq_foldlM, List.foldlM_map]

theorem foldlM_scanWord (b : InodeBitmap) {load : UInt64 → UInt64 × UInt64}
    (hload : ∀ v, (load v).1 = v) (st : Scan) :
    b.map.entries.foldlM (fun st p => scanWord ((p.1 <<< 6) % 2 ^ 64) (load p.2).1 st) st =
      b.inodes.foldlM Scan.pushAt st := by
  rw [inodes, foldlM_flatMap]
  refine foldlM_congr fun st p hp => ?_
  have hk := b.bound p.1 (List.mem_map_of_mem hp)
  rw [hload, scanWord_eq, Nat.shiftLeft_eq, Nat.mod_eq_of_lt (by omega)]

/-! ## Stitching the runs -/

/-- What the locals of `bitmap_to_vec` hold after the inodes of `P`: the runs pushed so far and
the open run `[s, last]` are the maximal runs of `P`; with no run open, `P` is empty. -/
def Scan.Inv (st : Scan) (P : Nat → Prop) : Prop :=
  match st.start with
  | none => st.ret = [] ∧ ∀ i, ¬P i
  | some s => ∃ R, st.ret = R.map (fun r => rangeToVec r.1 r.2) ∧ IsRuns (R ++ [(s, st.last)]) P

/-- Every inode visited is below `n`. -/
def Scan.Below (st : Scan) (n : Nat) : Prop := ∀ s, st.start = some s → st.last < n

theorem Scan.inv_init : Scan.Inv ⟨[], none, 0⟩ fun _ => False := ⟨rfl, fun _ h => h⟩

theorem Scan.Inv.congr {st : Scan} {P Q : Nat → Prop} (h : st.Inv P) (hPQ : ∀ i, P i ↔ Q i) :
    st.Inv Q := by
  unfold Scan.Inv at h ⊢
  split at h
  · exact ⟨h.1, fun i hq => h.2 i ((hPQ i).mpr hq)⟩
  · obtain ⟨R, hret, hR⟩ := h
    exact ⟨R, hret, hR.congr hPQ⟩

/-- **Step.** A pass of the loop on an inode above those before it keeps the runs. -/
theorem Scan.push_inv {st : Scan} {P : Nat → Prop} {n : Nat} (h : st.Inv P) (hb : st.Below n)
    (hn : n < 2 ^ 64) :
    ∃ st', st.pushAt n = .ok st' ∧ st'.Inv (fun i => P i ∨ i = n) ∧ st'.Below (n + 1) := by
  rw [pushAt, if_pos hn]
  unfold Scan.Inv at h
  unfold push
  split
  · rename_i hs
    rw [hs] at h
    obtain ⟨hret, hP⟩ := h
    refine ⟨_, rfl, ⟨[], by simp [hret], ?_⟩, fun _ _ => Nat.lt_succ_self n⟩
    exact (IsRuns.single n).congr fun i => by simp [hP i]
  · rename_i s hs
    rw [hs] at h
    obtain ⟨R, hret, hR⟩ := h
    have hlast := hb s hs
    rw [if_pos (by omega)]
    split_ifs with hne
    · -- a gap: the open run is pushed and a new one opened
      refine ⟨_, rfl, ⟨R ++ [(s, st.last)], by simp [hret], ?_⟩, fun _ _ => Nat.lt_succ_self n⟩
      simpa using hR.push (x := n) (by omega)
    · -- the next number: the open run grows
      obtain rfl : n = st.last + 1 := by omega
      exact ⟨_, rfl, ⟨R, hret, hR.extend⟩, fun _ _ => Nat.lt_succ_self _⟩

/-- **Run.** The loop over increasing inodes keeps the runs. -/
theorem Scan.foldlM_pushAt :
    ∀ {xs : List Nat} {st : Scan} {P : Nat → Prop}, xs.Pairwise (· < ·) → (∀ x ∈ xs, x < 2 ^ 64) →
      st.Inv P → (∀ x ∈ xs, st.Below x) →
      ∃ st', xs.foldlM Scan.pushAt st = .ok st' ∧ st'.Inv fun i => P i ∨ i ∈ xs
  | [], st, P, _, _, h, _ => ⟨st, rfl, h.congr fun i => by simp⟩
  | x :: xs, st, P, hs, hlt, h, hb => by
    obtain ⟨hx, hs'⟩ := List.pairwise_cons.mp hs
    obtain ⟨st₁, h₁, hinv₁, hb₁⟩ := push_inv h (hb x List.mem_cons_self) (hlt x List.mem_cons_self)
    obtain ⟨st', h', hinv'⟩ := foldlM_pushAt hs' (fun y hy => hlt y (List.mem_cons_of_mem x hy))
      hinv₁ fun y hy s hs => Nat.lt_of_lt_of_le (hb₁ s hs) (hx y hy)
    refine ⟨st', by rw [List.foldlM_cons, h₁]; exact h', hinv'.congr fun i => ?_⟩
    simp only [List.mem_cons]
    tauto

theorem Scan.finish_runs {st : Scan} {P : Nat → Prop} (h : st.Inv P) :
    ∃ R, st.finish = R.map (fun r => rangeToVec r.1 r.2) ∧ IsRuns R P := by
  unfold Scan.Inv at h
  unfold finish
  split
  · rename_i s hs
    rw [hs] at h
    obtain ⟨R, hret, hR⟩ := h
    exact ⟨R ++ [(s, st.last)], by simp [hret], hR⟩
  · rename_i hs
    rw [hs] at h
    exact ⟨[], h.1, IsRuns.nil.congr fun i => by simp [h.2 i]⟩

/-- `bitmap_to_vec` with a `load` that returns the word returns the maximal runs of the set
inodes, encoded by `range_to_vec`, and leaves in each word what `load` leaves. -/
theorem bitmapToVec_eq (b : InodeBitmap) :
    ∃ R, IsRuns R (fun n => ∃ i : UInt64, i.toNat = n ∧ b.isSet i = true) ∧
      ∀ load : UInt64 → UInt64 × UInt64, (∀ v, (load v).1 = v) →
        ∃ b', b.bitmapToVec load = .ok (R.map fun r => rangeToVec r.1 r.2, b') ∧
          b'.map = b.map.mapValues fun v => (load v).2 := by
  obtain ⟨st, hst, hinv⟩ := Scan.foldlM_pushAt b.inodes_sorted (fun x hx => b.inodes_lt hx)
    Scan.inv_init fun _ _ _ h => by cases h
  obtain ⟨R, hR, hruns⟩ := Scan.finish_runs hinv
  refine ⟨R, hruns.congr fun n => by simp [mem_inodes], fun load hload => ?_⟩
  refine ⟨⟨b.map.mapValues fun v => (load v).2, by rw [SortedMap.keys_mapValues]; exact b.bound⟩,
    ?_, rfl⟩
  rw [bitmapToVec, foldlM_scanWord b hload, hst, ← hR]
  rfl

theorem isSet_of_mapValues_and_zero {b b' : InodeBitmap}
    (h : b'.map = b.map.mapValues fun v => v &&& 0) (i : UInt64) : b'.isSet i = false := by
  rw [isSet_eq, h, SortedMap.get_mapValues]
  cases b.map.get (i.toNat / 64) <;> simp

/-- After any calls of `set`, `clear` and `clear_all`, `bitmap_to_array` returns the maximal runs
of the inodes the calls leave set, in increasing order, `[s, e]` for a run and `[s]` for a single
inode, and an inode is set exactly when it lies in one of them; `bitmap_to_array_and_clear`
returns the same runs and leaves no inode set. -/
theorem bitmapToArray_maximalRuns (ops : List Op) :
    ∃ R : List (Nat × Nat), (run ops).bitmapToArray = .ok (R.map fun r => rangeToVec r.1 r.2) ∧
      IsRuns R (fun n => ∃ i ∈ setInodes ops, i.toNat = n) ∧
      (∀ i : UInt64, (run ops).isSet i = true ↔ ∃ r ∈ R, r.1 ≤ i.toNat ∧ i.toNat ≤ r.2) ∧
      ∃ b', (run ops).bitmapToArrayAndClear = .ok (R.map fun r => rangeToVec r.1 r.2, b') ∧
        ∀ i : UInt64, b'.isSet i = false := by
  obtain ⟨R, hruns, hvec⟩ := bitmapToVec_eq (run ops)
  obtain ⟨b₁, h₁, -⟩ := hvec (fun v => (v, v)) fun _ => rfl
  obtain ⟨b₂, h₂, hclear⟩ := hvec (fun v => (v, v &&& 0)) fun _ => rfl
  -- the set bits of the bitmap are the inodes the calls leave set
  have hset : ∀ n, (∃ i : UInt64, i.toNat = n ∧ (run ops).isSet i = true) ↔
      ∃ i ∈ setInodes ops, i.toNat = n := by
    intro n
    simp only [isSet_run]
    exact ⟨fun ⟨i, hn, hi⟩ => ⟨i, hi, hn⟩, fun ⟨i, hi, hn⟩ => ⟨i, hn, hi⟩⟩
  refine ⟨R, by rw [bitmapToArray, h₁]; rfl, hruns.congr hset, fun i => ?_, b₂, h₂,
    isSet_of_mapValues_and_zero hclear⟩
  rw [← hruns.mem]
  constructor
  · exact fun h => ⟨i, rfl, h⟩
  · rintro ⟨j, hj, h⟩
    rwa [UInt64.toNat_inj.mp hj] at h

example : (run [.set 1, .set 2, .set 5, .clear 2, .set 65, .set 66, .set 4000]).bitmapToArray =
    .ok [[1], [5], [65, 66], [4000]] := by
  decide +kernel

end InodeBitmap

end Nydus.Utils
