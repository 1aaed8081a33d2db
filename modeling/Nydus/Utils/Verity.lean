import Mathlib
import Nydus.Lib.Outcome
import Nydus.Lib.Segments

/-!
# The layout of a verity Merkle tree (`utils/src/verity.rs`)

`MerkleTree` lays out the digest pages of a Merkle tree over `data_pages` data pages of 4 KiB.
A page holds 128 digests of 32 bytes. Level 1 holds the digests of the data pages, and each
level above holds the digests of the pages of the level below. The top level `max_levels` fits
in one page. Three loops compute the layout:
* `level_pages` divides, rounding up, once per level;
* `level_index` divides once per level;
* `level_base` sums the pages of the levels above.
The top level is stored first, at offset 0, and level 1 last.

For every tree of at least one data page, the three loops agree (`ceilIter`, the page count
divided `l` times):
* level `l` holds `ceilIter l` pages and `ceilIter (l - 1)` entries, one per page of level
  `l - 1` (`levelPages_eq`, `levelEntries_eq`);
* the top level has one page (`levelPages_maxLevels`);
* the levels' regions cut `[0, total_pages * 4096)` into consecutive blocks, level `l` at
  `level_base l` (`inLevel_unique`, `lt_totalPages_iff`).
So `set_digest` and `generate_level_digests` write only inside the region of the level they
are given (`setDigest_frame`, `generateLevelDigests_frame`).

Model notes. The digest algorithm is `Sha256`, which `new` asserts and every caller passes.
The mapped window of the verity file is its list of bytes, and `RafsDigest::from_buf` is a
parameter `digestOf`. The numbers are `Nat`: with at most `u32::MAX` data pages every `u32`
value of the layout stays below `2 ^ 32` (`totalPages_lt`).
-/

namespace Nydus.Utils.Verity

open Nydus.Lib
open Nydus.Lib.Outcome (bail)

/-- `div_round_up`. -/
def divRoundUp (n d : Nat) : Nat := (n + d - 1) / d

theorem divRoundUp_lt {n d : Nat} (hn : 1 < n) (hd : 2 ≤ d) : divRoundUp n d < n := by
  unfold divRoundUp
  rw [Nat.div_lt_iff_lt_mul (by omega)]
  have : n * 2 ≤ n * d := Nat.mul_le_mul_left n hd
  have : 2 * d ≤ n * d := Nat.mul_le_mul_right d hn
  omega

/-- The height loop of `MerkleTree::new`: the rounds of `div_round_up` that bring the page count
to one. -/
def maxLevelsLoop (digestPerPage : Nat) (h : 2 ≤ digestPerPage) (tmpPages maxLevels : Nat) :
    Nat :=
  if 1 < tmpPages then
    maxLevelsLoop digestPerPage h (divRoundUp tmpPages digestPerPage) (maxLevels + 1)
  else maxLevels
termination_by tmpPages
decreasing_by exact divRoundUp_lt ‹_› h

/-- `MerkleTree`. -/
structure MerkleTree where
  digestPerPage : Nat
  digestSize : Nat
  dataPages : Nat
  pageSize : Nat
  maxLevels : Nat
  deriving DecidableEq, Repr

/-- `MerkleTree::new`. The page holds `1 << trailing_zeros(page_size / digest_size)` digests,
and `trailing_zeros` of the power of two `4096 / 32` is its `log2`. -/
def MerkleTree.new (pageSize dataPages : Nat) : Outcome MerkleTree :=
  if h : pageSize = 4096 then
    let digestSize := 32
    let digestPerPage := 2 ^ (pageSize / digestSize).log2
    .ok ⟨digestPerPage, digestSize, dataPages, pageSize,
      maxLevelsLoop digestPerPage (by subst h; decide) dataPages 0⟩
  else Outcome.panic "assertion `left == right` failed"

/-- The loop of `level_pages`. -/
def levelPagesLoop (digestPerPage : Nat) : Nat → Nat → Nat
  | 0, pages => pages
  | level + 1, pages =>
    if 0 < pages then levelPagesLoop digestPerPage level (divRoundUp pages digestPerPage)
    else pages

/-- The loop of `level_index`. -/
def levelIndexLoop (digestPerPage : Nat) : Nat → Nat → Nat
  | 0, pageIndex => pageIndex
  | level + 1, pageIndex => levelIndexLoop digestPerPage level (pageIndex / digestPerPage)

namespace MerkleTree

variable (t : MerkleTree)

/-- `level_pages`: the pages of digests at a level. -/
def levelPages (level : Nat) : Nat :=
  if level > t.maxLevels then 0 else levelPagesLoop t.digestPerPage level t.dataPages

/-- `level_index`: the entry of a level that covers a data page. -/
def levelIndex (level pageIndex : Nat) : Nat :=
  if level ≤ 1 then pageIndex else levelIndexLoop t.digestPerPage (level - 1) pageIndex

/-- `level_entries`: the digests at a level. -/
def levelEntries (level : Nat) : Nat :=
  if t.dataPages = 0 ∨ level > t.maxLevels then 0 else t.levelIndex level (t.dataPages - 1) + 1

/-- The loop of `level_base`, from the level `curr` down, with the offset reached so far. -/
def levelBaseLoop (level : Nat) : Nat → Nat → Nat
  | 0, offset => offset
  | curr + 1, offset =>
    if level < curr + 1 then levelBaseLoop level curr (offset + t.levelPages (curr + 1) * t.pageSize)
    else offset

/-- `level_base`: the offset of a level's digests. -/
def levelBase (level : Nat) : Nat :=
  if level ≥ t.maxLevels then 0 else t.levelBaseLoop level t.maxLevels 0

/-- `total_pages`. -/
def totalPages : Nat :=
  (List.range' 1 t.maxLevels).foldl (fun pages idx => pages + t.levelPages idx) 0

/-- The bytes of a level's region. -/
def InLevel (level x : Nat) : Prop :=
  t.levelBase level ≤ x ∧ x < t.levelBase level + t.levelPages level * t.pageSize

end MerkleTree

/-- `VerityGenerator`: the tree, the mapped window of the verity file, and the root digest of a
tree of one data page. -/
structure VerityGenerator where
  mklTree : MerkleTree
  fileMap : List UInt8
  rootDigest : List UInt8

/-- `get_mut::<DigestData>(offset)` and `copy_from_slice`: the 32 bytes at `offset` replaced by
`digest`. -/
def writeDigest (fileMap : List UInt8) (offset : Nat) (digest : List UInt8) :
    Outcome (List UInt8) :=
  if offset + 32 ≤ fileMap.length then
    if digest.length = 32 then .ok (overwrite fileMap offset digest)
    else Outcome.panic "source slice length does not match destination slice length"
  else bail "invalid mmap offset"

/-- `get_slice::<u8>(offset, count)`. -/
def getSlice (fileMap : List UInt8) (offset count : Nat) : Outcome (List UInt8) :=
  if offset + count ≤ fileMap.length then .ok ((fileMap.drop offset).take count)
  else bail "invalid range in validate_slice"

namespace VerityGenerator

/-- `set_digest`. -/
def setDigest (g : VerityGenerator) (level index : Nat) (digest : List UInt8) :
    Outcome VerityGenerator :=
  let t := g.mklTree
  if digest.length ≠ t.digestSize then
    bail ("size of digest data is not " ++ toString t.digestSize)
  else if t.dataPages = 1 ∧ level = 1 ∧ index = 0 then .ok { g with rootDigest := digest }
  else if level > t.maxLevels ∨ level = 0 then
    bail ("level " ++ toString level ++ " is out of range, max " ++ toString t.maxLevels)
  else if index ≥ t.levelEntries level then
    bail ("index " ++ toString index ++ " is out of range, max " ++
      toString (t.levelEntries level - 1))
  else do
    let fileMap ← writeDigest g.fileMap (t.levelBase level + index * t.digestSize) digest
    pure { g with fileMap }

/-- The loop of `generate_level_digests`: `count` pages from `dataBase` on, each digest written
from `digestBase` on. -/
def generateLoop (digestOf : List UInt8 → List UInt8) (pageSize digestSize : Nat) :
    Nat → List UInt8 → Nat → Nat → Outcome (List UInt8)
  | 0, fileMap, _, _ => .ok fileMap
  | count + 1, fileMap, dataBase, digestBase => do
    let data ← getSlice fileMap dataBase pageSize
    let fileMap ← writeDigest fileMap digestBase (digestOf data)
    generateLoop digestOf pageSize digestSize count fileMap (dataBase + pageSize)
      (digestBase + digestSize)

/-- `generate_level_digests`. -/
def generateLevelDigests (digestOf : List UInt8 → List UInt8) (g : VerityGenerator)
    (level : Nat) : Outcome VerityGenerator :=
  let t := g.mklTree
  if 1 < level ∧ level ≤ t.maxLevels then do
    let fileMap ← generateLoop digestOf t.pageSize t.digestSize (t.levelEntries level) g.fileMap
      (t.levelBase (level - 1)) (t.levelBase level)
    pure { g with fileMap }
  else Outcome.panic "assertion failed: level > 1 && level <= self.mkl_tree.max_levels"

end VerityGenerator

/-! ## The loops in closed form -/

/-- The page count `n` divided `l` times by `d`, rounding up. -/
def ceilIter (d n l : Nat) : Nat := (fun p => divRoundUp p d)^[l] n

theorem ceilIter_succ (d n l : Nat) : ceilIter d n (l + 1) = divRoundUp (ceilIter d n l) d := by
  rw [ceilIter, ceilIter, Function.iterate_succ_apply']

theorem ceilIter_succ' (d n l : Nat) : ceilIter d n (l + 1) = ceilIter d (divRoundUp n d) l := by
  rw [ceilIter, ceilIter, Function.iterate_succ_apply]

theorem divRoundUp_pos {p d : Nat} (hp : 0 < p) (hd : 0 < d) : 0 < divRoundUp p d :=
  Nat.div_pos (by omega) hd

theorem le_mul_divRoundUp (p : Nat) {d : Nat} (hd : 0 < d) : p ≤ d * divRoundUp p d := by
  have hsplit := Nat.div_add_mod (p + d - 1) d
  have hmod := Nat.mod_lt (p + d - 1) hd
  unfold divRoundUp
  omega

theorem ceilIter_pos {d n : Nat} (hn : 0 < n) (hd : 0 < d) : ∀ l, 0 < ceilIter d n l
  | 0 => hn
  | l + 1 => by rw [ceilIter_succ]; exact divRoundUp_pos (ceilIter_pos hn hd l) hd

theorem levelPagesLoop_eq {d : Nat} (hd : 0 < d) :
    ∀ (l : Nat) {pages : Nat}, 0 < pages → levelPagesLoop d l pages = ceilIter d pages l
  | 0, _, _ => rfl
  | l + 1, pages, hp => by
    rw [levelPagesLoop, if_pos hp, levelPagesLoop_eq hd l (divRoundUp_pos hp hd), ceilIter_succ']

theorem levelIndexLoop_eq (d : Nat) : ∀ (l i : Nat), levelIndexLoop d l i = i / d ^ l
  | 0, i => by rw [levelIndexLoop, Nat.pow_zero, Nat.div_one]
  | l + 1, i => by rw [levelIndexLoop, levelIndexLoop_eq d l, Nat.div_div_eq_div_mul, Nat.pow_succ']

theorem div_pow_add_one {d n : Nat} (hn : 0 < n) (hd : 0 < d) :
    ∀ l, (n - 1) / d ^ l + 1 = ceilIter d n l
  | 0 => by rw [Nat.pow_zero, Nat.div_one, ceilIter, Function.iterate_zero_apply]; omega
  | l + 1 => by
    have hshift : ∀ x : Nat, x + 1 + d - 1 = x + d := fun x => by omega
    rw [ceilIter_succ, ← div_pow_add_one hn hd l, divRoundUp, hshift, Nat.add_div_right _ hd,
      Nat.pow_succ, Nat.div_div_eq_div_mul]

theorem maxLevelsLoop_spec {d : Nat} (h : 2 ≤ d) (p m : Nat) :
    m ≤ maxLevelsLoop d h p m ∧ ceilIter d p (maxLevelsLoop d h p m - m) ≤ 1 ∧
      ∀ j, m + j < maxLevelsLoop d h p m → 1 < ceilIter d p j := by
  fun_induction maxLevelsLoop d h p m with
  | case1 p m hp ih =>
    obtain ⟨hle, htop, hbelow⟩ := ih
    refine ⟨by omega, ?_, fun j hj => ?_⟩
    · rw [show maxLevelsLoop d h (divRoundUp p d) (m + 1) - m =
          maxLevelsLoop d h (divRoundUp p d) (m + 1) - (m + 1) + 1 by omega, ceilIter_succ']
      exact htop
    · cases j with
      | zero => exact hp
      | succ j => rw [ceilIter_succ']; exact hbelow j (by omega)
  | case2 p m hp =>
    refine ⟨le_rfl, ?_, fun j hj => by omega⟩
    rw [Nat.sub_self]
    exact Nat.le_of_not_lt hp

/-! ## The levels of a tree -/

/-- What `new` gives a tree of at least one data page: 128 digests of 32 bytes to a page of
4 KiB, and the first height at which the data pages are divided down to one page. -/
structure MerkleTree.Valid (t : MerkleTree) : Prop where
  digestPerPage_eq : t.digestPerPage = 128
  digestSize_eq : t.digestSize = 32
  pageSize_eq : t.pageSize = 4096
  dataPages_pos : 0 < t.dataPages
  top_le : ceilIter t.digestPerPage t.dataPages t.maxLevels ≤ 1
  one_lt : ∀ j < t.maxLevels, 1 < ceilIter t.digestPerPage t.dataPages j

theorem MerkleTree.new_valid {n : Nat} {t : MerkleTree} (hn : 0 < n)
    (h : MerkleTree.new 4096 n = .ok t) : t.Valid := by
  rw [MerkleTree.new, dif_pos rfl] at h
  obtain rfl := Except.ok.inj h
  obtain ⟨-, htop, hbelow⟩ := maxLevelsLoop_spec (d := 2 ^ (4096 / 32 : Nat).log2) (by decide) n 0
  rw [Nat.sub_zero] at htop
  exact ⟨(by decide : 2 ^ (4096 / 32 : Nat).log2 = 128), rfl, rfl, hn, htop,
    fun j hj => hbelow j (by rw [Nat.zero_add]; exact hj)⟩

namespace MerkleTree

section Levels

variable {t : MerkleTree} (ht : t.Valid)
include ht

theorem digestPerPage_pos : 0 < t.digestPerPage := by
  rw [ht.digestPerPage_eq]
  decide

theorem levelPages_eq {l : Nat} (hl : l ≤ t.maxLevels) :
    t.levelPages l = ceilIter t.digestPerPage t.dataPages l := by
  rw [levelPages, if_neg (by omega), levelPagesLoop_eq (digestPerPage_pos ht) l ht.dataPages_pos]

theorem levelPages_pos {l : Nat} (hl : l ≤ t.maxLevels) : 0 < t.levelPages l := by
  rw [levelPages_eq ht hl]
  exact ceilIter_pos ht.dataPages_pos (digestPerPage_pos ht) l

/-- Level `l` has one entry for each page of level `l - 1`, the data pages for level 1. -/
theorem levelEntries_eq {l : Nat} (h1 : 1 ≤ l) (hl : l ≤ t.maxLevels) :
    t.levelEntries l = ceilIter t.digestPerPage t.dataPages (l - 1) := by
  have hn := ht.dataPages_pos
  rw [levelEntries, if_neg (by omega), levelIndex,
    ← div_pow_add_one hn (digestPerPage_pos ht) (l - 1)]
  split_ifs with hle
  · rw [show l - 1 = 0 by omega, Nat.pow_zero, Nat.div_one]
  · rw [levelIndexLoop_eq]

/-- The top level fits in one page. -/
theorem levelPages_maxLevels : t.levelPages t.maxLevels = 1 := by
  have hpos := levelPages_pos ht (le_refl t.maxLevels)
  have htop := ht.top_le
  rw [levelPages_eq ht le_rfl] at hpos ⊢
  omega

theorem levelEntries_succ {l : Nat} (hl : l < t.maxLevels) :
    t.levelEntries (l + 1) = t.levelPages l := by
  rw [levelEntries_eq ht (by omega) hl, Nat.add_one_sub_one, levelPages_eq ht (by omega)]

theorem levelEntries_mul_le {l : Nat} (h1 : 1 ≤ l) (hl : l ≤ t.maxLevels) :
    t.levelEntries l * t.digestSize ≤ t.levelPages l * t.pageSize := by
  obtain ⟨k, rfl⟩ : ∃ k, l = k + 1 := ⟨l - 1, by omega⟩
  rw [levelEntries_eq ht h1 hl, levelPages_eq ht hl, Nat.add_sub_cancel, ceilIter_succ,
    ht.digestSize_eq, ht.pageSize_eq]
  have hcover := le_mul_divRoundUp (ceilIter t.digestPerPage t.dataPages k) (digestPerPage_pos ht)
  rw [ht.digestPerPage_eq] at hcover ⊢
  omega

end Levels

/-! ## The regions of the levels -/

/-- The byte sizes of the levels from `curr` down to 1, in the order the file holds them. -/
def levelSizes (t : MerkleTree) : Nat → List Nat
  | 0 => []
  | curr + 1 => t.levelPages (curr + 1) * t.pageSize :: t.levelSizes curr

theorem length_levelSizes (t : MerkleTree) : ∀ c, (t.levelSizes c).length = c
  | 0 => rfl
  | c + 1 => by rw [levelSizes, List.length_cons, length_levelSizes t c]

theorem getElem_levelSizes (t : MerkleTree) : ∀ {c l : Nat}, 1 ≤ l → l ≤ c →
    ∀ (h : c - l < (t.levelSizes c).length), (t.levelSizes c)[c - l] = t.levelPages l * t.pageSize
  | 0, _, _, hl, _ => by omega
  | c + 1, l, h1, hl, h => by
    by_cases htop : l = c + 1
    · subst htop
      simp only [levelSizes, Nat.sub_self, List.getElem_cons_zero]
    · have hidx : c + 1 - l = c - l + 1 := by omega
      simp only [levelSizes, hidx, List.getElem_cons_succ]
      exact getElem_levelSizes t h1 (by omega) (by rw [length_levelSizes]; omega)

theorem levelBaseLoop_eq (t : MerkleTree) (level : Nat) : ∀ (curr offset : Nat), level ≤ curr →
    t.levelBaseLoop level curr offset = offset + ((t.levelSizes curr).take (curr - level)).sum
  | 0, offset, _ => by simp [levelBaseLoop]
  | c + 1, offset, hle => by
    rw [levelBaseLoop]
    by_cases hlt : level < c + 1
    · rw [if_pos hlt, levelBaseLoop_eq t level c _ (by omega), levelSizes,
        show c + 1 - level = c - level + 1 by omega, List.take_succ_cons, List.sum_cons]
      omega
    · rw [if_neg hlt, show c + 1 - level = 0 by omega, List.take_zero, List.sum_nil, Nat.add_zero]

theorem levelBase_eq (t : MerkleTree) {l : Nat} (hl : l ≤ t.maxLevels) :
    t.levelBase l = flatPos (t.levelSizes t.maxLevels) (t.maxLevels - l) 0 := by
  rw [levelBase, flatPos, Nat.add_zero]
  split_ifs with hge
  · rw [show t.maxLevels - l = 0 by omega, List.take_zero, List.sum_nil]
  · rw [levelBaseLoop_eq t l _ 0 hl, Nat.zero_add]

theorem sum_levelSizes (t : MerkleTree) : ∀ c, (t.levelSizes c).sum =
    (List.range' 1 c).foldl (fun pages idx => pages + t.levelPages idx) 0 * t.pageSize
  | 0 => by simp [levelSizes]
  | c + 1 => by
    rw [levelSizes, List.sum_cons, sum_levelSizes t c, List.range'_concat, List.foldl_append,
      List.foldl_cons, List.foldl_nil, Nat.add_mul, Nat.one_mul, Nat.add_comm 1 c, Nat.add_comm]

theorem totalPages_mul (t : MerkleTree) :
    t.totalPages * t.pageSize = (t.levelSizes t.maxLevels).sum := by
  rw [sum_levelSizes, totalPages]

theorem inLevel_iff_flatPos (t : MerkleTree) {l : Nat} (hl : l ≤ t.maxLevels) {x : Nat} :
    t.InLevel l x ↔ ∃ o, o < t.levelPages l * t.pageSize ∧
      x = flatPos (t.levelSizes t.maxLevels) (t.maxLevels - l) o := by
  have hbase := levelBase_eq t hl
  rw [flatPos, Nat.add_zero] at hbase
  constructor
  · rintro ⟨hlo, hhi⟩
    exact ⟨x - t.levelBase l, by omega, by rw [flatPos, ← hbase]; omega⟩
  · rintro ⟨o, ho, rfl⟩
    rw [InLevel, flatPos, ← hbase]
    omega

/-- **The regions cover the tree.** The bytes of the regions are those below
`total_pages * page_size`. -/
theorem lt_totalPages_iff (t : MerkleTree) (x : Nat) :
    x < t.totalPages * t.pageSize ↔ ∃ l, 1 ≤ l ∧ l ≤ t.maxLevels ∧ t.InLevel l x := by
  have hlen := length_levelSizes t t.maxLevels
  rw [totalPages_mul]
  constructor
  · intro hx
    obtain ⟨hi, ho, hflat⟩ := flatPos_positionOf hx
    have hi' : (positionOf (t.levelSizes t.maxLevels) x).1 < t.maxLevels := lt_of_lt_of_eq hi hlen
    have hl : t.maxLevels - (t.maxLevels - (positionOf (t.levelSizes t.maxLevels) x).1) =
        (positionOf (t.levelSizes t.maxLevels) x).1 := by omega
    refine ⟨t.maxLevels - (positionOf (t.levelSizes t.maxLevels) x).1, by omega, by omega,
      (inLevel_iff_flatPos t (l := t.maxLevels - (positionOf (t.levelSizes t.maxLevels) x).1)
        (by omega)).mpr ⟨(positionOf (t.levelSizes t.maxLevels) x).2, ?_,
        by rw [hl, hflat]⟩⟩
    rw [← getElem_levelSizes t (c := t.maxLevels)
      (l := t.maxLevels - (positionOf (t.levelSizes t.maxLevels) x).1) (by omega) (by omega)
      (by omega)]
    simpa only [hl] using ho
  · rintro ⟨l, h1, hl, hx⟩
    obtain ⟨o, ho, rfl⟩ := (inLevel_iff_flatPos t hl).mp hx
    have hsize := getElem_levelSizes t h1 hl (by omega)
    have hend : flatPos (t.levelSizes t.maxLevels) (t.maxLevels - l)
        (t.levelSizes t.maxLevels)[t.maxLevels - l] ≤ (t.levelSizes t.maxLevels).sum :=
      flatPos_le_sum (by omega) le_rfl
    simp only [flatPos] at hend ⊢
    omega

section Regions

variable {t : MerkleTree} (ht : t.Valid)
include ht

theorem levelSizes_pos : ∀ c, c ≤ t.maxLevels → ∀ s ∈ t.levelSizes c, 0 < s
  | 0, _, _, hs => by simp [levelSizes] at hs
  | c + 1, hc, s, hs => by
    rw [levelSizes, List.mem_cons] at hs
    rcases hs with rfl | hs
    · rw [ht.pageSize_eq]
      exact Nat.mul_pos (levelPages_pos ht hc) (by decide)
    · exact levelSizes_pos c (by omega) s hs

/-- **The regions are disjoint.** A byte lies in the region of at most one level. -/
theorem inLevel_unique {l₁ l₂ x : Nat} (h₁ : 1 ≤ l₁) (hl₁ : l₁ ≤ t.maxLevels) (h₂ : 1 ≤ l₂)
    (hl₂ : l₂ ≤ t.maxLevels) (hx₁ : t.InLevel l₁ x) (hx₂ : t.InLevel l₂ x) : l₁ = l₂ := by
  have hpos := levelSizes_pos ht t.maxLevels le_rfl
  have hlen := length_levelSizes t t.maxLevels
  obtain ⟨o₁, ho₁, rfl⟩ := (inLevel_iff_flatPos t hl₁).mp hx₁
  obtain ⟨o₂, ho₂, heq⟩ := (inLevel_iff_flatPos t hl₂).mp hx₂
  have hpos₁ := positionOf_flatPos hpos (i := t.maxLevels - l₁) (o := o₁) (by omega)
    (by rw [getElem_levelSizes t h₁ hl₁]; exact ho₁)
  have hpos₂ := positionOf_flatPos hpos (i := t.maxLevels - l₂) (o := o₂) (by omega)
    (by rw [getElem_levelSizes t h₂ hl₂]; exact ho₂)
  rw [heq, hpos₂] at hpos₁
  have := congrArg Prod.fst hpos₁
  simp only at this
  omega

end Regions

end MerkleTree

/-! ## Writes stay inside their level -/

theorem writeDigest_eq_ok {m m' : List UInt8} {offset : Nat} {digest : List UInt8}
    (h : writeDigest m offset digest = .ok m') :
    offset + 32 ≤ m.length ∧ digest.length = 32 ∧ m' = overwrite m offset digest := by
  unfold writeDigest at h
  split_ifs at h with hfit hlen
  · exact ⟨hfit, hlen, (Except.ok.inj h).symm⟩
  · cases h
  · cases h

theorem writeDigest_frame {m m' : List UInt8} {offset : Nat} {digest : List UInt8}
    (h : writeDigest m offset digest = .ok m') {x : Nat} (hx : x < offset ∨ offset + 32 ≤ x) :
    m'[x]? = m[x]? := by
  obtain ⟨hfit, hlen, rfl⟩ := writeDigest_eq_ok h
  exact getElem?_overwrite_of_not_mem (by omega) (by omega)

namespace VerityGenerator

/-- **`set_digest` writes inside its level.** On a tree of two data pages or more, an accepted
`set_digest` changes only bytes of the region of the level it names. -/
theorem setDigest_frame {g g' : VerityGenerator} (ht : g.mklTree.Valid)
    (hn : 2 ≤ g.mklTree.dataPages) {l i : Nat} {digest : List UInt8}
    (h : g.setDigest l i digest = .ok g') {x : Nat} (hx : ¬ g.mklTree.InLevel l x) :
    g'.fileMap[x]? = g.fileMap[x]? := by
  unfold setDigest at h
  dsimp only at h
  split_ifs at h with hlen hroot hlevel hindex
  · cases h
  · omega
  · cases h
  · cases h
  · obtain ⟨m, hw, hg'⟩ := bind_eq_ok.mp h
    obtain rfl := Except.ok.inj hg'
    have hfit := MerkleTree.levelEntries_mul_le ht (l := l) (by omega) (by omega)
    rw [ht.digestSize_eq, ht.pageSize_eq] at hfit
    rw [ht.digestSize_eq] at hw
    unfold MerkleTree.InLevel at hx
    rw [ht.pageSize_eq] at hx
    exact writeDigest_frame hw (by omega)

theorem generateLoop_frame (digestOf : List UInt8 → List UInt8) (pageSize : Nat) :
    ∀ (count : Nat) (m m' : List UInt8) (dataBase digestBase : Nat),
      generateLoop digestOf pageSize 32 count m dataBase digestBase = .ok m' →
      ∀ x, x < digestBase ∨ digestBase + count * 32 ≤ x → m'[x]? = m[x]?
  | 0, m, m', _, _, h, _, _ => by
    rw [generateLoop] at h
    rw [← Except.ok.inj h]
  | count + 1, m, m', dataBase, digestBase, h, x, hx => by
    rw [generateLoop] at h
    obtain ⟨_, -, h⟩ := bind_eq_ok.mp h
    obtain ⟨m₁, hw, h⟩ := bind_eq_ok.mp h
    rw [generateLoop_frame digestOf pageSize count m₁ m' _ _ h x (by omega),
      writeDigest_frame hw (by omega)]

/-- **`generate_level_digests` writes inside its level.** -/
theorem generateLevelDigests_frame {digestOf : List UInt8 → List UInt8} {g g' : VerityGenerator}
    (ht : g.mklTree.Valid) {l : Nat} (h : g.generateLevelDigests digestOf l = .ok g') {x : Nat}
    (hx : ¬ g.mklTree.InLevel l x) : g'.fileMap[x]? = g.fileMap[x]? := by
  unfold generateLevelDigests at h
  dsimp only at h
  split_ifs at h with hl
  · obtain ⟨m, hloop, hg'⟩ := bind_eq_ok.mp h
    obtain rfl := Except.ok.inj hg'
    have hfit := MerkleTree.levelEntries_mul_le ht (l := l) (by omega) hl.2
    rw [ht.digestSize_eq, ht.pageSize_eq] at hfit
    rw [ht.digestSize_eq] at hloop
    unfold MerkleTree.InLevel at hx
    rw [ht.pageSize_eq] at hx
    exact generateLoop_frame digestOf _ _ _ _ _ _ hloop x (by omega)
  · cases h

end VerityGenerator

/-! ## The layout -/

theorem two_mul_divRoundUp_le {m : Nat} (hm : 2 ≤ m) : 2 * divRoundUp m 128 ≤ m := by
  unfold divRoundUp
  omega

/-- The pages of all levels are fewer than the data pages, so every `u32` of the layout of at
most `u32::MAX` data pages fits. -/
theorem MerkleTree.totalPages_lt {t : MerkleTree} (ht : t.Valid) : t.totalPages < t.dataPages := by
  have hsum : ∀ k, k ≤ t.maxLevels →
      (List.range' 1 k).foldl (fun pages idx => pages + t.levelPages idx) 0 +
        ceilIter t.digestPerPage t.dataPages k ≤ t.dataPages := by
    intro k
    induction k with
    | zero => simp [ceilIter]
    | succ k ih =>
      intro hk
      have hhalf := two_mul_divRoundUp_le (ht.one_lt k (by omega))
      have hprev := ih (by omega)
      have hpages : t.levelPages (k + 1) =
          divRoundUp (ceilIter t.digestPerPage t.dataPages k) t.digestPerPage := by
        rw [levelPages_eq ht hk, ceilIter_succ]
      rw [List.range'_concat, List.foldl_append, List.foldl_cons, List.foldl_nil, Nat.one_mul,
        Nat.add_comm 1 k, hpages, ceilIter_succ]
      rw [ht.digestPerPage_eq] at hhalf hprev ⊢
      omega
  have htop := hsum t.maxLevels le_rfl
  have hpos := ceilIter_pos ht.dataPages_pos (digestPerPage_pos ht) t.maxLevels
  rw [totalPages]
  omega

/-- The layout of a tree of 4 KiB pages of 32-byte digests: each level's entries fit in its
pages, the regions of levels `1..=max_levels` are disjoint and cover `[0, total_pages * 4096)`,
the top level is one page at offset 0, and each level has an entry for each page of the level
below. -/
structure MerkleTree.Partition (t : MerkleTree) : Prop where
  entries_fit : ∀ l, 1 ≤ l → l ≤ t.maxLevels → t.levelEntries l * 32 ≤ t.levelPages l * 4096
  disjoint : ∀ l₁ l₂ x, 1 ≤ l₁ → l₁ ≤ t.maxLevels → 1 ≤ l₂ → l₂ ≤ t.maxLevels →
    t.InLevel l₁ x → t.InLevel l₂ x → l₁ = l₂
  cover : ∀ x, x < t.totalPages * 4096 ↔ ∃ l, 1 ≤ l ∧ l ≤ t.maxLevels ∧ t.InLevel l x
  top_pages : t.levelPages t.maxLevels = 1
  top_base : t.levelBase t.maxLevels = 0
  entries_succ : ∀ l, l < t.maxLevels → t.levelEntries (l + 1) = t.levelPages l

/-- Every accepted `set_digest` and `generate_level_digests` on a generator of the tree changes
only bytes of the region of the level it is given. -/
structure MerkleTree.WritesInLevel (t : MerkleTree) : Prop where
  set_digest : ∀ (g g' : VerityGenerator) (l i : Nat) (digest : List UInt8), g.mklTree = t →
    g.setDigest l i digest = .ok g' → ∀ x, ¬ t.InLevel l x → g'.fileMap[x]? = g.fileMap[x]?
  generate : ∀ (digestOf : List UInt8 → List UInt8) (g g' : VerityGenerator) (l : Nat),
    g.mklTree = t → g.generateLevelDigests digestOf l = .ok g' →
      ∀ x, ¬ t.InLevel l x → g'.fileMap[x]? = g.fileMap[x]?

theorem MerkleTree.partition_of_valid {t : MerkleTree} (ht : t.Valid) : t.Partition := by
  have hsizes : t.digestSize = 32 ∧ t.pageSize = 4096 := ⟨ht.digestSize_eq, ht.pageSize_eq⟩
  refine ⟨fun l h1 hl => ?_, fun l₁ l₂ x h₁ hl₁ h₂ hl₂ => inLevel_unique ht h₁ hl₁ h₂ hl₂,
    fun x => ?_, levelPages_maxLevels ht, by rw [levelBase, if_pos le_rfl],
    fun l hl => levelEntries_succ ht hl⟩
  · have := levelEntries_mul_le ht h1 hl
    rwa [hsizes.1, hsizes.2] at this
  · rw [← hsizes.2]
    exact lt_totalPages_iff t x

theorem MerkleTree.writesInLevel_of_valid {t : MerkleTree} (ht : t.Valid) (hn : 2 ≤ t.dataPages) :
    t.WritesInLevel := by
  refine ⟨fun g g' l i digest hg h x hx => ?_, fun digestOf g g' l hg h x hx => ?_⟩
  · subst hg
    exact VerityGenerator.setDigest_frame ht hn h hx
  · subst hg
    exact VerityGenerator.generateLevelDigests_frame ht h hx

/-- **The Merkle tree layout is a partition.** For every number of data pages from 2 on, the tree
`new` builds lays its levels out as consecutive regions of `[0, total_pages * 4096)`, and every
digest write lands in the region of its own level. -/
theorem merkleTree_layout_partition (n : Nat) (hn : 2 ≤ n) :
    ∃ t, MerkleTree.new 4096 n = .ok t ∧ t.Partition ∧ t.WritesInLevel := by
  have hnew : MerkleTree.new 4096 n =
      .ok ⟨2 ^ (4096 / 32 : Nat).log2, 32, n, 4096,
        maxLevelsLoop (2 ^ (4096 / 32 : Nat).log2) (by decide) n 0⟩ := by
    rw [MerkleTree.new, dif_pos rfl]
  have ht := MerkleTree.new_valid (by omega) hnew
  exact ⟨_, hnew, MerkleTree.partition_of_valid ht, MerkleTree.writesInLevel_of_valid ht hn⟩

theorem merkleTree_layout_partition_16385 :
    2 ≤ 16385 ∧ ∃ t, MerkleTree.new 4096 16385 = .ok t ∧ t.Partition ∧ t.WritesInLevel :=
  ⟨by decide, merkleTree_layout_partition 16385 (by decide)⟩

end Nydus.Utils.Verity
