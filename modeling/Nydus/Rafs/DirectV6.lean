import Mathlib
import Nydus.Lib.Outcome
import Nydus.Storage.MetaFile
import Nydus.Rafs.DirentV6

/-!
# A RAFS v6 directory read from the mapped bootstrap (`rafs/src/metadata/direct_v6.rs`)

`OndiskInodeWrapper` reads an inode and its directory entries straight from the memory-mapped
bootstrap, which is untrusted input. A directory's data is a run of blocks, each a table of
12-byte `RafsV6Dirent`s followed by the names. `get_entry_count` takes the number of entries of a
block from the `e_nameoff` of its head entry (the names start right after the table), and
`entry_name` cuts a name from its own `e_nameoff` to the next entry's, or, for the last entry of a
block, to the end of the block, the end of the inode, or the first NUL.

The model reads the mapping as `Nydus.Storage.Meta.MappedFile` does: a length and a byte function,
with the records read little-endian at the offsets of their `#[repr(C)]` layouts. Arithmetic
that Rust checks, or that a debug build checks for overflow, keeps its check; a sum of offsets in
the mapping is computed on `Nat`.

A malformed block can make the readers panic. A head entry with `e_nameoff = 0` gives a block of
no entries (`getEntryCount_of_nameoff_zero`), and `find_target_block` asks `entry_name` for the
name of entry 0 of its pivot block before it looks at the count, so `assert!(max_entries > 0)`
fails (`findTargetBlock_panics_of_empty_pivot`).
`get_child_by_name` on such a directory panics for every name.

On a well-formed directory the readers agree with the entry-level model of `Nydus.Rafs.V6`.
`ReadsAs w blocks` says that the head entry of each block counts its entries and that `get_entry`
and `entry_name` read each entry's nid and name. Then each round of the two loops on the mapping
decides as the loop on the blocks does (`findTargetBlockLoop_step`, `getChildByNameLoop_step`),
and so does the whole search (`getChildByName_readsAs`). With `getChildByName_eq_scan`, the
lookup on the mapping returns the inode of the child a linear scan of the entries finds
(`getChildByName_eq_scan_of_readsAs`).

Model notes. The wrapper keeps the inode that `OndiskInodeWrapper::new` read; the readers'
`disk_inode(&state)` reads it again from the same mapping. A child's wrapper is what
`inode_wrapper_with_info` returns, without its parent and name, which the readers do not read.
-/

namespace Nydus.Rafs.V6.Direct

open Nydus.Lib
open Nydus.Lib.Outcome (bail)
open Nydus.Storage.Meta (MappedFile hex)

/-! ## Layout -/

def erofsBlockSize4096 : Nat := 4096
def erofsBlockSize512 : Nat := 512
def erofsIVersionBits : Nat := 1
def erofsIDatalayoutBits : Nat := 3
def erofsInodeFlatPlain : Nat := 0
def erofsInodeFlatInline : Nat := 2
def erofsInodeSlotSize : Nat := 32

/-- `size_of` of the on-disk records. -/
def inodeCompactSize : Nat := 32
def inodeExtendedSize : Nat := 64
def direntSize : Nat := 12
def xattrIbodyHeaderSize : Nat := 12
def xattrEntrySize : Nat := 4

/-- `libc::S_IFMT` and `libc::S_IFDIR`. -/
def sIfmt : Nat := 0o170000
def sIfdir : Nat := 0o040000

/-- `RafsError::InvalidImageData`, as its `Display` prints it. -/
def invalidImageData : String := "InvalidImageData"

/-- The message of `assert!(max_entries > 0)` in `entry_name`. -/
def maxEntriesAssert : String := "assertion failed: max_entries > 0"

/-- `.map_err(|_e| RafsError::InvalidImageData)`: an `Err` becomes `InvalidImageData`. -/
def orInvalid {α : Type} : Outcome α → Outcome α
  | .error (.err _) => bail invalidImageData
  | r => r

/-- `.unwrap_or(d)` on a `Result`. -/
def unwrapOr {α : Type} (d : α) : Outcome α → Outcome α
  | .error (.err _) => .ok d
  | r => r

/-! ## The mapping -/

/-- `DirectMappingState`: the mapped bootstrap, and whether it is a tarfs image. -/
structure DirectMappingState where
  map : MappedFile
  isTarfs : Bool

/-- `DirectMappingState::block_size`. -/
def DirectMappingState.blockSize (state : DirectMappingState) : Nat :=
  if state.isTarfs then erofsBlockSize512 else erofsBlockSize4096

/-- `FileMapState::get_ref::<T>(offset)` for a `T` of `size` bytes aligned to `align`. The
mapping starts on a page, so the pointer is aligned exactly when the offset is. -/
def getRef (map : MappedFile) (offset size align : Nat) : Outcome Unit :=
  if offset + size ≤ map.size ∧ offset % align = 0 then .ok () else bail "invalid mmap offset"

/-- `FileMapState::get_slice::<u8>(offset, count)`. -/
def getSlice (map : MappedFile) (offset count : Nat) : Outcome (List UInt8) :=
  if offset + count ≤ map.size then .ok ((List.range count).map fun i => map.byte (offset + i))
  else bail "invalid range in validate_slice"

/-- The fields of `RafsV6InodeCompact` or `RafsV6InodeExtended` that the directory readers use:
`i_format`, `i_xattr_icount`, `i_mode`, `i_size` and `i_u`. -/
structure RafsV6OndiskInode where
  format : Nat
  xattrInlineCount : Nat
  mode : Nat
  size : Nat
  union : Nat
  deriving DecidableEq, Repr

/-- `DirectSuperBlockV6::disk_inode`: the compact inode at `offset`, or the extended one when bit
0 of its format is set. The size is a `u32` at byte 8 of a compact inode and a `u64` there in an
extended one. -/
def diskInode (state : DirectMappingState) (offset : Nat) : Outcome RafsV6OndiskInode := do
  getRef state.map offset inodeCompactSize 4
  let format := state.map.readLE offset 2
  let xattrInlineCount := state.map.readLE (offset + 2) 2
  let mode := state.map.readLE (offset + 4) 2
  let union := state.map.readLE (offset + 16) 4
  if format &&& erofsIVersionBits = 0 then
    pure ⟨format, xattrInlineCount, mode, state.map.readLE (offset + 8) 4, union⟩
  else do
    getRef state.map offset inodeExtendedSize 8
    pure ⟨format, xattrInlineCount, mode, state.map.readLE (offset + 8) 8, union⟩

/-- `div_round_up(n, d)` on `u64`: `(n + d - 1) / d`, whose sum panics past `u64`. -/
def divRoundUp (n d : Nat) : Outcome Nat :=
  if n + d < 2 ^ 64 then .ok ((n + d - 1) / d) else Outcome.panic "attempt to add with overflow"

/-- `DirectSuperBlockV6` with the fields of its `DirectCachedInfo` that the readers use. -/
structure DirectSuperBlockV6 where
  state : DirectMappingState
  metaOffset : Nat
  chunkSize : Nat

/-- `OndiskInodeWrapper`: an inode at `offset` of the mapping, and its number of data blocks. -/
structure OndiskInodeWrapper where
  mapping : DirectSuperBlockV6
  offset : Nat
  inode : RafsV6OndiskInode
  blocksCount : Nat

/-- `OndiskInodeWrapper::new`. -/
def OndiskInodeWrapper.new (mapping : DirectSuperBlockV6) (offset : Nat) :
    Outcome OndiskInodeWrapper := do
  let inode ← diskInode mapping.state offset
  let blocksCount ← divRoundUp inode.size mapping.state.blockSize
  pure ⟨mapping, offset, inode, blocksCount⟩

/-- `inode_wrapper`: the inode of `nid`, in its 32-byte slot from the start of the metadata. -/
def DirectSuperBlockV6.inodeWrapper (sb : DirectSuperBlockV6) (nid : Nat) :
    Outcome OndiskInodeWrapper :=
  let nidHex := hex nid
  if nid ≥ (2 ^ 64 - 1) / erofsInodeSlotSize then
    bail s!"v6: inode number 0x{nidHex} is too big"
  else if sb.metaOffset + nid * erofsInodeSlotSize < 2 ^ 64 then
    OndiskInodeWrapper.new sb (sb.metaOffset + nid * erofsInodeSlotSize)
  else bail s!"v6: invalid inode number 0x{nidHex}"

/-- `RafsV6Dirent`: `e_nid: u64`, `e_nameoff: u16`, `e_file_type: u8`. -/
structure RafsV6Dirent where
  eNid : UInt64
  eNameoff : Nat
  eFileType : Nat
  deriving DecidableEq, Repr

/-- The dirent at `offset` of the mapping (`#[repr(C, packed(2))]`, aligned to 2). -/
def direntAt (map : MappedFile) (offset : Nat) : Outcome RafsV6Dirent := do
  getRef map offset direntSize 2
  pure ⟨(map.readLE offset 8).toUInt64, map.readLE (offset + 8) 2, map.readLE (offset + 10) 1⟩

/-! ## The readers -/

namespace OndiskInodeWrapper

variable (w : OndiskInodeWrapper)

/-- The mapping state the readers load. -/
def state : DirectMappingState := w.mapping.state

/-- `is_dir`. -/
def isDir : Bool := w.inode.mode &&& sIfmt == sIfdir

/-- `size`. -/
def size : Nat := w.inode.size

/-- `inode_size`. -/
def inodeSize (inode : RafsV6OndiskInode) : Nat :=
  if inode.format &&& 1 <<< 0 ≠ 0 then inodeExtendedSize else inodeCompactSize

/-- `xattr_size`: RAFS v6 has only inline xattrs. -/
def xattrSize (inode : RafsV6OndiskInode) : Nat :=
  if inode.xattrInlineCount > 0 then
    (inode.xattrInlineCount - 1) * xattrEntrySize + xattrIbodyHeaderSize
  else 0

/-- `flat_data_block_offset`: block `i_u + index` of the mapping. -/
def flatDataBlockOffset (state : DirectMappingState) (inode : RafsV6OndiskInode) (index : Nat) :
    Outcome Nat :=
  let base := inode.union
  if base + index ≥ 2 ^ 64 ∨ base + index > 0xFFFFFFFF then bail invalidImageData
  else .ok ((base + index) * state.blockSize)

/-- `VALID_MODE_BITS`: the version bit and the three data layout bits. -/
def validModeBits : Nat :=
  ((1 <<< erofsIDatalayoutBits) - 1) <<< erofsIVersionBits ||| ((1 <<< erofsIVersionBits) - 1)

/-- `data_block_offset`: where data block `index` of the inode starts. A flat inline inode keeps
its last block right after the inode and its xattrs. -/
def dataBlockOffset (index : Nat) : Outcome Nat :=
  let format := w.inode.format
  -- `inode.format() & !VALID_MODE_BITS` on `u16`
  if format &&& (0xFFFF ^^^ validModeBits) ≠ 0 ∨ index > 0xFFFFFFFF then
    bail s!"Incompatible({format})"
  else
    let layout := format >>> erofsIVersionBits
    if layout = erofsInodeFlatPlain then flatDataBlockOffset w.state w.inode index
    else if layout = erofsInodeFlatInline then
      match compare w.blocksCount (index + 1) with
      | .gt => flatDataBlockOffset w.state w.inode index
      | .eq => .ok (w.offset + inodeSize w.inode + xattrSize w.inode)
      | .lt => bail invalidImageData
    else bail invalidImageData

/-- `get_entry`: the dirent `index` of block `blockIndex`, which must lie inside the block. -/
def getEntry (blockIndex index : Nat) : Outcome RafsV6Dirent := do
  let offset ← w.dataBlockOffset blockIndex
  if direntSize * (index + 1) ≥ w.state.blockSize then bail invalidImageData
  else if offset + direntSize * index < 2 ^ 64 then
    orInvalid (direntAt w.state.map (offset + direntSize * index))
  else bail invalidImageData

/-- The length of the last name of a block: to the end of the block, or to the end of the
inode in its last block. -/
def lastNameLen (blockIndex base : Nat) : Outcome Nat :=
  let blockSize := w.state.blockSize
  match compare w.blocksCount (blockIndex + 1) with
  | .gt => .ok (blockSize - base)
  | .eq =>
    if w.size % blockSize = 0 then .ok (blockSize - base)
    -- `self.size() % block_size - base` on `u64`
    else if base ≤ w.size % blockSize then .ok (w.size % blockSize - base)
    else Outcome.panic "attempt to subtract with overflow"
  | .lt => bail invalidImageData

/-- `entry_name`: the name of entry `index` of a block of `maxEntries` entries. The last name of
a block ends at its first NUL. -/
def entryName (blockIndex index maxEntries : Nat) : Outcome (List UInt8) :=
  if maxEntries = 0 then Outcome.panic maxEntriesAssert
  else do
    let blockSize := w.state.blockSize
    let offset ← w.dataBlockOffset blockIndex
    let de ← w.getEntry blockIndex index
    match compare index (maxEntries - 1) with
    | .lt => do
      let nextDe ← w.getEntry blockIndex (index + 1)
      if nextDe.eNameoff ≥ blockSize then bail invalidImageData
      else if de.eNameoff ≤ nextDe.eNameoff then
        orInvalid (getSlice w.state.map (offset + de.eNameoff) (nextDe.eNameoff - de.eNameoff))
      else
        let cur := nextDe.eNameoff
        let next := de.eNameoff
        bail s!"IllegalMetaStruct(Dir, \"cur {cur} next {next}\")"
    | .eq => do
      let base := de.eNameoff
      if base ≥ blockSize then bail invalidImageData
      else do
        let len ← w.lastNameLen blockIndex base
        let buf ← orInvalid (getSlice w.state.map (offset + base) len)
        pure (buf.takeWhile (· != 0))
    | .gt => bail invalidImageData

/-- `get_entry_count`: the `e_nameoff` of the head entry, which must be a whole number of
dirents inside a 4 KiB block, counted in dirents. -/
def getEntryCount (blockIndex : Nat) : Outcome Nat := do
  let headEntry ← w.getEntry blockIndex 0
  let nameOffset := headEntry.eNameoff
  if nameOffset ≥ erofsBlockSize4096 ∨ nameOffset % direntSize ≠ 0 then
    bail s!"v6: invalid e_nameoff {nameOffset} from directory entry"
  else .ok (nameOffset / direntSize)

/-- The loop of `find_target_block` over the blocks `first..=last`. -/
def findTargetBlockLoop (name : List UInt8) (first last : Int) : Outcome (Option Nat) :=
  if first ≤ last then do
    let pivot := first + ((last - first) >>> (1 : Nat))
    let entriesCount ← w.getEntryCount pivot.toNat
    let hName ← w.entryName pivot.toNat 0 entriesCount
    let tName ← w.entryName pivot.toNat (entriesCount - 1) entriesCount
    if (compare hName name).isLE && (compare tName name).isGE then pure (some pivot.toNat)
    else if compare hName name = .gt then
      if pivot = 0 then pure none else findTargetBlockLoop name first (pivot - 1)
    else findTargetBlockLoop name (pivot + 1) last
  else .ok none
termination_by (last + 1 - first).toNat
decreasing_by
  all_goals
    have := pivot_mem ‹first ≤ last›
    omega

/-- `find_target_block`: the block whose first and last names enclose `name`. -/
def findTargetBlock (name : List UInt8) : Outcome (Option Nat) :=
  if w.inode.size = 0 ∨ !w.isDir then .ok none
  else if w.blocksCount > 0xFFFFFFFF then bail "v6: invalid block count in directory entry"
  -- `(blocks_count - 1) as i64` on `u64`: a directory of nonzero size has a block
  else w.findTargetBlockLoop name 0 ((w.blocksCount - 1 : Nat) : Int)

/-- The loop of `get_child_by_name` over the entries `first..=last` of the target block. -/
def getChildByNameLoop (target entriesCount : Nat) (name : List UInt8) (first last : Int) :
    Outcome OndiskInodeWrapper :=
  if first ≤ last then do
    let pivot := first + ((last - first) >>> (1 : Nat))
    let de ← w.getEntry target pivot.toNat
    let dName ← w.entryName target pivot.toNat entriesCount
    match compare dName name with
    | .eq => w.mapping.inodeWrapper de.eNid.toNat
    | .lt => getChildByNameLoop target entriesCount name (pivot + 1) last
    | .gt => getChildByNameLoop target entriesCount name first (pivot - 1)
  else bail enoent
termination_by (last + 1 - first).toNat
decreasing_by
  all_goals
    have := pivot_mem ‹first ≤ last›
    omega

/-- `get_child_by_name`. -/
def getChildByName (name : List UInt8) : Outcome OndiskInodeWrapper := do
  match ← w.findTargetBlock name with
  | some target =>
    let entriesCount ← w.getEntryCount target
    -- `(entries_count - 1) as i64` on `usize`
    if entriesCount = 0 then Outcome.panic "attempt to subtract with overflow"
    else w.getChildByNameLoop target entriesCount name 0 (entriesCount - 1)
  | none => bail enoent

/-- `get_child_count`: the entries of all blocks, a block that fails to read counting none,
less `.` and `..`. A regular file counts its chunks. -/
def getChildCount : Outcome Nat :=
  if !w.isDir then do
    let chunks ← divRoundUp w.size w.mapping.chunkSize
    pure (chunks % 2 ^ 32)
  else do
    let childCnt ← (List.range w.blocksCount).foldlM
      (fun childCnt i => do
        let entriesCount ← unwrapOr 0 (w.getEntryCount i)
        pure (childCnt + entriesCount)) 0
    if 2 ≤ childCnt ∧ childCnt ≤ 0xFFFFFFFF then pure (childCnt - 2) else pure 0

theorem new_blocksCount {mapping : DirectSuperBlockV6} {offset : Nat}
    (hnew : OndiskInodeWrapper.new mapping offset = .ok w) :
    w.blocksCount = (w.size + w.state.blockSize - 1) / w.state.blockSize := by
  rw [OndiskInodeWrapper.new, bind_eq_ok] at hnew
  obtain ⟨inode, -, hnew⟩ := hnew
  rw [bind_eq_ok] at hnew
  obtain ⟨blocksCount, hcount, hnew⟩ := hnew
  cases hnew
  unfold divRoundUp at hcount
  split_ifs at hcount
  · cases hcount
    rfl
  · simp [Outcome.panic] at hcount

theorem blockSize_pos (state : DirectMappingState) : 0 < state.blockSize := by
  unfold DirectMappingState.blockSize
  split <;> decide

theorem blocksCount_pos {mapping : DirectSuperBlockV6} {offset : Nat}
    (hnew : OndiskInodeWrapper.new mapping offset = .ok w) (hsize : w.size ≠ 0) :
    0 < w.blocksCount := by
  have hb := blockSize_pos w.state
  rw [w.new_blocksCount hnew]
  exact Nat.div_pos (by omega) hb

/-! ## A block of no entries -/

/-- A head entry whose names start at offset 0 makes a block of no entries. -/
theorem getEntryCount_of_nameoff_zero {blockIndex : Nat} {de : RafsV6Dirent}
    (h : w.getEntry blockIndex 0 = .ok de) (h0 : de.eNameoff = 0) :
    w.getEntryCount blockIndex = .ok 0 := by
  rw [getEntryCount, h, ok_bind, h0]
  rfl

theorem entryName_of_zero (blockIndex index : Nat) :
    w.entryName blockIndex index 0 = Outcome.panic maxEntriesAssert := by
  rw [entryName, if_pos rfl]

theorem findTargetBlockLoop_of_empty_pivot {name : List UInt8} {first last : Int}
    (hle : first ≤ last) {de : RafsV6Dirent}
    (h : w.getEntry (first + ((last - first) >>> (1 : Nat))).toNat 0 = .ok de)
    (h0 : de.eNameoff = 0) :
    w.findTargetBlockLoop name first last = Outcome.panic maxEntriesAssert := by
  rw [findTargetBlockLoop, if_pos hle]
  simp only [w.getEntryCount_of_nameoff_zero h h0, ok_bind, entryName_of_zero]
  rfl

/-- `find_target_block` on a directory panics when its first pivot block is empty. -/
theorem findTargetBlock_panics_of_empty_pivot {name : List UInt8} (hdir : w.isDir = true)
    (hsize : w.inode.size ≠ 0) (hpos : 0 < w.blocksCount) (hcount : w.blocksCount ≤ 0xFFFFFFFF)
    {de : RafsV6Dirent} (h : w.getEntry ((w.blocksCount - 1) / 2) 0 = .ok de)
    (h0 : de.eNameoff = 0) :
    w.findTargetBlock name = Outcome.panic maxEntriesAssert := by
  have hpivot : ((0 : Int) + ((((w.blocksCount - 1 : Nat) : Int) - 0) >>> (1 : Nat))).toNat =
      (w.blocksCount - 1) / 2 := by
    rw [Int.shiftRight_eq_div_pow]
    omega
  rw [findTargetBlock, if_neg (by simp [hdir, hsize]), if_neg (by omega)]
  exact w.findTargetBlockLoop_of_empty_pivot (by omega) (hpivot ▸ h) h0

/-! ## The directory a wrapper reads as -/

section ReadsAs

/-- The wrapper reads as the directory `blocks` of the entry-level model: a directory with one
data block for each block of `blocks`, where the head entry of each block counts its entries,
and `get_entry` and `entry_name` read the nid and the name of each entry. -/
structure ReadsAs (blocks : List (List Dirent)) : Prop where
  isDir : w.isDir = true
  blocksCount : w.blocksCount = blocks.length
  entryCount : ∀ i (hi : i < blocks.length), w.getEntryCount i = .ok blocks[i].length
  entry : ∀ i (hi : i < blocks.length) j (hj : j < blocks[i].length),
    RafsV6Dirent.eNid <$> w.getEntry i j = .ok blocks[i][j].nid
  name : ∀ i (hi : i < blocks.length) j (hj : j < blocks[i].length),
    w.entryName i j blocks[i].length = .ok blocks[i][j].name

variable {w} {blocks : List (List Dirent)}

theorem ReadsAs.pivot (h : w.ReadsAs blocks) (hne : ∀ b ∈ blocks, b ≠ []) {p : Nat}
    (hp : p < blocks.length) :
    w.getEntryCount p = .ok (blocks.getD p []).length ∧
      w.entryName p 0 (blocks.getD p []).length =
        .ok ((blocks.getD p []).headD Dirent.empty).name ∧
      w.entryName p ((blocks.getD p []).length - 1) (blocks.getD p []).length =
        .ok ((blocks.getD p []).getLastD Dirent.empty).name := by
  have hget : blocks.getD p [] = blocks[p] := List.getD_eq_getElem _ _ hp
  have hpos : 0 < blocks[p].length := List.length_pos_iff.mpr (hne _ (List.getElem_mem hp))
  rw [hget, headD_eq_getElem hpos, getLastD_eq_getElem hpos]
  exact ⟨h.entryCount p hp, h.name p hp 0 hpos, h.name p hp _ (by omega)⟩

/-- One round of the loop of `find_target_block` on the mapping decides as the loop on the
blocks does. -/
theorem findTargetBlockLoop_step (h : w.ReadsAs blocks) (hne : ∀ b ∈ blocks, b ≠ [])
    (name : List UInt8) {first last : Int} (hle : first ≤ last) (h0 : 0 ≤ first)
    (hl : last < blocks.length) :
    w.findTargetBlockLoop name first last =
      let pivot := first + ((last - first) >>> (1 : Nat))
      let entries := blocks.getD pivot.toNat []
      let hName := (entries.headD Dirent.empty).name
      let tName := (entries.getLastD Dirent.empty).name
      if (compare hName name).isLE && (compare tName name).isGE then .ok (some pivot.toNat)
      else if compare hName name = .gt then
        if pivot = 0 then .ok none else w.findTargetBlockLoop name first (pivot - 1)
      else w.findTargetBlockLoop name (pivot + 1) last := by
  have hpiv := pivot_mem hle
  obtain ⟨hcount, hhead, htail⟩ :=
    h.pivot hne (p := (first + ((last - first) >>> (1 : Nat))).toNat) (by omega)
  rw [findTargetBlockLoop, if_pos hle]
  simp only [hcount, hhead, htail, ok_bind]
  rfl

/-- **The outer search reads the blocks.** Over blocks of the directory, the loop of
`find_target_block` on the mapping stops where the loop on the blocks does. -/
theorem findTargetBlockLoop_readsAs (h : w.ReadsAs blocks) (hne : ∀ b ∈ blocks, b ≠ [])
    (name : List UInt8) {first last : Int} (h0 : 0 ≤ first) (hl : last < blocks.length) :
    w.findTargetBlockLoop name first last = .ok (V6.findTargetBlockLoop blocks name first last) := by
  -- the induction follows the loop on the blocks; each round reads the same pivot block
  fun_induction V6.findTargetBlockLoop blocks name first last with
  | case1 first last hle pivot entries hName tName hin =>
    rw [findTargetBlockLoop_step h hne name hle h0 hl]
    exact if_pos hin
  | case2 first last hle pivot entries hName tName hin hgt hp =>
    rw [findTargetBlockLoop_step h hne name hle h0 hl]
    exact (if_neg hin).trans ((if_pos hgt).trans (if_pos hp))
  | case3 first last hle pivot entries hName tName hin hgt hp ih =>
    have hpiv := pivot_mem hle
    rw [findTargetBlockLoop_step h hne name hle h0 hl, ← ih h0 (by omega)]
    exact (if_neg hin).trans ((if_pos hgt).trans (if_neg hp))
  | case4 first last hle pivot entries hName tName hin hgt ih =>
    have hpiv := pivot_mem hle
    rw [findTargetBlockLoop_step h hne name hle h0 hl, ← ih (by omega) hl]
    exact (if_neg hin).trans (if_neg hgt)
  | case5 first last hgt =>
    rw [findTargetBlockLoop, if_neg hgt]

/-- One round of the loop of `get_child_by_name` on the mapping decides as the loop on the
entries of the block does, and at the entry with the name reads the child's inode. -/
theorem getChildByNameLoop_step (h : w.ReadsAs blocks) {t : Nat} (ht : t < blocks.length)
    (name : List UInt8) {first last : Int} (hle : first ≤ last) (h0 : 0 ≤ first)
    (hl : last < blocks[t].length) :
    w.getChildByNameLoop t blocks[t].length name first last =
      let pivot := first + ((last - first) >>> (1 : Nat))
      let de := blocks[t].getD pivot.toNat Dirent.empty
      match compare de.name name with
      | .eq => w.mapping.inodeWrapper de.nid.toNat
      | .lt => w.getChildByNameLoop t blocks[t].length name (pivot + 1) last
      | .gt => w.getChildByNameLoop t blocks[t].length name first (pivot - 1) := by
  have hpiv := pivot_mem hle
  have hj : (first + ((last - first) >>> (1 : Nat))).toNat < blocks[t].length := by omega
  obtain ⟨d, hd, hnid⟩ := fmap_eq_ok.mp (h.entry t ht _ hj)
  rw [getChildByNameLoop, if_pos hle]
  simp only [hd, h.name t ht _ hj, ok_bind, List.getD_eq_getElem _ _ hj, hnid]

/-- **The inner search reads the block.** Over entries of block `t`, the loop of
`get_child_by_name` on the mapping finds the entry the loop on the block finds, and reads the
inode of its nid; it fails with `ENOENT` where that loop finds none. -/
theorem getChildByNameLoop_readsAs (h : w.ReadsAs blocks) {t : Nat} (ht : t < blocks.length)
    (name : List UInt8) {first last : Int} (h0 : 0 ≤ first) (hl : last < blocks[t].length) :
    w.getChildByNameLoop t blocks[t].length name first last =
      match V6.getChildByNameLoop blocks[t] name first last with
      | some nid => w.mapping.inodeWrapper nid.toNat
      | none => bail enoent := by
  fun_induction V6.getChildByNameLoop blocks[t] name first last with
  | case1 first last hle pivot de heq =>
    rw [getChildByNameLoop_step h ht name hle h0 hl]
    simp only [pivot, de] at heq ⊢
    rw [heq]
  | case2 first last hle pivot de hlt ih =>
    have hpiv := pivot_mem hle
    rw [getChildByNameLoop_step h ht name hle h0 hl, ← ih (by omega) hl]
    simp only [pivot, de] at hlt ⊢
    rw [hlt]
  | case3 first last hle pivot de hgt ih =>
    have hpiv := pivot_mem hle
    rw [getChildByNameLoop_step h ht name hle h0 hl, ← ih h0 (by omega)]
    simp only [pivot, de] at hgt ⊢
    rw [hgt]
  | case4 first last hgt =>
    rw [getChildByNameLoop, if_neg hgt]

theorem blocksCount_eq_zero_iff {mapping : DirectSuperBlockV6} {offset : Nat}
    (hnew : OndiskInodeWrapper.new mapping offset = .ok w) : w.blocksCount = 0 ↔ w.inode.size = 0 := by
  have hb := blockSize_pos w.state
  rw [w.new_blocksCount hnew, Nat.div_eq_zero_iff]
  show _ ↔ w.size = 0
  omega

theorem findTargetBlock_readsAs {mapping : DirectSuperBlockV6} {offset : Nat}
    (hnew : OndiskInodeWrapper.new mapping offset = .ok w) (h : w.ReadsAs blocks)
    (hne : ∀ b ∈ blocks, b ≠ []) (name : List UInt8) :
    w.findTargetBlock name = V6.findTargetBlock blocks name := by
  have hsize : w.inode.size = 0 ↔ blocks.length = 0 := by
    rw [← blocksCount_eq_zero_iff hnew, h.blocksCount]
  by_cases h0 : blocks.length = 0
  · rw [findTargetBlock, if_pos (.inl (hsize.mpr h0)), V6.findTargetBlock, if_pos h0]
  rw [findTargetBlock, if_neg (by simp [h.isDir, hsize, h0]), V6.findTargetBlock, if_neg h0,
    h.blocksCount]
  by_cases hc : blocks.length > 0xFFFFFFFF
  · rw [if_pos hc, if_pos hc]
  -- `(blocks_count - 1) as i64`: the last block, as the loop on the blocks counts it
  have hlast : ((blocks.length - 1 : Nat) : Int) = (blocks.length : Int) - 1 := by omega
  rw [if_neg hc, if_neg hc, hlast, findTargetBlockLoop_readsAs h hne name le_rfl (by omega)]

/-- **`get_child_by_name` on the mapping reads the directory's blocks.** On a wrapper that `new`
built and that reads as a directory of nonempty blocks, `get_child_by_name` fails where the
search on the blocks fails, and otherwise reads the inode of the nid that search finds. -/
theorem getChildByName_readsAs {mapping : DirectSuperBlockV6} {offset : Nat}
    (hnew : OndiskInodeWrapper.new mapping offset = .ok w) (h : w.ReadsAs blocks)
    (hne : ∀ b ∈ blocks, b ≠ []) (name : List UInt8) :
    w.getChildByName name = (do
      let nid ← V6.getChildByName blocks name
      w.mapping.inodeWrapper nid.toNat) := by
  rw [getChildByName, findTargetBlock_readsAs hnew h hne name, V6.getChildByName]
  cases hf : V6.findTargetBlock blocks name with
  | error e => rfl
  | ok o =>
    cases o with
    | none => rfl
    | some p =>
      -- the target block has entries, so the loop runs over all of them
      have hp := findTargetBlock_lt hf
      have hpos : blocks[p].length ≠ 0 :=
        (List.length_pos_iff.mpr (hne _ (List.getElem_mem hp))).ne'
      simp only [ok_bind, h.entryCount p hp, if_neg hpos, List.getD_eq_getElem _ _ hp]
      rw [getChildByNameLoop_readsAs h hp name le_rfl (by omega)]
      cases V6.getChildByNameLoop blocks[p] name 0 (blocks[p].length - 1) <;> rfl

end ReadsAs

end OndiskInodeWrapper

/-- `get_child_by_name` on a directory whose first pivot block has a head entry with
`e_nameoff = 0` panics, whatever the name: the malformed block is not reported as an `Err`. -/
theorem getChildByName_panics_of_empty_pivot {mapping : DirectSuperBlockV6} {offset : Nat}
    {w : OndiskInodeWrapper} (hnew : OndiskInodeWrapper.new mapping offset = .ok w)
    (hdir : w.isDir = true) (hsize : w.size ≠ 0) (hcount : w.blocksCount ≤ 0xFFFFFFFF)
    {de : RafsV6Dirent} (hhead : w.getEntry ((w.blocksCount - 1) / 2) 0 = .ok de)
    (h0 : de.eNameoff = 0) (name : List UInt8) :
    w.getChildByName name = Outcome.panic maxEntriesAssert := by
  have hpos : 0 < w.blocksCount := w.blocksCount_pos hnew hsize
  rw [OndiskInodeWrapper.getChildByName,
    w.findTargetBlock_panics_of_empty_pivot hdir hsize hpos hcount hhead h0]
  rfl

/-- A directory of one block whose head entry has `e_nameoff = 0`: a compact flat plain inode at
offset 0, of mode `0o40755` and size 4096, with its data at block 1, which is all zero. -/
def emptyHeadDir : DirectSuperBlockV6 where
  state := ⟨⟨8192, fun i =>
    if i = 4 then 0xED else if i = 5 then 0x41 else if i = 9 then 0x10 else if i = 16 then 1
    else 0⟩, false⟩
  metaOffset := 0
  chunkSize := 0x100000

theorem getChildByName_panics_of_empty_pivot_dot :
    ∃ w, OndiskInodeWrapper.new emptyHeadDir 0 = .ok w ∧
      w.getChildByName [0x2e] = Outcome.panic maxEntriesAssert := by
  have hnew : OndiskInodeWrapper.new emptyHeadDir 0 =
      .ok ⟨emptyHeadDir, 0, ⟨0, 0, 0x41ED, 4096, 1⟩, 1⟩ := rfl
  exact ⟨_, hnew, getChildByName_panics_of_empty_pivot hnew rfl (by decide) (by decide)
    (show _ = Except.ok ⟨0, 0, 0⟩ from rfl) rfl [0x2e]⟩

/-- **`get_child_by_name` on the mapped bootstrap answers as a scan of the directory.** A
wrapper that `new` built and that reads as a directory as the builder writes it, of at most
`u32::MAX` blocks, returns the inode of the child that a linear scan of `walk_children_inodes`
finds, and `ENOENT` where the scan finds none. -/
theorem getChildByName_eq_scan_of_readsAs {mapping : DirectSuperBlockV6} {offset : Nat}
    {w : OndiskInodeWrapper} {blocks : List (List Dirent)}
    (hnew : OndiskInodeWrapper.new mapping offset = .ok w) (h : w.ReadsAs blocks)
    (hs : SortedBlocks blocks) (hcount : blocks.length ≤ 0xFFFFFFFF) (name : List UInt8) :
    w.getChildByName name = (do
      match ← scanChildByName blocks name with
      | some nid => w.mapping.inodeWrapper nid.toNat
      | none => bail enoent) := by
  rw [w.getChildByName_readsAs hnew h hs.nonempty name, getChildByName_eq_scan hs hcount name]
  cases scanChildByName blocks name with
  | error e => rfl
  | ok o => cases o <;> rfl

/-- A tarfs directory of one 512-byte block: a compact flat plain inode at offset 0, of mode
`0o40755` and size 512, whose data block 1 holds the entries `.`, `..` and `a` of nids 0, 0 and
1; the inode of nid 1 is at offset 32. -/
def tarfsDir : DirectSuperBlockV6 where
  state := ⟨⟨1024, fun i =>
    if i = 4 then 0xED else if i = 5 then 0x41 else if i = 9 then 0x02 else if i = 16 then 1
    else if i = 520 then 36 else if i = 532 then 37 else if i = 536 then 1
    else if i = 544 then 39 else if i = 548 ∨ i = 549 ∨ i = 550 then 0x2e
    else if i = 551 then 0x61 else 0⟩, true⟩
  metaOffset := 0
  chunkSize := 0x100000

/-- The wrapper `new` builds for the inode of `tarfsDir`. -/
def tarfsRoot : OndiskInodeWrapper := ⟨tarfsDir, 0, ⟨0, 0, 0x41ED, 512, 1⟩, 1⟩

/-- The entries of `tarfsDir`. -/
def tarfsDirBlocks : List (List Dirent) := [[⟨0, [0x2e]⟩, ⟨0, [0x2e, 0x2e]⟩, ⟨1, [0x61]⟩]]

theorem getChildByName_eq_scan_of_readsAs_tarfs :
    OndiskInodeWrapper.new tarfsDir 0 = .ok tarfsRoot ∧ tarfsRoot.ReadsAs tarfsDirBlocks ∧
      SortedBlocks tarfsDirBlocks ∧ tarfsDirBlocks.length ≤ 0xFFFFFFFF ∧
      tarfsRoot.getChildByName [0x61] = (do
        match ← scanChildByName tarfsDirBlocks [0x61] with
        | some nid => tarfsRoot.mapping.inodeWrapper nid.toNat
        | none => bail enoent) := by
  have hnew : OndiskInodeWrapper.new tarfsDir 0 = .ok tarfsRoot := rfl
  have hreads : tarfsRoot.ReadsAs tarfsDirBlocks :=
    ⟨rfl, rfl, by decide, by decide, by decide⟩
  have hs : SortedBlocks tarfsDirBlocks := ⟨by decide, by decide, by decide⟩
  exact ⟨hnew, hreads, hs, by decide,
    getChildByName_eq_scan_of_readsAs hnew hreads hs (by decide) [0x61]⟩

end Nydus.Rafs.V6.Direct
