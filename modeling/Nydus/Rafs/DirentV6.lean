import Mathlib
import Nydus.Lib.Outcome
import Nydus.Lib.BinarySearch

/-!
# Looking up a child of a RAFS v6 directory (`rafs/src/metadata/direct_v6.rs`)

A v6 directory stores its entries in blocks of dirents. Each entry holds the nid of a child and
its name. The builder writes the entries sorted by name across the whole directory and fills one
block after another, so no block is empty.

`get_child_by_name` searches in two steps. First, `find_target_block` runs a binary search over
the blocks: it compares the name with the first and last names of the middle block. Then a
second binary search runs inside the block it found. `walk_children_inodes` hands the entries to
a handler one by one, in order.

`getChildByName_eq_scan` proves that the two searches answer as a linear scan of the walk does.
They find a child exactly when the scan finds one, and then with the same nid.

Both loops are instances of `binarySearch` (`findTargetBlockLoop_eq`, `getChildByNameLoop_eq`).
`find_target_block` stops when the pivot is block 0 and its first name is above the name; in the
library search that step leaves an empty range instead. For a name held by block `t`, a block
classifies as its position compares with `t` (`classifyBlock_eq`). For a name held by entry `j`
of a block, an entry compares as its position does with `j` (`compare_name_getElem`).

Model notes. A directory is the list of its blocks as `get_entry_count`, `get_entry` and
`entry_name` read them: each block is the list of its entries. The searches and the walk read the
same entries through these functions. `Nydus.Rafs.V6.Direct` reads them from the bytes of the
mapped bootstrap and proves that its searches take the blocks as these do. Names
compare as `OsStr` does on Unix, byte by byte.
-/

namespace Nydus.Rafs.V6

open Nydus.Lib
open Nydus.Lib.Outcome (bail)

/-- A directory entry as `get_entry` and `entry_name` read it: the nid of the child and its
name. -/
structure Dirent where
  nid : UInt64
  name : List UInt8
  deriving DecidableEq, Repr

/-- What the model reads past the entries of a block. The searches never read there. -/
def Dirent.empty : Dirent := ⟨0, []⟩

/-- `enoent!()`. -/
def enoent : String := "No such file or directory (os error 2)"

/-- The blocks of a directory as the builder writes them. No block is empty, and the names
increase strictly within each block and from each block to every later one. -/
structure SortedBlocks (blocks : List (List Dirent)) : Prop where
  nonempty : ∀ b ∈ blocks, b ≠ []
  within : ∀ b ∈ blocks, (b.map Dirent.name).Pairwise fun x y => compare x y = .lt
  across : blocks.Pairwise fun b b' => ∀ x ∈ b, ∀ y ∈ b', compare x.name y.name = .lt

/-! ## The searches -/

/-- The loop of `find_target_block` over the blocks `first..=last`. It looks for the block whose
first and last names enclose `name`. -/
def findTargetBlockLoop (blocks : List (List Dirent)) (name : List UInt8) (first last : Int) :
    Option Nat :=
  if first ≤ last then
    let pivot := first + ((last - first) >>> (1 : Nat))
    let entries := blocks.getD pivot.toNat []
    let hName := (entries.headD Dirent.empty).name
    let tName := (entries.getLastD Dirent.empty).name
    if (compare hName name).isLE && (compare tName name).isGE then some pivot.toNat
    else if compare hName name = .gt then
      if pivot = 0 then none else findTargetBlockLoop blocks name first (pivot - 1)
    else findTargetBlockLoop blocks name (pivot + 1) last
  else none
termination_by (last + 1 - first).toNat
decreasing_by
  all_goals
    have := pivot_mem ‹first ≤ last›
    omega

/-- `find_target_block` on a directory. An empty directory (`size() == 0`) has no block, and more
than `u32::MAX` blocks is an error. -/
def findTargetBlock (blocks : List (List Dirent)) (name : List UInt8) : Outcome (Option Nat) :=
  if blocks.length = 0 then .ok none
  else if blocks.length > 0xFFFFFFFF then bail "v6: invalid block count in directory entry"
  else .ok (findTargetBlockLoop blocks name 0 (blocks.length - 1))

/-- The loop of `get_child_by_name` over the entries `first..=last` of the target block. -/
def getChildByNameLoop (entries : List Dirent) (name : List UInt8) (first last : Int) :
    Option UInt64 :=
  if first ≤ last then
    let pivot := first + ((last - first) >>> (1 : Nat))
    let de := entries.getD pivot.toNat Dirent.empty
    match compare de.name name with
    | .eq => some de.nid
    | .lt => getChildByNameLoop entries name (pivot + 1) last
    | .gt => getChildByNameLoop entries name first (pivot - 1)
  else none
termination_by (last + 1 - first).toNat
decreasing_by
  all_goals
    have := pivot_mem ‹first ≤ last›
    omega

/-- `get_child_by_name`: the nid of the child named `name`. -/
def getChildByName (blocks : List (List Dirent)) (name : List UInt8) : Outcome UInt64 := do
  match ← findTargetBlock blocks name with
  | some target =>
    let entries := blocks.getD target []
    match getChildByNameLoop entries name 0 (entries.length - 1) with
    | some nid => pure nid
    | none => bail enoent
  | none => bail enoent

/-! ## The walk -/

/-- `RafsInodeWalkAction`. -/
inductive RafsInodeWalkAction where
  | Continue
  | Break
  deriving DecidableEq, Repr

/-- A handler of `walk_children_inodes`. It gets the state it threads and the child's name, nid
and offset, and answers with the next action. -/
abbrev WalkHandler (σ : Type) := σ → List UInt8 → UInt64 → Nat → Outcome (RafsInodeWalkAction × σ)

/-- The two loops of `walk_children_inodes`, over the entries of all the blocks in order. The
first `skipped` entries are passed over. Each later entry goes to the handler with its offset,
one past the offset of the entry before it. -/
def walkLoop {σ : Type} (handler : WalkHandler σ) : List Dirent → Nat → Nat → σ → Outcome σ
  | [], _, _, s => .ok s
  | de :: rest, skipped, curOffset, s =>
    if skipped ≠ 0 then walkLoop handler rest (skipped - 1) curOffset s
    else do
      let (action, s) ← handler s de.name de.nid (curOffset + 1)
      match action with
      | .Break => pure s
      | .Continue => walkLoop handler rest 0 (curOffset + 1) s

/-- `walk_children_inodes` from `entry_offset`. An empty directory is an error. -/
def walkChildrenInodes {σ : Type} (blocks : List (List Dirent)) (entryOffset : Nat)
    (handler : WalkHandler σ) (s : σ) : Outcome σ :=
  if blocks.length = 0 then bail enoent
  else walkLoop handler blocks.flatten entryOffset entryOffset s

/-- The handler of a linear scan for `name`: keep the nid of the first entry with that name and
stop there. -/
def scanHandler (name : List UInt8) : WalkHandler (Option UInt64) := fun found n nid _ =>
  if n = name then .ok (.Break, some nid) else .ok (.Continue, found)

/-- A linear scan of the walk from offset 0 for the child named `name`. -/
def scanChildByName (blocks : List (List Dirent)) (name : List UInt8) :
    Outcome (Option UInt64) :=
  walkChildrenInodes blocks 0 (scanHandler name) none

/-! ## The loops as binary searches -/

/-- How the loop of `find_target_block` classifies the block at `p`. -/
def classifyBlock (blocks : List (List Dirent)) (name : List UInt8) (p : Int) : Ordering :=
  let entries := blocks.getD p.toNat []
  let hName := (entries.headD Dirent.empty).name
  let tName := (entries.getLastD Dirent.empty).name
  if (compare hName name).isLE && (compare tName name).isGE then .eq
  else if compare hName name = .gt then .gt
  else .lt

theorem findTargetBlockLoop_eq (blocks : List (List Dirent)) (name : List UInt8) {first last : Int}
    (h0 : 0 ≤ first) :
    findTargetBlockLoop blocks name first last =
      (binarySearch (classifyBlock blocks name) first last).map Int.toNat := by
  fun_induction findTargetBlockLoop blocks name first last with
  | case1 first last hle pivot entries hName tName hin =>
    rw [binarySearch_found hle (if_pos hin)]
    rfl
  | case2 first last hle pivot entries hName tName hin hgt hp =>
    -- at block 0 the source stops; the library search is left with the range `first..=-1`
    have hpiv := pivot_mem hle
    rw [binarySearch_left hle ((if_neg hin).trans (if_pos hgt)), binarySearch_empty (by omega)]
    rfl
  | case3 first last hle pivot entries hName tName hin hgt hp ih =>
    rw [ih h0, binarySearch_left hle ((if_neg hin).trans (if_pos hgt))]
  | case4 first last hle pivot entries hName tName hin hgt ih =>
    have hpiv := pivot_mem hle
    rw [ih (by omega), binarySearch_right hle ((if_neg hin).trans (if_neg hgt))]
  | case5 first last hgt =>
    rw [binarySearch_empty hgt]
    rfl

theorem getChildByNameLoop_eq (entries : List Dirent) (name : List UInt8) (first last : Int) :
    getChildByNameLoop entries name first last =
      (binarySearch (fun p => compare (entries.getD p.toNat Dirent.empty).name name) first
        last).map fun p => (entries.getD p.toNat Dirent.empty).nid := by
  fun_induction getChildByNameLoop entries name first last with
  | case1 first last hle pivot de heq =>
    rw [binarySearch_found hle heq]
    rfl
  | case2 first last hle pivot de hlt ih => rw [ih, binarySearch_right hle hlt]
  | case3 first last hle pivot de hgt ih => rw [ih, binarySearch_left hle hgt]
  | case4 first last hgt =>
    rw [binarySearch_empty hgt]
    rfl

/-! ## Sorted entries -/

section Sorted

variable {l : List Dirent}

/-- In a list whose names increase strictly, names compare as their positions do. -/
theorem compare_name_getElem (hs : (l.map Dirent.name).Pairwise fun x y => compare x y = .lt)
    {i j : Nat} (hi : i < l.length) (hj : j < l.length) :
    compare l[i].name l[j].name = compare i j := by
  have hlt : ∀ {a b : Nat} (ha : a < l.length) (hb : b < l.length), a < b →
      compare l[a].name l[b].name = .lt := by
    intro a b ha hb hab
    have h := List.pairwise_iff_getElem.mp hs a b (by simpa using ha) (by simpa using hb) hab
    simpa only [List.getElem_map] using h
  rcases Nat.lt_trichotomy i j with h | rfl | h
  · rw [hlt hi hj h, Nat.compare_eq_lt.mpr h]
  · rw [Std.ReflOrd.compare_self, Nat.compare_eq_eq.mpr rfl]
  · rw [Std.OrientedCmp.gt_iff_lt.mpr (hlt hj hi h), Nat.compare_eq_gt.mpr h]

theorem nodup_names (hs : (l.map Dirent.name).Pairwise fun x y => compare x y = .lt) :
    (l.map Dirent.name).Nodup :=
  hs.imp fun {a b} h heq => by
    subst heq
    rw [Std.ReflOrd.compare_self] at h
    cases h

theorem find?_name_eq_some (hl : (l.map Dirent.name).Nodup) {de : Dirent} (hde : de ∈ l) :
    l.find? (fun d => decide (d.name = de.name)) = some de := by
  cases h : l.find? (fun d => decide (d.name = de.name)) with
  | none =>
    have := List.find?_eq_none.mp h de hde
    simp at this
  | some x =>
    have hx := List.mem_of_find?_eq_some h
    have hname : x.name = de.name := by simpa using List.find?_some h
    rw [List.inj_on_of_nodup_map hl hx hde hname]

theorem headD_mem (hb : l ≠ []) : l.headD Dirent.empty ∈ l := by
  cases l with
  | nil => exact absurd rfl hb
  | cons y ys => exact List.mem_cons_self

theorem getLastD_mem (hb : l ≠ []) : l.getLastD Dirent.empty ∈ l := by
  rcases List.eq_nil_or_concat' l with rfl | ⟨L, z, rfl⟩
  · exact absurd rfl hb
  · rw [List.getLastD_concat]
    exact List.mem_append_right L List.mem_cons_self

theorem headD_eq_getElem (hl : 0 < l.length) : l.headD Dirent.empty = l[0] := by
  cases l with
  | nil => cases hl
  | cons d l => rfl

theorem getLastD_eq_getElem (hl : 0 < l.length) : l.getLastD Dirent.empty = l[l.length - 1] := by
  rw [List.getLastD_eq_getLast?, List.getLast?_eq_getElem?, List.getElem?_eq_getElem (by omega),
    Option.getD_some]

theorem headD_name_le (hs : (l.map Dirent.name).Pairwise fun x y => compare x y = .lt)
    {x : Dirent} (hx : x ∈ l) : (compare (l.headD Dirent.empty).name x.name).isLE := by
  cases l with
  | nil => cases hx
  | cons y ys =>
    rw [List.map_cons, List.pairwise_cons] at hs
    rcases List.mem_cons.mp hx with rfl | hx
    · simp [Std.ReflOrd.compare_self]
    · simp [hs.1 x.name (List.mem_map_of_mem hx)]

theorem name_le_getLastD (hs : (l.map Dirent.name).Pairwise fun x y => compare x y = .lt)
    {x : Dirent} (hx : x ∈ l) : (compare x.name (l.getLastD Dirent.empty).name).isLE := by
  rcases List.eq_nil_or_concat' l with rfl | ⟨L, z, rfl⟩
  · cases hx
  · rw [List.getLastD_concat]
    rw [List.map_append, List.pairwise_append] at hs
    rcases List.mem_append.mp hx with hx | hx
    · simp [hs.2.2 x.name (List.mem_map_of_mem hx) z.name (by simp)]
    · rw [List.mem_singleton.mp hx]
      simp [Std.ReflOrd.compare_self]

end Sorted

section Blocks

variable {blocks : List (List Dirent)}

theorem SortedBlocks.lt_of_lt (hs : SortedBlocks blocks) {b t : Nat} (hbt : b < t)
    (ht : t < blocks.length) {x y : Dirent} (hx : x ∈ blocks[b]) (hy : y ∈ blocks[t]) :
    compare x.name y.name = .lt :=
  List.pairwise_iff_getElem.mp hs.across b t (by omega) ht hbt x hx y hy

/-- **The outer classifier.** For a name held by block `t`, a block classifies as its position
compares with `t`: the blocks before `t` end below the name and the blocks after it start above
it. -/
theorem classifyBlock_eq (hs : SortedBlocks blocks) {t : Nat} (ht : t < blocks.length)
    {de : Dirent} (hde : de ∈ blocks[t]) {b : Nat} (hb : b < blocks.length) :
    classifyBlock blocks de.name b = compare b t := by
  have hget : blocks.getD b [] = blocks[b] := by simp [List.getD_eq_getElem?_getD, hb]
  have hmem := List.getElem_mem hb
  have hne := hs.nonempty _ hmem
  simp only [classifyBlock, Int.toNat_natCast, hget]
  rcases Nat.lt_trichotomy b t with hlt | rfl | hgt
  · -- an earlier block: its last name is below the name
    have hhead := hs.lt_of_lt hlt ht (headD_mem hne) hde
    have hlast := hs.lt_of_lt hlt ht (getLastD_mem hne) hde
    rw [if_neg (by rw [hlast]; simp), if_neg (by rw [hhead]; simp), Nat.compare_eq_lt.mpr hlt]
  · -- the block itself: its first and last names enclose the name
    have hw := hs.within _ hmem
    have hhead := headD_name_le hw hde
    have hlast := Std.OrientedCmp.isGE_of_isLE (name_le_getLastD hw hde)
    rw [if_pos (by rw [Bool.and_eq_true]; exact ⟨hhead, hlast⟩), Nat.compare_eq_eq.mpr rfl]
  · -- a later block: its first name is above the name
    have hhead := Std.OrientedCmp.gt_iff_lt.mpr (hs.lt_of_lt hgt hb hde (headD_mem hne))
    rw [if_neg (by rw [hhead]; simp), if_pos hhead, Nat.compare_eq_gt.mpr hgt]

end Blocks

/-! ## The searches agree with the walk -/

section Lookup

variable {blocks : List (List Dirent)}

/-- **The inner search.** In a block whose names increase strictly, the loop of
`get_child_by_name` finds the entry with the name, if there is one. -/
theorem getChildByNameLoop_spec {entries : List Dirent}
    (hs : (entries.map Dirent.name).Pairwise fun x y => compare x y = .lt) (name : List UInt8) :
    getChildByNameLoop entries name 0 (entries.length - 1) =
      (entries.find? fun d => decide (d.name = name)).map Dirent.nid := by
  rw [getChildByNameLoop_eq]
  have hget : ∀ i : Int, 0 ≤ i → i ≤ entries.length - 1 →
      ∃ hi : i.toNat < entries.length, entries.getD i.toNat Dirent.empty = entries[i.toNat] := by
    intro i h0 hi
    have hil : i.toNat < entries.length := by omega
    exact ⟨hil, by rw [List.getD_eq_getElem?_getD, List.getElem?_eq_getElem hil, Option.getD_some]⟩
  cases hf : entries.find? fun d => decide (d.name = name) with
  | none =>
    -- no entry has the name, so no position classifies `eq`
    cases hb : binarySearch (fun p => compare (entries.getD p.toNat Dirent.empty).name name) 0
        (entries.length - 1) with
    | none => rfl
    | some p =>
      obtain ⟨hp, h0, hl⟩ := binarySearch_sound hb
      obtain ⟨hpl, hgetp⟩ := hget p h0 hl
      rw [hgetp, Std.LawfulEqCmp.compare_eq_iff_eq] at hp
      have := List.find?_eq_none.mp hf _ (List.getElem_mem hpl)
      simp [hp] at this
  | some de =>
    -- the entry at position `j` holds the name, and every position classifies as it compares
    -- with `j`
    have hname : de.name = name := by simpa using List.find?_some hf
    obtain ⟨j, hj, rfl⟩ := List.getElem_of_mem (List.mem_of_find?_eq_some hf)
    have hcls : ∀ i : Int, 0 ≤ i → i ≤ entries.length - 1 →
        compare (entries.getD i.toNat Dirent.empty).name name = compare i.toNat j := by
      intro i h0 hi
      obtain ⟨hil, hgeti⟩ := hget i h0 hi
      rw [hgeti, ← hname]
      exact compare_name_getElem hs hil hj
    have hfound : (binarySearch (fun p => compare (entries.getD p.toNat Dirent.empty).name name) 0
        (entries.length - 1)).isSome :=
      binarySearch_complete (t := (j : Int)) (by omega) (by omega) fun i h0 hi => by
        rw [hcls i h0 hi, Nat.compare_eq_lt, Nat.compare_eq_gt]
        omega
    obtain ⟨p, hb⟩ := Option.isSome_iff_exists.mp hfound
    obtain ⟨hp, h0, hl⟩ := binarySearch_sound hb
    rw [hcls p h0 hl, Nat.compare_eq_eq] at hp
    obtain ⟨hpl, hgetp⟩ := hget p h0 hl
    rw [hb, Option.map_some, Option.map_some, hgetp]
    simp only [hp]

/-- **The outer search, for a name some block holds.** It finds that block. -/
theorem findTargetBlockLoop_of_mem (hs : SortedBlocks blocks) {t : Nat} (ht : t < blocks.length)
    {de : Dirent} (hde : de ∈ blocks[t]) :
    findTargetBlockLoop blocks de.name 0 (blocks.length - 1) = some t := by
  rw [findTargetBlockLoop_eq _ _ le_rfl]
  have hcls : ∀ i : Int, 0 ≤ i → i ≤ blocks.length - 1 →
      classifyBlock blocks de.name i = compare i.toNat t := by
    intro i h0 hi
    have := classifyBlock_eq hs ht hde (b := i.toNat) (by omega)
    rwa [Int.toNat_of_nonneg h0] at this
  have hfound : (binarySearch (classifyBlock blocks de.name) 0 (blocks.length - 1)).isSome :=
    binarySearch_complete (t := (t : Int)) (by omega) (by omega) fun i h0 hi => by
      rw [hcls i h0 hi, Nat.compare_eq_lt, Nat.compare_eq_gt]
      omega
  obtain ⟨p, hb⟩ := Option.isSome_iff_exists.mp hfound
  obtain ⟨hp, h0, hl⟩ := binarySearch_sound hb
  rw [hcls p h0 hl, Nat.compare_eq_eq] at hp
  rw [hb, Option.map_some, hp]

theorem findTargetBlockLoop_lt {name : List UInt8} {p : Nat}
    (h : findTargetBlockLoop blocks name 0 (blocks.length - 1) = some p) : p < blocks.length := by
  rw [findTargetBlockLoop_eq _ _ le_rfl, Option.map_eq_some_iff] at h
  obtain ⟨q, hq, rfl⟩ := h
  obtain ⟨-, h0, hl⟩ := binarySearch_sound hq
  omega

theorem findTargetBlock_lt {name : List UInt8} {p : Nat}
    (h : findTargetBlock blocks name = .ok (some p)) : p < blocks.length := by
  unfold findTargetBlock at h
  split_ifs at h
  · cases h
  · cases h
  · exact findTargetBlockLoop_lt (Except.ok.inj h)

theorem walkLoop_scan (name : List UInt8) :
    ∀ (l : List Dirent) (c : Nat) (found : Option UInt64),
      walkLoop (scanHandler name) l 0 c found =
        .ok (((l.find? fun d => decide (d.name = name)).map Dirent.nid).or found)
  | [], _, _ => rfl
  | de :: rest, c, found => by
    rw [walkLoop, if_neg (by simp)]
    by_cases hn : de.name = name
    · simp [scanHandler, hn]
    · simp [scanHandler, hn, walkLoop_scan name rest]

theorem scanChildByName_eq (h0 : blocks.length ≠ 0) (name : List UInt8) :
    scanChildByName blocks name =
      .ok ((blocks.flatten.find? fun d => decide (d.name = name)).map Dirent.nid) := by
  rw [scanChildByName, walkChildrenInodes, if_neg h0, walkLoop_scan, Option.or_none]

/-- **`get_child_by_name` answers as a linear scan of the walk.** In a directory as the builder
writes it, of at most `u32::MAX` blocks, the two binary searches find a child exactly when the
scan finds one, and then the same nid; both fail with `ENOENT` otherwise. -/
theorem getChildByName_eq_scan (hs : SortedBlocks blocks) (hcount : blocks.length ≤ 0xFFFFFFFF)
    (name : List UInt8) :
    getChildByName blocks name = (do
      match ← scanChildByName blocks name with
      | some nid => pure nid
      | none => bail enoent) := by
  by_cases h0 : blocks.length = 0
  · -- no block: the search finds none, and the walk fails
    simp [getChildByName, findTargetBlock, scanChildByName, walkChildrenInodes, h0, bail]
  have htarget : findTargetBlock blocks name =
      .ok (findTargetBlockLoop blocks name 0 (blocks.length - 1)) := by
    rw [findTargetBlock, if_neg h0, if_neg (by omega)]
  rw [scanChildByName_eq h0, ok_bind, getChildByName, htarget, ok_bind]
  cases hf : blocks.flatten.find? fun d => decide (d.name = name) with
  | some de =>
    -- the block holding the name is found, and then the entry in it
    have hname : de.name = name := by simpa using List.find?_some hf
    obtain ⟨b, hb, hdeb⟩ := List.mem_flatten.mp (List.mem_of_find?_eq_some hf)
    obtain ⟨t, ht, rfl⟩ := List.getElem_of_mem hb
    have hw := hs.within _ hb
    rw [← hname, findTargetBlockLoop_of_mem hs ht hdeb]
    simp only [List.getD_eq_getElem?_getD, List.getElem?_eq_getElem ht, Option.getD_some,
      getChildByNameLoop_spec hw, find?_name_eq_some (nodup_names hw) hdeb]
  | none =>
    -- no entry has the name, so neither has the block the outer search may stop at
    cases ho : findTargetBlockLoop blocks name 0 (blocks.length - 1) with
    | none => rfl
    | some p =>
      have hp := findTargetBlockLoop_lt ho
      have hw := hs.within _ (List.getElem_mem hp)
      have hnone : blocks[p].find? (fun d => decide (d.name = name)) = none := by
        rw [List.find?_eq_none]
        intro x hx
        exact List.find?_eq_none.mp hf x (List.mem_flatten.mpr ⟨_, List.getElem_mem hp, hx⟩)
      simp only [List.getD_eq_getElem?_getD, List.getElem?_eq_getElem hp, Option.getD_some,
        getChildByNameLoop_spec hw, hnone]

theorem getChildByName_eq_scan_two_blocks :
    SortedBlocks [[⟨1, [0x2e]⟩, ⟨1, [0x2e, 0x2e]⟩], [⟨2, [0x61]⟩, ⟨3, [0x62]⟩]] ∧
      [[(⟨1, [0x2e]⟩ : Dirent), ⟨1, [0x2e, 0x2e]⟩], [⟨2, [0x61]⟩, ⟨3, [0x62]⟩]].length ≤
        0xFFFFFFFF ∧
      getChildByName [[⟨1, [0x2e]⟩, ⟨1, [0x2e, 0x2e]⟩], [⟨2, [0x61]⟩, ⟨3, [0x62]⟩]] [0x62] = (do
        match ← scanChildByName [[⟨1, [0x2e]⟩, ⟨1, [0x2e, 0x2e]⟩], [⟨2, [0x61]⟩, ⟨3, [0x62]⟩]]
            [0x62] with
        | some nid => pure nid
        | none => bail enoent) := by
  have hs : SortedBlocks [[⟨1, [0x2e]⟩, ⟨1, [0x2e, 0x2e]⟩], [⟨2, [0x61]⟩, ⟨3, [0x62]⟩]] :=
    ⟨by decide, by decide, by decide⟩
  exact ⟨hs, by decide, getChildByName_eq_scan hs (by decide) [0x62]⟩

end Lookup

end Nydus.Rafs.V6
