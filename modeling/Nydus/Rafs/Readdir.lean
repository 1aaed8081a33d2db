import Mathlib
import Nydus.Rafs.DirentV6

/-!
# Resumable `readdir` (`rafs/src/fs.rs`)

`Rafs::do_readdir` lists a directory from an offset. It walks the children of the directory
(`walk_children_inodes`) and offers each entry to `add_entry`. `add_entry` answers with the room
the entry took in the reply, or with 0 when the entry does not fit. The walk stops at the first
entry that does not fit, and the next call starts from the offset of the last entry accepted.

Both readers list a directory's entries with offsets `1, 2, …` in order. A v5 directory lists `.`
and `..` at offsets 1 and 2, then child `i` of the inode table at offset `i + 3`. A v6 directory
lists the entries of its dirent blocks in order, with `.` and `..` among them, entry `i` at offset
`i + 1`. In both, a walk from an offset offers the entries after that offset, each with its own
offset (`walkChildrenInodesV5_eq`, `walkChildrenInodes_eq_offerFrom`). So a caller sees only the
directory's `listing`, numbered from 1.

`readdirRun` is a sequence of calls. The first call starts at offset 0. Each later call starts at
the offset of the last entry that the call before it accepted. The sequence stops after a call
that accepts nothing. `readdirRun_resumes` proves two things:
* the accepted entries are the first entries of the listing, with offsets `1, 2, …` in order, so
  none is repeated and none is skipped;
* when every call has room for an entry and there are enough calls, the accepted entries are the
  whole listing, and the sequence ends with a call that accepts nothing.

Model notes. The directory inode is given: the lookup of `get_inode` and its `is_dir` check are
left out, as is the file counter each offered entry bumps. `add_entry` is a function threading a
state. A v5 child is its name and ino, as `get_child_by_index` reads them from the inode table.
-/

namespace Nydus.Rafs

open Nydus.Lib
open Nydus.Lib.Outcome (bail)
open Nydus.Rafs.V6 (Dirent RafsInodeWalkAction WalkHandler)

/-- `DOT`. -/
def dot : List UInt8 := [0x2e]

/-- `DOTDOT`. -/
def dotdot : List UInt8 := [0x2e, 0x2e]

/-! ## The v5 walk -/

/-- A v5 directory as the direct reader sees it: its ino, its parent's ino, and its children in
the order of the inode table, each a name and an ino. The child count is the `u32`
`i_child_count`, so the walk's `assert!(idx <= u32::MAX)` always holds. -/
structure DirV5 where
  ino : UInt64
  parent : UInt64
  children : List (List UInt8 × UInt64)
  count_le : children.length ≤ 0xFFFFFFFF

/-- `get_child_by_index`. -/
def DirV5.getChildByIndex (d : DirV5) (idx : Nat) : Outcome (List UInt8 × UInt64) :=
  match d.children[idx]? with
  | some child => .ok child
  | none => bail "invalid child index"

/-- The loop of the v5 `walk_children_inodes` over the children from `idx`. -/
def walkChildrenV5Loop {σ : Type} (d : DirV5) (handler : WalkHandler σ) (idx curOffset : Nat)
    (s : σ) : Outcome σ :=
  if idx < d.children.length then do
    let child ← d.getChildByIndex idx
    let (action, s) ← handler s child.1 child.2 (curOffset + 1)
    match action with
    | .Break => pure s
    | .Continue => walkChildrenV5Loop d handler (idx + 1) (curOffset + 1) s
  else .ok s
termination_by d.children.length - idx

/-- The v5 walk once `.` is behind: `..` when the offset is 1, then the children. -/
def walkDotDotV5 {σ : Type} (d : DirV5) (handler : WalkHandler σ) (curOffset : Nat) (s : σ) :
    Outcome σ :=
  if curOffset = 1 then do
    let parent := if d.ino = 1 then 1 else d.parent
    let (action, s) ← handler s dotdot parent 2
    match action with
    | .Break => pure s
    | .Continue => walkChildrenV5Loop d handler 0 2 s
  else walkChildrenV5Loop d handler (curOffset - 2) curOffset s

/-- `walk_children_inodes` of the v5 direct reader. -/
def walkChildrenInodesV5 {σ : Type} (d : DirV5) (entryOffset : Nat) (handler : WalkHandler σ)
    (s : σ) : Outcome σ :=
  if entryOffset = 0 then do
    let (action, s) ← handler s dot d.ino 1
    match action with
    | .Break => pure s
    | .Continue => walkDotDotV5 d handler 1 s
  else walkDotDotV5 d handler entryOffset s

/-! ## The listing -/

/-- A directory of either reader. -/
inductive RafsDir where
  | v5 (d : DirV5)
  | v6 (blocks : List (List Dirent))

/-- `walk_children_inodes` of the directory's reader. -/
def RafsDir.walkChildrenInodes {σ : Type} : RafsDir → Nat → WalkHandler σ → σ → Outcome σ
  | .v5 d => walkChildrenInodesV5 d
  | .v6 blocks => V6.walkChildrenInodes blocks

/-- The entries of a directory in the order the walk gives them, each a name and an ino. -/
def RafsDir.listing : RafsDir → List (List UInt8 × UInt64)
  | .v5 d => (dot, d.ino) :: (dotdot, if d.ino = 1 then 1 else d.parent) :: d.children
  | .v6 blocks => blocks.flatten.map fun de => (de.name, de.nid)

/-- A directory as an image holds it: a v6 directory has a dirent block, since it holds `.` and
`..`. -/
def RafsDir.WellFormed : RafsDir → Prop
  | .v5 _ => True
  | .v6 blocks => blocks.length ≠ 0

/-- A walk over a listing: each entry goes to the handler with its offset, one past the offset
before it, until the handler breaks. -/
def offerFrom {σ : Type} (handler : WalkHandler σ) :
    List (List UInt8 × UInt64) → Nat → σ → Outcome σ
  | [], _, s => .ok s
  | entry :: rest, curOffset, s => do
    let (action, s) ← handler s entry.1 entry.2 (curOffset + 1)
    match action with
    | .Break => pure s
    | .Continue => offerFrom handler rest (curOffset + 1) s

/-! ## `do_readdir` -/

/-- `DirEntry`, as `do_readdir` fills it. -/
structure DirEntry where
  ino : UInt64
  offset : Nat
  type_ : UInt32
  name : List UInt8
  deriving DecidableEq, Repr

/-- The handler `do_readdir` gives the walk: offer the entry to `add_entry`, and stop when it
answers 0. -/
def readdirHandler {σ : Type} (addEntry : σ → DirEntry → Outcome (Nat × σ)) : WalkHandler σ :=
  fun s name ino offset => do
    let (taken, s) ← addEntry s ⟨ino, offset, 0, name⟩
    if taken = 0 then pure (.Break, s) else pure (.Continue, s)

/-- `Rafs::do_readdir` on a directory inode. -/
def doReaddir {σ : Type} (parent : RafsDir) (size offset : Nat)
    (addEntry : σ → DirEntry → Outcome (Nat × σ)) (s : σ) : Outcome σ :=
  if size = 0 then .ok s
  else parent.walkChildrenInodes offset (readdirHandler addEntry) s

/-- An `add_entry` with room for `room` more entries: it keeps each entry it has room for, and
answers 0 once it is full. Any prefix of the entries offered is what one of them accepts. -/
def bufferAddEntry : List DirEntry × Nat → DirEntry → Outcome (Nat × (List DirEntry × Nat))
  | (acc, 0), _ => .ok (0, (acc, 0))
  | (acc, room + 1), e => .ok (1, (acc ++ [e], room))

/-- One call: the entries accepted by an `add_entry` with room for `room` entries. -/
def readdirCall (dir : RafsDir) (size offset room : Nat) : Outcome (List DirEntry) :=
  Prod.fst <$> doReaddir dir size offset bufferAddEntry ([], room)

/-- A sequence of calls, one for each room in `rooms`. Each call starts at the offset of the last
entry the call before it accepted. The sequence stops after a call that accepts nothing. The
result is the entries accepted, and whether a call accepted nothing. -/
def readdirRun (dir : RafsDir) (size : Nat) : List Nat → Nat → Outcome (List DirEntry × Bool)
  | [], _ => .ok ([], false)
  | room :: rooms, offset => do
    let accepted ← readdirCall dir size offset room
    match accepted.getLast? with
    | none => pure ([], true)
    | some last => do
      let (rest, ended) ← readdirRun dir size rooms last.offset
      pure (accepted ++ rest, ended)

/-- The entries of a listing from offset `o` on: the first has offset `o + 1`. -/
def dirEntriesFrom : List (List UInt8 × UInt64) → Nat → List DirEntry
  | [], _ => []
  | entry :: rest, o => ⟨entry.2, o + 1, 0, entry.1⟩ :: dirEntriesFrom rest (o + 1)

/-- The entries of a directory with their offsets `1, 2, …`. -/
def RafsDir.entries (dir : RafsDir) : List DirEntry := dirEntriesFrom dir.listing 0

/-! ## The walks offer the listing -/

section Walks

variable {σ : Type} (handler : WalkHandler σ)

theorem walkLoop_eq_offerFrom :
    ∀ (l : List Dirent) (skipped curOffset : Nat) (s : σ),
      V6.walkLoop handler l skipped curOffset s =
        offerFrom handler ((l.drop skipped).map fun de => (de.name, de.nid)) curOffset s
  | [], _, _, _ => by simp [V6.walkLoop, offerFrom]
  | de :: rest, 0, c, s => by
    rw [V6.walkLoop, if_neg (by simp), List.drop_zero, List.map_cons, offerFrom]
    congr 1
    funext r
    obtain ⟨action, s'⟩ := r
    cases action with
    | Break => rfl
    | Continue =>
      show V6.walkLoop handler rest 0 (c + 1) s' = _
      rw [walkLoop_eq_offerFrom rest 0 (c + 1) s', List.drop_zero]
  | de :: rest, k + 1, c, s => by
    rw [V6.walkLoop, if_pos (by simp), Nat.add_sub_cancel, List.drop_succ_cons]
    exact walkLoop_eq_offerFrom rest k c s

theorem walkChildrenInodes_eq_offerFrom {blocks : List (List Dirent)} (h0 : blocks.length ≠ 0)
    (o : Nat) (s : σ) :
    V6.walkChildrenInodes blocks o handler s =
      offerFrom handler ((RafsDir.v6 blocks).listing.drop o) o s := by
  rw [V6.walkChildrenInodes, if_neg h0, walkLoop_eq_offerFrom, RafsDir.listing, List.map_drop]

theorem walkChildrenV5Loop_eq (d : DirV5) (idx curOffset : Nat) (s : σ) :
    walkChildrenV5Loop d handler idx curOffset s =
      offerFrom handler (d.children.drop idx) curOffset s := by
  induction h : d.children.length - idx generalizing idx curOffset s with
  | zero =>
    rw [walkChildrenV5Loop, if_neg (by omega), List.drop_of_length_le (by omega)]
    rfl
  | succ n ih =>
    -- the child at `idx` is offered, then the loop goes on from `idx + 1`
    have hidx : idx < d.children.length := by omega
    have hget : d.getChildByIndex idx = .ok d.children[idx] := by
      simp [DirV5.getChildByIndex, hidx]
    rw [walkChildrenV5Loop, if_pos hidx, List.drop_eq_getElem_cons hidx, offerFrom, hget, ok_bind]
    congr 1
    funext r
    obtain ⟨action, s'⟩ := r
    cases action with
    | Break => rfl
    | Continue => exact ih (idx + 1) (curOffset + 1) s' (by omega)

theorem walkDotDotV5_eq (d : DirV5) {c : Nat} (hc : 1 ≤ c) (s : σ) :
    walkDotDotV5 d handler c s = offerFrom handler ((RafsDir.v5 d).listing.drop c) c s := by
  by_cases h1 : c = 1
  · -- from 1: `..` at offset 2, then the children from the first
    subst h1
    rw [walkDotDotV5, if_pos rfl, RafsDir.listing, List.drop_one, List.tail_cons, offerFrom]
    dsimp only
    congr 1
    funext r
    obtain ⟨action, s'⟩ := r
    cases action with
    | Break => rfl
    | Continue => exact walkChildrenV5Loop_eq handler d 0 2 s'
  · -- from `k + 2`: the children from the `k`-th
    obtain ⟨k, rfl⟩ : ∃ k, c = k + 2 := ⟨c - 2, by omega⟩
    rw [walkDotDotV5, if_neg h1, walkChildrenV5Loop_eq, Nat.add_sub_cancel, RafsDir.listing]
    rfl

theorem walkChildrenInodesV5_eq (d : DirV5) (o : Nat) (s : σ) :
    walkChildrenInodesV5 d o handler s = offerFrom handler ((RafsDir.v5 d).listing.drop o) o s := by
  by_cases h0 : o = 0
  · -- from 0: `.` at offset 1, then the walk from 1
    subst h0
    rw [walkChildrenInodesV5, if_pos rfl, List.drop_zero, RafsDir.listing, offerFrom]
    congr 1
    funext r
    obtain ⟨action, s'⟩ := r
    cases action with
    | Break => rfl
    | Continue => exact walkDotDotV5_eq handler d le_rfl s'
  · rw [walkChildrenInodesV5, if_neg h0, walkDotDotV5_eq handler d (by omega)]

/-- **Both readers offer the listing.** A walk from an offset offers the entries after it, each
with its own offset. -/
theorem RafsDir.walkChildrenInodes_eq {dir : RafsDir} (hwf : dir.WellFormed) (o : Nat) (s : σ) :
    dir.walkChildrenInodes o handler s = offerFrom handler (dir.listing.drop o) o s := by
  cases dir with
  | v5 d => exact walkChildrenInodesV5_eq handler d o s
  | v6 blocks => exact walkChildrenInodes_eq_offerFrom handler hwf o s

end Walks

/-! ## The calls -/

section Calls

theorem length_dirEntriesFrom :
    ∀ (M : List (List UInt8 × UInt64)) (o : Nat), (dirEntriesFrom M o).length = M.length
  | [], _ => rfl
  | _ :: rest, o => by rw [dirEntriesFrom, List.length_cons, length_dirEntriesFrom rest (o + 1),
      List.length_cons]

theorem offsets_take_dirEntriesFrom :
    ∀ (M : List (List UInt8 × UInt64)) (o k : Nat),
      ((dirEntriesFrom M o).take k).map DirEntry.offset =
        List.range' (o + 1) ((dirEntriesFrom M o).take k).length
  | [], _, _ => by simp [dirEntriesFrom]
  | _ :: _, _, 0 => rfl
  | _ :: rest, o, k + 1 => by
    rw [dirEntriesFrom, List.take_succ_cons, List.map_cons, offsets_take_dirEntriesFrom rest (o + 1) k,
      List.length_cons, List.range'_succ]

theorem dirEntriesFrom_drop :
    ∀ (M : List (List UInt8 × UInt64)) (o k : Nat),
      dirEntriesFrom (M.drop k) (o + k) = (dirEntriesFrom M o).drop k
  | [], _, _ => by simp [dirEntriesFrom]
  | _ :: _, _, 0 => rfl
  | _ :: rest, o, k + 1 => by
    rw [List.drop_succ_cons, dirEntriesFrom, List.drop_succ_cons,
      show o + (k + 1) = o + 1 + k by omega, dirEntriesFrom_drop rest (o + 1) k]

theorem RafsDir.entries_drop (dir : RafsDir) (o : Nat) :
    dir.entries.drop o = dirEntriesFrom (dir.listing.drop o) o := by
  rw [RafsDir.entries, ← dirEntriesFrom_drop, Nat.zero_add]

theorem offset_of_getLast?_take :
    ∀ (M : List (List UInt8 × UInt64)) (o room : Nat) (last : DirEntry),
      ((dirEntriesFrom M o).take room).getLast? = some last →
        last.offset = o + ((dirEntriesFrom M o).take room).length
  | [], _, _, _, h => by simp [dirEntriesFrom] at h
  | _ :: _, _, 0, _, h => by simp at h
  | entry :: rest, o, room + 1, last, h => by
    rw [dirEntriesFrom, List.take_succ_cons, List.getLast?_cons] at h
    rw [dirEntriesFrom, List.take_succ_cons, List.length_cons]
    cases hrest : ((dirEntriesFrom rest (o + 1)).take room).getLast? with
    | none =>
      rw [hrest, Option.getD_none, Option.some_inj] at h
      rw [List.getLast?_eq_none_iff.mp hrest, ← h]
      rfl
    | some last' =>
      rw [hrest, Option.getD_some, Option.some_inj] at h
      rw [← h, offset_of_getLast?_take rest (o + 1) room last' hrest]
      omega

theorem offerFrom_buffer :
    ∀ (M : List (List UInt8 × UInt64)) (o : Nat) (acc : List DirEntry) (room : Nat),
      offerFrom (readdirHandler bufferAddEntry) M o (acc, room) =
        .ok (acc ++ (dirEntriesFrom M o).take room, room - min room M.length)
  | [], _, acc, room => by simp [offerFrom, dirEntriesFrom]
  | _ :: _, _, acc, 0 => by simp [offerFrom, readdirHandler, bufferAddEntry]
  | entry :: rest, o, acc, room + 1 => by
    simp only [offerFrom, readdirHandler, bufferAddEntry, ok_bind, pure_eq_ok, Nat.one_ne_zero,
      if_false]
    rw [offerFrom_buffer rest (o + 1) _ room, dirEntriesFrom, List.take_succ_cons, List.length_cons,
      List.append_assoc, List.singleton_append]
    congr 2
    omega

/-- **One call.** From offset `o`, a call with room for `room` entries accepts the entries after
`o`, as many as there is room for. -/
theorem readdirCall_eq {dir : RafsDir} (hwf : dir.WellFormed) {size : Nat} (hsize : size ≠ 0)
    (o room : Nat) : readdirCall dir size o room = .ok ((dir.entries.drop o).take room) := by
  rw [readdirCall, doReaddir, if_neg hsize, RafsDir.walkChildrenInodes_eq _ hwf, offerFrom_buffer,
    RafsDir.entries_drop, List.nil_append]
  rfl

end Calls

/-! ## The sequence of calls -/

section Run

variable {dir : RafsDir} {size : Nat}

theorem take_length_take {α : Type} (D : List α) (k : Nat) : D.take (D.take k).length = D.take k := by
  rw [List.take_eq_take_iff, List.length_take]
  omega

theorem take_append_take_drop (D : List DirEntry) (room m : Nat) :
    D.take room ++ (D.drop (D.take room).length).take m = D.take ((D.take room).length + m) := by
  rw [List.take_add, take_length_take]

/-- **The run.** A sequence of calls from offset `o` accepts the first entries after `o`, in
order. When every call has room for an entry and there are more calls than entries left, it
accepts all of them and ends with a call that accepts nothing. -/
theorem readdirRun_eq (hwf : dir.WellFormed) (hsize : size ≠ 0) :
    ∀ (rooms : List Nat) (o : Nat), ∃ m ended,
      readdirRun dir size rooms o = .ok ((dir.entries.drop o).take m, ended) ∧
      ((∀ r ∈ rooms, 0 < r) → dir.entries.length - o < rooms.length →
        (dir.entries.drop o).take m = dir.entries.drop o ∧ ended = true)
  | [], _ => ⟨0, false, rfl, fun _ h => absurd h (Nat.not_lt_zero _)⟩
  | room :: rooms, o => by
    rw [readdirRun, readdirCall_eq hwf hsize, ok_bind]
    cases hlast : ((dir.entries.drop o).take room).getLast? with
    | none =>
      -- the call accepts nothing, and the run stops
      refine ⟨0, true, rfl, fun hpos _ => ⟨?_, rfl⟩⟩
      rcases List.take_eq_nil_iff.mp (List.getLast?_eq_none_iff.mp hlast) with h | h
      · exact absurd h (hpos room List.mem_cons_self).ne'
      · rw [h]
        rfl
    | some last =>
      -- the next call resumes after the entries this one accepts
      dsimp only
      set A := (dir.entries.drop o).take room with hA
      have hoff : last.offset = o + A.length := by
        rw [hA, RafsDir.entries_drop] at hlast ⊢
        exact offset_of_getLast?_take _ o room last hlast
      have hne : A ≠ [] := fun h => by simp [h] at hlast
      obtain ⟨m, ended, hrun, hfull⟩ := readdirRun_eq hwf hsize rooms (o + A.length)
      rw [← List.drop_drop] at hrun hfull
      refine ⟨A.length + m, ended, ?_, fun hpos hlen => ?_⟩
      · rw [hoff, hrun, ok_bind, hA, take_append_take_drop]
        rfl
      · have hA1 : 0 < A.length := List.length_pos_iff.mpr hne
        have hA' : A.length ≤ (dir.entries.drop o).length := by
          rw [hA]
          exact List.length_take_le' _ _
        obtain ⟨hall, hended⟩ := hfull (fun r hr => hpos r (List.mem_cons_of_mem _ hr))
          (by rw [List.length_drop] at hA'; simp only [List.length_cons] at hlen; omega)
        refine ⟨?_, hended⟩
        rw [List.take_add, hall, List.take_append_drop]

/-- **Resumable `readdir`.** The calls from offset 0, each resuming after the last entry the
call before it accepted, accept the first entries of the listing with offsets `1, 2, …`: none
repeated, none skipped. When every call has room for an entry and there are more calls than
entries, they accept the whole listing and the last call accepts nothing. -/
theorem readdirRun_resumes (dir : RafsDir) (hwf : dir.WellFormed) {size : Nat} (hsize : size ≠ 0)
    (rooms : List Nat) :
    ∃ acc ended, readdirRun dir size rooms 0 = .ok (acc, ended) ∧
      acc = dir.entries.take acc.length ∧
      acc.map DirEntry.offset = List.range' 1 acc.length ∧
      ((∀ r ∈ rooms, 0 < r) → dir.listing.length < rooms.length →
        acc = dir.entries ∧ ended = true) := by
  obtain ⟨m, ended, hrun, hfull⟩ := readdirRun_eq hwf hsize rooms 0
  rw [List.drop_zero] at hrun hfull
  have hlen : dir.entries.length = dir.listing.length := length_dirEntriesFrom _ 0
  refine ⟨dir.entries.take m, ended, hrun, (take_length_take _ m).symm, ?_,
    fun hpos hcalls => hfull hpos (by omega)⟩
  exact offsets_take_dirEntriesFrom dir.listing 0 m

theorem readdirRun_resumes_v6_three_entries :
    RafsDir.WellFormed (.v6 [[⟨1, dot⟩, ⟨1, dotdot⟩], [⟨2, [0x61]⟩]]) ∧ (4096 : Nat) ≠ 0 ∧
      ∃ acc ended,
        readdirRun (.v6 [[⟨1, dot⟩, ⟨1, dotdot⟩], [⟨2, [0x61]⟩]]) 4096 [1, 2, 1, 1] 0 =
          .ok (acc, ended) ∧
        acc = (RafsDir.v6 [[⟨1, dot⟩, ⟨1, dotdot⟩], [⟨2, [0x61]⟩]]).entries.take acc.length ∧
        acc.map DirEntry.offset = List.range' 1 acc.length ∧
        ((∀ r ∈ [1, 2, 1, 1], 0 < r) →
          (RafsDir.v6 [[⟨1, dot⟩, ⟨1, dotdot⟩], [⟨2, [0x61]⟩]]).listing.length <
            [1, 2, 1, 1].length →
          acc = (RafsDir.v6 [[⟨1, dot⟩, ⟨1, dotdot⟩], [⟨2, [0x61]⟩]]).entries ∧ ended = true) := by
  have hwf : RafsDir.WellFormed (.v6 [[⟨1, dot⟩, ⟨1, dotdot⟩], [⟨2, [0x61]⟩]]) :=
    show 2 ≠ 0 by decide
  exact ⟨hwf, by decide, readdirRun_resumes _ hwf (by decide) [1, 2, 1, 1]⟩

/-- A call whose `add_entry` has no room accepts nothing, and the run ends there, before any
entry of the listing. -/
theorem readdirRun_no_room_ends :
    readdirRun (.v6 [[⟨1, dot⟩, ⟨1, dotdot⟩]]) 4096 [0, 1, 1, 1] 0 = .ok ([], true) ∧
      (RafsDir.v6 [[⟨1, dot⟩, ⟨1, dotdot⟩]]).entries ≠ [] := by
  have hwf : RafsDir.WellFormed (.v6 [[⟨1, dot⟩, ⟨1, dotdot⟩]]) := show 1 ≠ 0 by decide
  refine ⟨?_, by decide⟩
  rw [readdirRun, readdirCall_eq hwf (by decide), ok_bind]
  rfl

end Run

end Nydus.Rafs
