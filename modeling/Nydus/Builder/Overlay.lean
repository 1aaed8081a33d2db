import Mathlib
import Nydus.Lib.Outcome
import Nydus.Lib.SortedKeys

/-!
# Merging an upper layer into a lower one (`builder/src/core/tree.rs`, `overlay.rs`)

`Tree::merge_overaly` merges the tree of an upper layer into the tree of the lower layers.
The upper root's node replaces the lower root's, and then `merge_children` runs on every pair of
directories, in three passes over the upper directory's children:

1. whiteouts. An OCI `.wh.<name>` removes the lower child `<name>`, `.wh..wh..opq` removes every
   lower child, and an Overlayfs `0/0` character device removes the lower child of its name.
   An Overlayfs opaque directory empties the lower directory of its name, loses its opaque
   xattr, and goes on to the second pass like any other child;
2. every other child replaces the node of the lower child of its name (the lower child keeps its
   own children), or is inserted without children where there is none;
3. every directory among them is merged, recursively, into the lower child of its name.

Children are kept sorted by name bytes and found by binary search (`get_child_idx`,
`insert_child`).

The results:
* `mergeOverlay_sorted`: over sorted trees the merge never fails, and it keeps every directory's
  children sorted;
* `mergeOverlay_file_over_dir`: an upper regular file that replaces a lower directory gets the
  directory's children. The merged tree then has a non-directory with children, and a lower
  path under a name the upper layer turned into a file.

Model notes. A node keeps what the merge reads and writes: its kind, its device numbers, whether
its xattr `trusted.overlay.opaque` reads `y`, and its overlay state. The rest of the node is a
parameter. The binary search is a `KeySearch`, the standard library's contract. Names are byte
strings. Nodes are shared behind `Arc<Mutex<..>>`, so what the merge writes into an upper node
(its overlay state, the removed xattr) is seen in the merged tree. The model writes it into the
node the merged tree receives.
-/

namespace Nydus.Builder.TreeMerge

open Nydus.Lib Nydus.Lib.SortedKeys
open Nydus.Lib.Outcome (bail)

/-- A file name, as its bytes. -/
abbrev Name := List Nat

/-- `WhiteoutSpec`. -/
inductive WhiteoutSpec where
  | oci
  | overlayfs
  | none
  deriving DecidableEq, Repr

/-- `WhiteoutType`. -/
inductive WhiteoutType where
  | ociOpaque
  | ociRemoval
  | overlayFsOpaque
  | overlayFsRemoval
  deriving DecidableEq, Repr

/-- `Overlay`: where a node comes from. -/
inductive Overlay where
  | lower
  | upperAddition
  | upperModification
  deriving DecidableEq, Repr

/-- The kind of a node's inode, as far as the merge tells them apart. -/
inductive FileKind where
  | dir
  | chrdev
  | other
  deriving DecidableEq, Repr

/-- A node, with the rest of its fields in `data`. -/
structure Node (α : Type) where
  kind : FileKind
  /-- `major_dev(rdev)` and `minor_dev(rdev)`. -/
  rdev : Nat × Nat
  /-- The xattr `trusted.overlay.opaque` is there and reads `y`. -/
  hasOpaqueXattr : Bool
  overlay : Overlay
  data : α
  deriving DecidableEq, Repr

/-- `Tree`: a node, its name and its children. -/
structure Tree (α : Type) where
  node : Node α
  name : Name
  children : List (Tree α)

/-- `OCISPEC_WHITEOUT_PREFIX`, `.wh.`. -/
def ociWhiteoutPrefix : Name := [46, 119, 104, 46]

/-- `OCISPEC_WHITEOUT_OPAQUE`, `.wh..wh..opq`. -/
def ociWhiteoutOpaque : Name := [46, 119, 104, 46, 46, 119, 104, 46, 46, 111, 112, 113]

/-- The root's name, `/`. -/
def rootName : Name := [47]

/-- `OsStr::to_str` succeeds: the bytes are UTF-8. -/
def isUtf8 (name : Name) : Bool := ByteArray.validateUTF8 ⟨(name.map Nat.toUInt8).toArray⟩

variable {α : Type}

namespace Node

/-- `Node::is_overlayfs_whiteout`. -/
def isOverlayfsWhiteout (n : Node α) (spec : WhiteoutSpec) : Bool :=
  spec == .overlayfs && n.kind == .chrdev && n.rdev.1 == 0 && n.rdev.2 == 0

/-- `Node::is_overlayfs_opaque`. -/
def isOverlayfsOpaque (n : Node α) (spec : WhiteoutSpec) : Bool :=
  spec == .overlayfs && n.kind == .dir && n.hasOpaqueXattr

/-- `Node::whiteout_type`, for a node of name `name`. -/
def whiteoutType (n : Node α) (name : Name) (spec : WhiteoutSpec) : Option WhiteoutType :=
  if n.overlay = .lower then none
  else
    match spec with
    | .oci =>
      if isUtf8 name then
        if name = ociWhiteoutOpaque then some .ociOpaque
        else if ociWhiteoutPrefix <+: name then some .ociRemoval
        else none
      else none
    | .overlayfs =>
      if n.isOverlayfsWhiteout spec then some .overlayFsRemoval
      else if n.isOverlayfsOpaque spec then some .overlayFsOpaque
      else none
    | .none => none

end Node

/-- `Node::origin_name`, for a node of name `name`. -/
def originName (name : Name) (t : WhiteoutType) : Option Name :=
  if isUtf8 name then
    if t = .ociRemoval then some (name.drop ociWhiteoutPrefix.length)
    else if t = .overlayFsRemoval then some name
    else none
  else none

/-! ## The merge -/

section Merge

variable (bs : KeySearch Name) (spec : WhiteoutSpec)

namespace Tree

/-- The names of a directory's children, in order. -/
def keys (t : Tree α) : List Name := t.children.map (·.name)

/-- `Tree::get_child_idx`. -/
def getChildIdx (t : Tree α) (name : Name) : Option Nat :=
  match bs.search t.keys name with
  | .ok i => some i
  | .error _ => none

/-- `Tree::insert_child`: at the place the search gives, unless the name is there. -/
def insertChild (t : Tree α) (child : Tree α) : Tree α :=
  match bs.search t.keys child.name with
  | .ok _ => t
  | .error i => { t with children := t.children.insertIdx i child }

end Tree

/-- The first pass of `merge_children` on one upper child: the whiteouts act on the lower
directory, and the other children are kept for the second pass. -/
def whiteoutStep (acc : Tree α × List (Tree α)) (u : Tree α) : Tree α × List (Tree α) :=
  let t := acc.1
  match u.node.whiteoutType u.name spec with
  | some .ociRemoval =>
    match originName u.name .ociRemoval with
    | some origin =>
      match t.getChildIdx bs origin with
      | some idx => ({ t with children := t.children.eraseIdx idx }, acc.2)
      | none => acc
    | none => acc
  | some .ociOpaque => ({ t with children := [] }, acc.2)
  | some .overlayFsRemoval =>
    match t.getChildIdx bs u.name with
    | some idx => ({ t with children := t.children.eraseIdx idx }, acc.2)
    | none => acc
  | some .overlayFsOpaque =>
    let t := match t.getChildIdx bs u.name with
      | some idx => { t with children := t.children.modify idx fun c => { c with children := [] } }
      | none => t
    -- `remove_xattr(OVERLAYFS_WHITEOUT_OPAQUE)`
    (t, acc.2 ++ [{ u with node := { u.node with hasOpaqueXattr := false } }])
  | none => (t, acc.2 ++ [u])

/-- The second pass of `merge_children` on one kept upper child: it replaces the node of the
lower child of its name, or is inserted without children. -/
def replaceStep (t : Tree α) (u : Tree α) : Tree α :=
  match t.getChildIdx bs u.name with
  | some idx =>
    { t with
      children := t.children.modify idx fun c =>
        { c with node := { u.node with overlay := .upperModification } } }
  | none => t.insertChild bs ⟨{ u.node with overlay := .upperAddition }, u.name, []⟩

/-- The upper child goes on to the second pass. -/
def kept (u : Tree α) : Bool :=
  match u.node.whiteoutType u.name spec with
  | none | some .overlayFsOpaque => true
  | _ => false

mutual

/-- `Tree::merge_children`: merge the upper directory `upper` into the lower directory `t`. -/
def mergeChildren (t : Tree α) : Tree α → Outcome (Tree α)
  | ⟨_, _, upperChildren⟩ =>
    let first := upperChildren.foldl (whiteoutStep bs spec) (t, [])
    let second := first.2.foldl (replaceStep bs) first.1
    mergeDirs second upperChildren

/-- The third pass of `merge_children`: every kept upper directory, in order, is merged into
the lower child of its name. -/
def mergeDirs (t : Tree α) : List (Tree α) → Outcome (Tree α)
  | [] => .ok t
  | u :: us =>
    if kept spec u && u.node.kind == .dir then
      match t.getChildIdx bs u.name with
      | some idx =>
        match t.children[idx]? with
        | some c =>
          match mergeChildren c u with
          | .ok c' => mergeDirs { t with children := t.children.set idx c' } us
          | .error e => .error e
        | none => Outcome.panic "index out of bounds"
      | none => bail "builder: can not find directory in merged tree"
    else mergeDirs t us

end

/-- `Tree::merge_overaly`: the upper root's node replaces the lower root's, and the children
are merged. -/
def mergeOverlay (lower upper : Tree α) : Outcome (Tree α) :=
  if lower.name ≠ rootName ∨ upper.name ≠ rootName then
    Outcome.panic "assertion left == right failed"
  else
    mergeChildren bs spec { lower with node := { upper.node with overlay := .upperModification } }
      upper

end Merge

/-! ## The tree invariant -/

namespace Tree

/-- Every directory's children are strictly sorted by name. -/
inductive Sorted : Tree α → Prop
  | mk {node : Node α} {name : Name} {children : List (Tree α)} :
      (children.map (·.name)).Pairwise (· < ·) → (∀ c ∈ children, Sorted c) →
      Sorted ⟨node, name, children⟩

/-- The builder's tree invariant: every directory's children are strictly sorted by name, and
only directories have children. -/
inductive WF : Tree α → Prop
  | mk {node : Node α} {name : Name} {children : List (Tree α)} :
      (children.map (·.name)).Pairwise (· < ·) → (children ≠ [] → node.kind = .dir) →
      (∀ c ∈ children, WF c) → WF ⟨node, name, children⟩

theorem sorted_iff (t : Tree α) : t.Sorted ↔ t.keys.Pairwise (· < ·) ∧ ∀ c ∈ t.children, c.Sorted := by
  obtain ⟨node, name, children⟩ := t
  constructor
  · rintro ⟨hs, hc⟩
    exact ⟨hs, hc⟩
  · rintro ⟨hs, hc⟩
    exact .mk hs hc

theorem sorted_of_children {t : Tree α} {cs : List (Tree α)}
    (hk : (cs.map (·.name)).Pairwise (· < ·)) (hc : ∀ c ∈ cs, c.Sorted) :
    ({ t with children := cs } : Tree α).Sorted :=
  .mk hk hc

end Tree

open Nydus.Builder.TreeMerge.Tree

section Search

variable (bs : KeySearch Name)

theorem getChildIdx_eq_some {t : Tree α} {k : Name} {i : Nat} (hs : t.keys.Pairwise (· < ·))
    (h : t.getChildIdx bs k = some i) : ∃ c, t.children[i]? = some c ∧ c.name = k := by
  unfold getChildIdx at h
  rw [bs.search_eq t.keys k hs] at h
  cases hf : findKey k t.keys with
  | error _ => simp [hf] at h
  | ok j =>
    simp only [hf, Option.some.injEq] at h
    subst h
    simpa [keys] using findKey_eq_ok hf

theorem getChildIdx_of_mem {t : Tree α} {k : Name} (hs : t.keys.Pairwise (· < ·))
    (hk : k ∈ t.keys) : ∃ i c, t.getChildIdx bs k = some i ∧ t.children[i]? = some c ∧ c.name = k := by
  obtain ⟨i, hi⟩ := findKey_of_mem hs hk
  have hget : t.getChildIdx bs k = some i := by
    unfold getChildIdx
    rw [bs.search_eq t.keys k hs, hi]
  obtain ⟨c, hc, hcn⟩ := getChildIdx_eq_some bs hs hget
  exact ⟨i, c, hget, hc, hcn⟩

theorem getChildIdx_congr {t t' : Tree α} (h : t'.keys = t.keys) (k : Name) :
    t'.getChildIdx bs k = t.getChildIdx bs k := by
  unfold getChildIdx
  rw [h]

theorem getChildIdx_of_getElem? {t c : Tree α} {i : Nat} (hs : t.keys.Pairwise (· < ·))
    (hc : t.children[i]? = some c) : t.getChildIdx bs c.name = some i := by
  have hk : t.keys[i]? = some c.name := by simp [keys, hc]
  unfold getChildIdx
  rw [bs.search_eq t.keys c.name hs, findKey_of_getElem? hs hk]

theorem insertChild_sorted {t c : Tree α} (ht : t.Sorted) (hc : c.Sorted) :
    (t.insertChild bs c).Sorted := by
  obtain ⟨hs, hcs⟩ := (sorted_iff t).mp ht
  unfold insertChild
  rw [bs.search_eq t.keys c.name hs]
  split
  · exact ht
  · rename_i i hi
    have hle := (findKey_eq_error hs hi).2.1
    simp only [keys, List.length_map] at hle
    refine sorted_of_children (pairwise_insertIdx_of_findKey Tree.name hs hi) fun d hd => ?_
    rcases (List.mem_insertIdx hle).mp hd with rfl | hd
    · exact hc
    · exact hcs d hd

theorem keys_insertChild {t c : Tree α} (hs : t.keys.Pairwise (· < ·)) {k : Name}
    (hk : k = c.name ∨ k ∈ t.keys) : k ∈ (t.insertChild bs c).keys := by
  unfold insertChild
  rw [bs.search_eq t.keys c.name hs]
  split
  · rename_i i hi
    rcases hk with rfl | hk
    · exact List.mem_of_getElem? (findKey_eq_ok hi)
    · exact hk
  · rename_i i hi
    have hle := (findKey_eq_error hs hi).2.1
    simp only [keys, List.length_map] at hle
    simp only [keys, List.map_insertIdx]
    rw [List.mem_insertIdx (by simpa using hle)]
    exact hk

end Search

/-! ## The first two passes -/

section Passes

variable (bs : KeySearch Name) (spec : WhiteoutSpec)

theorem sorted_eraseIdx {t : Tree α} (ht : t.Sorted) (i : Nat) :
    ({ t with children := t.children.eraseIdx i } : Tree α).Sorted := by
  obtain ⟨hs, hcs⟩ := (sorted_iff t).mp ht
  exact sorted_of_children (pairwise_map_eraseIdx _ hs i)
    fun c hc => hcs c (List.mem_of_mem_eraseIdx hc)

theorem sorted_modify {t : Tree α} (ht : t.Sorted) (i : Nat) {f : Tree α → Tree α}
    (hname : ∀ c, (f c).name = c.name) (hf : ∀ c, c.Sorted → (f c).Sorted) :
    ({ t with children := t.children.modify i f } : Tree α).Sorted := by
  obtain ⟨hs, hcs⟩ := (sorted_iff t).mp ht
  refine sorted_of_children (by rw [map_modify_of_key _ hname]; exact hs) fun c hc => ?_
  rcases mem_modify hc with hc | ⟨d, hd, rfl⟩
  · exact hcs c hc
  · exact hf d (hcs d hd)

theorem keys_set {t c c' : Tree α} {i : Nat} (hc : t.children[i]? = some c)
    (hn : c'.name = c.name) : ({ t with children := t.children.set i c' } : Tree α).keys = t.keys :=
  map_set_of_key _ hc hn

theorem sorted_set {t c c' : Tree α} {i : Nat} (ht : t.Sorted) (hc : t.children[i]? = some c)
    (hc' : c'.Sorted) (hn : c'.name = c.name) :
    ({ t with children := t.children.set i c' } : Tree α).Sorted := by
  obtain ⟨hs, hcs⟩ := (sorted_iff t).mp ht
  have hks : ({ t with children := t.children.set i c' } : Tree α).keys.Pairwise (· < ·) := by
    rw [keys_set hc hn]
    exact hs
  refine sorted_of_children hks fun d hd => ?_
  rcases List.mem_or_eq_of_mem_set hd with hd | rfl
  · exact hcs d hd
  · exact hc'

theorem keys_modify {t : Tree α} {i : Nat} {f : Tree α → Tree α} (hname : ∀ c, (f c).name = c.name) :
    ({ t with children := t.children.modify i f } : Tree α).keys = t.keys :=
  map_modify_of_key _ hname t.children i

theorem whiteoutStep_spec {acc : Tree α × List (Tree α)} (ht : acc.1.Sorted) (u : Tree α) :
    (whiteoutStep bs spec acc u).1.Sorted ∧ (whiteoutStep bs spec acc u).1.name = acc.1.name ∧
      (∀ v ∈ acc.2, v ∈ (whiteoutStep bs spec acc u).2) ∧
      (kept spec u = true → ∃ v ∈ (whiteoutStep bs spec acc u).2, v.name = u.name) := by
  unfold whiteoutStep kept
  cases hw : u.node.whiteoutType u.name spec with
  | none =>
    refine ⟨ht, rfl, fun v hv => List.mem_append_left _ hv, fun _ => ⟨u, by simp, rfl⟩⟩
  | some w =>
    cases w with
    | ociRemoval =>
      simp only
      refine ⟨?_, ?_, fun v hv => ?_, fun h => by cases h⟩
      · split
        · split
          · exact sorted_eraseIdx ht _
          · exact ht
        · exact ht
      · split
        · split <;> rfl
        · rfl
      · split
        · split <;> exact hv
        · exact hv
    | ociOpaque =>
      exact ⟨sorted_of_children (by simp) (by simp), rfl, fun v hv => hv, fun h => by cases h⟩
    | overlayFsRemoval =>
      simp only
      refine ⟨?_, ?_, fun v hv => ?_, fun h => by cases h⟩
      · split
        · exact sorted_eraseIdx ht _
        · exact ht
      · split <;> rfl
      · split <;> exact hv
    | overlayFsOpaque =>
      -- the lower directory of that name is emptied, and the upper one is kept
      simp only
      refine ⟨?_, ?_, fun v hv => List.mem_append_left _ hv,
        fun _ => ⟨{ u with node := { u.node with hasOpaqueXattr := false } }, by simp, rfl⟩⟩
      · split
        · exact sorted_modify ht _ (fun _ => rfl) fun _ _ => sorted_of_children (by simp) (by simp)
        · exact ht
      · split <;> rfl

theorem foldl_whiteoutStep :
    ∀ (us : List (Tree α)) (acc : Tree α × List (Tree α)), acc.1.Sorted →
      (us.foldl (whiteoutStep bs spec) acc).1.Sorted ∧
        (us.foldl (whiteoutStep bs spec) acc).1.name = acc.1.name ∧
        (∀ v ∈ acc.2, v ∈ (us.foldl (whiteoutStep bs spec) acc).2) ∧
        ∀ u ∈ us, kept spec u = true → ∃ v ∈ (us.foldl (whiteoutStep bs spec) acc).2, v.name = u.name
  | [], acc, ht => ⟨ht, rfl, fun _ h => h, by simp⟩
  | u :: us, acc, ht => by
    obtain ⟨hs, hn, hmono, hkept⟩ := whiteoutStep_spec bs spec ht u
    obtain ⟨hs', hn', hmono', hkept'⟩ := foldl_whiteoutStep us _ hs
    refine ⟨hs', hn'.trans hn, fun v hv => hmono' v (hmono v hv), fun u' hu' hk => ?_⟩
    rcases List.mem_cons.mp hu' with rfl | hu'
    · -- the kept child is in the list after its own step, and the list only grows
      obtain ⟨v, hv, hvn⟩ := hkept hk
      exact ⟨v, hmono' v hv, hvn⟩
    · exact hkept' u' hu' hk

theorem replaceStep_spec {t : Tree α} (ht : t.Sorted) (u : Tree α) :
    (replaceStep bs t u).Sorted ∧ (replaceStep bs t u).name = t.name ∧
      ∀ k, k = u.name ∨ k ∈ t.keys → k ∈ (replaceStep bs t u).keys := by
  have hs := ((sorted_iff t).mp ht).1
  unfold replaceStep
  split
  · rename_i i hi
    obtain ⟨c, hc, hcn⟩ := getChildIdx_eq_some bs hs hi
    refine ⟨sorted_modify ht _ (fun _ => rfl) fun d hd => ?_, rfl, fun k hk => ?_⟩
    · exact (sorted_iff _).mpr ((sorted_iff d).mp hd)
    · have hkm : ({ t with
          children := t.children.modify i fun c =>
            { c with node := { u.node with overlay := .upperModification } } } : Tree α).keys =
          t.keys := keys_modify fun _ => rfl
      rw [hkm]
      rcases hk with rfl | hk
      · rw [← hcn]
        exact List.mem_map_of_mem (List.mem_of_getElem? hc)
      · exact hk
  · refine ⟨insertChild_sorted bs ht (.mk (by simp) (by simp)), ?_,
      fun k hk => keys_insertChild bs hs hk⟩
    unfold insertChild
    split <;> rfl

theorem foldl_replaceStep :
    ∀ (vs : List (Tree α)) (t : Tree α), t.Sorted →
      (vs.foldl (replaceStep bs) t).Sorted ∧ (vs.foldl (replaceStep bs) t).name = t.name ∧
        ∀ k, (∃ v ∈ vs, v.name = k) ∨ k ∈ t.keys → k ∈ (vs.foldl (replaceStep bs) t).keys
  | [], t, ht => ⟨ht, rfl, fun k hk => by simpa using hk⟩
  | v :: vs, t, ht => by
    obtain ⟨hs, hn, hk⟩ := replaceStep_spec bs ht v
    obtain ⟨hs', hn', hk'⟩ := foldl_replaceStep vs _ hs
    refine ⟨hs', hn'.trans hn, fun k hkv => hk' k ?_⟩
    rcases hkv with ⟨w, hw, rfl⟩ | hkt
    · rcases List.mem_cons.mp hw with rfl | hw
      · exact .inr (hk _ (.inl rfl))
      · exact .inl ⟨w, hw, rfl⟩
    · exact .inr (hk k (.inr hkt))

end Passes

/-! ## The merge keeps the children sorted -/

section Sorted

variable (bs : KeySearch Name) (spec : WhiteoutSpec)

mutual

theorem mergeChildren_sorted : ∀ (t u : Tree α), t.Sorted → u.Sorted →
    ∃ t', mergeChildren bs spec t u = .ok t' ∧ t'.Sorted ∧ t'.name = t.name
  | t, ⟨n, name, cs⟩, ht, hu => by
    have hcs : ∀ c ∈ cs, c.Sorted := ((sorted_iff _).mp hu).2
    obtain ⟨h1s, h1n, -, h1k⟩ := foldl_whiteoutStep bs spec cs (t, []) ht
    obtain ⟨h2s, h2n, h2k⟩ := foldl_replaceStep bs _ _ h1s
    -- every kept upper child now has a lower child of its name
    have hkeys : ∀ u ∈ cs, kept spec u = true →
        u.name ∈ (((cs.foldl (whiteoutStep bs spec) (t, [])).2).foldl (replaceStep bs)
          (cs.foldl (whiteoutStep bs spec) (t, [])).1).keys := by
      intro u hu hk
      obtain ⟨v, hv, hvn⟩ := h1k u hu hk
      exact h2k _ (.inl ⟨v, hv, hvn⟩)
    obtain ⟨t', h, hs, hn, -⟩ := mergeDirs_sorted _ cs h2s hcs hkeys
    refine ⟨t', ?_, hs, ?_⟩
    · rw [mergeChildren]
      exact h
    · rw [hn, h2n, h1n]

theorem mergeDirs_sorted : ∀ (t : Tree α) (us : List (Tree α)), t.Sorted → (∀ u ∈ us, u.Sorted) →
    (∀ u ∈ us, kept spec u = true → u.name ∈ t.keys) →
    ∃ t', mergeDirs bs spec t us = .ok t' ∧ t'.Sorted ∧ t'.name = t.name ∧ t'.keys = t.keys
  | t, [], ht, _, _ => ⟨t, by rw [mergeDirs], ht, rfl, rfl⟩
  | t, u :: us, ht, hus, hkeys => by
    have hu := hus u List.mem_cons_self
    have hus' : ∀ u ∈ us, u.Sorted := fun u' h => hus u' (List.mem_cons_of_mem u h)
    by_cases hd : (kept spec u && u.node.kind == .dir) = true
    · obtain ⟨hs, hcs⟩ := (sorted_iff t).mp ht
      have hk : kept spec u = true := (Bool.and_eq_true_iff.mp hd).1
      obtain ⟨i, c, hi, hc, hcn⟩ := getChildIdx_of_mem bs hs (hkeys u List.mem_cons_self hk)
      obtain ⟨c', hc', hc's, hc'n⟩ :=
        mergeChildren_sorted c u (hcs c (List.mem_of_getElem? hc)) hu
      -- the merged child keeps its name, so the directory keeps its child names
      have hkeys' : ({ t with children := t.children.set i c' } : Tree α).keys = t.keys :=
        keys_set hc hc'n
      have ht' : ({ t with children := t.children.set i c' } : Tree α).Sorted :=
        sorted_set ht hc hc's hc'n
      obtain ⟨t'', h, hs'', hn'', hk''⟩ := mergeDirs_sorted _ us ht' hus' fun u' h hk' => by
        rw [hkeys']
        exact hkeys u' (List.mem_cons_of_mem u h) hk'
      refine ⟨t'', ?_, hs'', hn'', hk''.trans hkeys'⟩
      rw [mergeDirs, if_pos hd, hi]
      simp only [hc, hc']
      exact h
    · obtain ⟨t', h, hs, hn, hk⟩ :=
        mergeDirs_sorted t us ht hus' fun u' h => hkeys u' (List.mem_cons_of_mem u h)
      refine ⟨t', ?_, hs, hn, hk⟩
      rw [mergeDirs, if_neg hd]
      exact h

end

/-- **The merge keeps the children sorted.** Merging a sorted upper tree into a sorted lower
tree, both rooted at `/`, never fails, and gives a tree whose directories have their children
strictly sorted by name. -/
theorem mergeOverlay_sorted {lower upper : Tree α} (hl : lower.Sorted) (hu : upper.Sorted)
    (hln : lower.name = rootName) (hun : upper.name = rootName) :
    ∃ t, mergeOverlay bs spec lower upper = .ok t ∧ t.Sorted := by
  have hroot : ({ lower with node := { upper.node with overlay := .upperModification } } :
      Tree α).Sorted := by
    obtain ⟨hs, hcs⟩ := (sorted_iff lower).mp hl
    exact .mk hs hcs
  obtain ⟨t, h, hs, -⟩ := mergeChildren_sorted bs spec _ upper hroot hu
  refine ⟨t, ?_, hs⟩
  rw [mergeOverlay, if_neg (by simp [hln, hun])]
  exact h

/-- An OCI whiteout `.wh.a` in the upper root over a lower `/a`. -/
theorem mergeOverlay_sorted_oci_whiteout :
    (⟨⟨.dir, (0, 0), false, .lower, 0⟩, rootName,
        [⟨⟨.other, (0, 0), false, .lower, 1⟩, [97], []⟩]⟩ : Tree Nat).Sorted ∧
      (⟨⟨.dir, (0, 0), false, .upperAddition, 2⟩, rootName,
        [⟨⟨.other, (0, 0), false, .upperAddition, 3⟩, ociWhiteoutPrefix ++ [97], []⟩]⟩ :
          Tree Nat).Sorted ∧
      ∃ t, mergeOverlay KeySearch.linear .oci
        ⟨⟨.dir, (0, 0), false, .lower, 0⟩, rootName,
          [⟨⟨.other, (0, 0), false, .lower, 1⟩, [97], []⟩]⟩
        ⟨⟨.dir, (0, 0), false, .upperAddition, 2⟩, rootName,
          [⟨⟨.other, (0, 0), false, .upperAddition, 3⟩, ociWhiteoutPrefix ++ [97], []⟩]⟩ =
          .ok t ∧ t.Sorted := by
  have hl : (⟨⟨.dir, (0, 0), false, .lower, 0⟩, rootName,
      [⟨⟨.other, (0, 0), false, .lower, 1⟩, [97], []⟩]⟩ : Tree Nat).Sorted :=
    .mk (by decide) fun c hc => by
      rw [List.mem_singleton] at hc
      subst hc
      exact .mk (by decide) (by simp)
  have hu : (⟨⟨.dir, (0, 0), false, .upperAddition, 2⟩, rootName,
      [⟨⟨.other, (0, 0), false, .upperAddition, 3⟩, ociWhiteoutPrefix ++ [97], []⟩]⟩ :
        Tree Nat).Sorted :=
    .mk (by decide) fun c hc => by
      rw [List.mem_singleton] at hc
      subst hc
      exact .mk (by decide) (by simp)
  exact ⟨hl, hu, mergeOverlay_sorted KeySearch.linear .oci hl hu rfl rfl⟩

end Sorted

theorem not_wf_of_child {t c : Tree α} (hc : c ∈ t.children) (hkind : c.node.kind ≠ .dir)
    (hne : c.children ≠ []) : ¬ t.WF := by
  intro ht
  obtain ⟨node, name, children⟩ := t
  obtain ⟨_, _, hall⟩ := ht
  obtain ⟨cn, cname, cchildren⟩ := c
  obtain ⟨_, hdir, _⟩ := hall _ hc
  exact hkind (hdir hne)

/-- A lower directory `a` holds a file `x`, and the upper layer has a regular file `a`. Both
trees keep the invariant. The merge gives the upper file's node to `a` and keeps `x` under it, so
the merged tree has a file with a child, and the lower path `/a/x` survives an upper file `/a`. -/
theorem mergeOverlay_file_over_dir :
    ∃ lower upper t : Tree Nat,
      lower = ⟨⟨.dir, (0, 0), false, .lower, 0⟩, rootName,
        [⟨⟨.dir, (0, 0), false, .lower, 1⟩, [97], [⟨⟨.other, (0, 0), false, .lower, 2⟩, [120], []⟩]⟩]⟩ ∧
      upper = ⟨⟨.dir, (0, 0), false, .upperAddition, 3⟩, rootName,
        [⟨⟨.other, (0, 0), false, .upperAddition, 4⟩, [97], []⟩]⟩ ∧
      lower.WF ∧ upper.WF ∧
      mergeOverlay KeySearch.linear .overlayfs lower upper = .ok t ∧
      t.children = [⟨⟨.other, (0, 0), false, .upperModification, 4⟩, [97],
        [⟨⟨.other, (0, 0), false, .lower, 2⟩, [120], []⟩]⟩] ∧
      ¬ t.WF := by
  refine ⟨_, _, _, rfl, rfl, ?_, ?_, rfl, rfl, ?_⟩
  · -- the lower tree: `/`, `/a`, `/a/x`
    refine .mk (by decide) (fun _ => rfl) fun c hc => ?_
    rw [List.mem_singleton] at hc
    subst hc
    refine .mk (by decide) (fun _ => rfl) fun c hc => ?_
    rw [List.mem_singleton] at hc
    subst hc
    exact .mk (by decide) (fun h => absurd rfl h) (by simp)
  · refine .mk (by decide) (fun _ => rfl) fun c hc => ?_
    rw [List.mem_singleton] at hc
    subst hc
    exact .mk (by decide) (fun h => absurd rfl h) (by simp)
  · exact not_wf_of_child List.mem_cons_self (by decide) (by simp)

end Nydus.Builder.TreeMerge
