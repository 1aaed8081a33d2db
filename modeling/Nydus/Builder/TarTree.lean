import Mathlib
import Nydus.Lib.Outcome
import Nydus.Lib.SortedKeys
import Nydus.Builder.Overlay

/-!
# Building a tree from tar entries (`TarBuilder::insert_into_tree`, `builder/src/lib.rs`)

The tarball and eStargz builders start from a lone root directory and insert each entry's node
at its target path with `TarBuilder::insert_into_tree`, in the order the entries arrive. The walk
goes down the components of the path. A child that `get_child_idx` finds is entered. A missing
intermediate directory is made by `create_directory`, inserted at its sorted place by
`insert_child`, and then entered as `children[len - 1]`, the last child. At the last component
the node replaces the node of the child of that name, or is inserted as a new child.

The results:
* `insertEntries_sorted`: from a sorted tree, every sequence of entries is inserted without
  failing, and every directory's children stay strictly sorted by name;
* `insertIntoTree_getNode`: when the parent directory of an entry is already in the tree,
  `Tree::get_node` finds the entry's node at its path afterwards;
* `insertIntoTree_misplaced_under_last_child`: a missing directory that does not sort last is
  not the one entered. Inserting `/b` and then `/a/x` puts `x` under `/b`, and `/a/x` is not
  found.

Model notes. The node of an entry is a parameter, and so is the node `create_directory` makes
for a target path (its inode number comes from a counter the model leaves out). A path is the
list of its components after the root.
-/

namespace Nydus.Builder.TreeMerge

open Nydus.Lib Nydus.Lib.SortedKeys
open Nydus.Builder.TreeMerge.Tree

variable {α : Type} (bs : KeySearch Name)

/-- `Tree::get_node`: the subtree at a path. -/
def getNode : Tree α → List Name → Outcome (Option (Tree α))
  | t, [] => .ok (some t)
  | t, n :: rest =>
    match t.getChildIdx bs n with
    | some i =>
      match t.children[i]? with
      | some c => getNode c rest
      | none => Outcome.panic "index out of bounds"
    | none => .ok none

/-- `&mut t.children[i]`, changed by `f`: panics out of range. -/
def updateChild (t : Tree α) (i : Nat) (f : Tree α → Outcome (Tree α)) : Outcome (Tree α) :=
  match t.children[i]? with
  | some c => do
    let c ← f c
    pure { t with children := t.children.set i c }
  | none => Outcome.panic "index out of bounds"

section Insert

variable (mkDir : List Name → Node α) (node : Node α)

/-- The loop of `insert_into_tree` from the directory `t` on. `pre` holds the components of
the target path above the next one, and the node goes in at the last component. -/
def insertBelow (pre : List Name) (t : Tree α) : List Name → Outcome (Tree α)
  | [] => .ok t
  | [n] =>
    match t.getChildIdx bs n with
    | some i => updateChild t i fun c => .ok { c with node := node }
    | none => .ok (t.insertChild bs ⟨node, n, []⟩)
  | n :: m :: rest =>
    match t.getChildIdx bs n with
    | some i => updateChild t i fun c => insertBelow (pre ++ [n]) c (m :: rest)
    | none =>
      let t := t.insertChild bs ⟨mkDir (pre ++ [n]), n, []⟩
      -- `tmp_tree.children[last_idx]`: the last child, which is the new directory only when
      -- its name sorts last
      updateChild t (t.children.length - 1) fun c => insertBelow (pre ++ [n]) c (m :: rest)

/-- `TarBuilder::insert_into_tree` for an entry whose target path has components `comps`. -/
def insertIntoTree (t : Tree α) : List Name → Outcome (Tree α)
  -- the root entry (`assert_eq!(node.path(), "/")` holds): the root takes its node
  | [] => .ok { t with node := node }
  | n :: rest => insertBelow bs mkDir node [] t (n :: rest)

end Insert

/-- The entry loop of `build_tree`: each entry's target path and node, in the order they
arrive. -/
def insertEntries (mkDir : List Name → Node α) (t : Tree α) (entries : List (List Name × Node α)) :
    Outcome (Tree α) :=
  entries.foldlM (fun t e => insertIntoTree bs mkDir e.2 t e.1) t

/-! ## The children stay sorted -/

section Sorted

theorem updateChild_eq_ok {t t' : Tree α} {i : Nat} {f : Tree α → Outcome (Tree α)} :
    updateChild t i f = .ok t' ↔
      ∃ c c', t.children[i]? = some c ∧ f c = .ok c' ∧ t' = { t with children := t.children.set i c' } := by
  unfold updateChild
  split
  · rename_i c hc
    rw [bind_eq_ok]
    constructor
    · rintro ⟨c', hf, h⟩
      cases h
      exact ⟨c, c', hc, hf, rfl⟩
    · rintro ⟨c₀, c', hc₀, hf, rfl⟩
      rw [hc, Option.some.injEq] at hc₀
      subst hc₀
      exact ⟨c', hf, rfl⟩
  · rename_i hc
    simp only [Outcome.panic, reduceCtorEq, false_iff, not_exists, not_and]
    intro c _ hc'
    rw [hc] at hc'
    cases hc'

theorem updateChild_sorted {t t' : Tree α} {i : Nat} {f : Tree α → Outcome (Tree α)}
    (ht : t.Sorted) (hf : ∀ c c', c.Sorted → f c = .ok c' → c'.Sorted ∧ c'.name = c.name)
    (h : updateChild t i f = .ok t') : t'.Sorted ∧ t'.name = t.name ∧ t'.keys = t.keys := by
  obtain ⟨c, c', hc, hfc, rfl⟩ := updateChild_eq_ok.mp h
  have hcs : c.Sorted := ((sorted_iff t).mp ht).2 c (List.mem_of_getElem? hc)
  obtain ⟨hc's, hc'n⟩ := hf c c' hcs hfc
  exact ⟨sorted_set ht hc hc's hc'n, rfl, keys_set hc hc'n⟩

theorem updateChild_of_found {t : Tree α} {k : Name} {i : Nat} {f : Tree α → Outcome (Tree α)}
    (hs : t.keys.Pairwise (· < ·)) (hi : t.getChildIdx bs k = some i)
    (hf : ∀ c ∈ t.children, ∃ c', f c = .ok c') : ∃ t', updateChild t i f = .ok t' := by
  obtain ⟨c, hc, -⟩ := getChildIdx_eq_some bs hs hi
  obtain ⟨c', hc'⟩ := hf c (List.mem_of_getElem? hc)
  exact ⟨_, updateChild_eq_ok.mpr ⟨c, c', hc, hc', rfl⟩⟩

variable (mkDir : List Name → Node α) (node : Node α)

theorem insertChild_last {t : Tree α} (ht : t.Sorted) (d : Tree α) :
    ∃ c, (t.insertChild bs d).children[(t.insertChild bs d).children.length - 1]? = some c := by
  have hk := keys_insertChild bs ((sorted_iff t).mp ht).1 (.inl rfl : d.name = d.name ∨ _)
  have hne : (t.insertChild bs d).children ≠ [] := by
    intro h
    simp [keys, h] at hk
  have hlen := List.length_pos_of_ne_nil hne
  exact ⟨_, List.getElem?_eq_getElem (by omega)⟩

theorem insertBelow_sorted : ∀ (comps pre : List Name) (t : Tree α), t.Sorted →
    ∃ t', insertBelow bs mkDir node pre t comps = .ok t' ∧ t'.Sorted ∧ t'.name = t.name
  | [], _, t, ht => ⟨t, rfl, ht, rfl⟩
  | [n], _, t, ht => by
    have hs := ((sorted_iff t).mp ht).1
    cases hi : t.getChildIdx bs n with
    | some i =>
      -- `set_node`: the child keeps its name and its children
      have hf : ∀ c c' : Tree α, c.Sorted → (.ok { c with node := node } : Outcome (Tree α)) = .ok c' →
          c'.Sorted ∧ c'.name = c.name := by
        rintro c c' hc ⟨⟩
        exact ⟨(sorted_iff _).mpr ((sorted_iff c).mp hc), rfl⟩
      obtain ⟨t', ht'⟩ := updateChild_of_found bs hs hi fun c _ => ⟨_, rfl⟩
      obtain ⟨hs', hn', -⟩ := updateChild_sorted ht hf ht'
      exact ⟨t', by rw [insertBelow, hi]; exact ht', hs', hn'⟩
    | none =>
      refine ⟨_, by rw [insertBelow, hi], insertChild_sorted bs ht (.mk (by simp) (by simp)), ?_⟩
      unfold insertChild
      split <;> rfl
  | n :: m :: rest, pre, t, ht => by
    -- the entered child: by the induction hypothesis, the walk below it keeps it sorted
    have hf : ∀ c c' : Tree α, c.Sorted →
        insertBelow bs mkDir node (pre ++ [n]) c (m :: rest) = .ok c' →
        c'.Sorted ∧ c'.name = c.name := by
      intro c c' hc h
      obtain ⟨c'', h'', hs'', hn''⟩ := insertBelow_sorted (m :: rest) (pre ++ [n]) c hc
      rw [h] at h''
      cases h''
      exact ⟨hs'', hn''⟩
    have hgo : ∀ d : Tree α, d.Sorted → ∀ c ∈ d.children,
        ∃ c', insertBelow bs mkDir node (pre ++ [n]) c (m :: rest) = .ok c' := by
      intro d hd c hc
      obtain ⟨c', h, -⟩ := insertBelow_sorted (m :: rest) (pre ++ [n]) c
        (((sorted_iff d).mp hd).2 c hc)
      exact ⟨c', h⟩
    cases hi : t.getChildIdx bs n with
    | some i =>
      obtain ⟨t', ht'⟩ := updateChild_of_found bs ((sorted_iff t).mp ht).1 hi
        (hgo t ht)
      obtain ⟨hs', hn', -⟩ := updateChild_sorted ht hf ht'
      exact ⟨t', by rw [insertBelow, hi]; exact ht', hs', hn'⟩
    | none =>
      have ht₁ : (t.insertChild bs ⟨mkDir (pre ++ [n]), n, []⟩).Sorted :=
        insertChild_sorted bs ht (.mk (by simp) (by simp))
      obtain ⟨c, hc⟩ := insertChild_last bs ht ⟨mkDir (pre ++ [n]), n, []⟩
      obtain ⟨c', hc'⟩ := hgo _ ht₁ c (List.mem_of_getElem? hc)
      have hu : updateChild (t.insertChild bs ⟨mkDir (pre ++ [n]), n, []⟩)
          ((t.insertChild bs ⟨mkDir (pre ++ [n]), n, []⟩).children.length - 1)
          (fun c => insertBelow bs mkDir node (pre ++ [n]) c (m :: rest)) = .ok _ :=
        updateChild_eq_ok.mpr ⟨c, c', hc, hc', rfl⟩
      obtain ⟨hs', hn', -⟩ := updateChild_sorted ht₁ hf hu
      refine ⟨_, by rw [insertBelow, hi]; exact hu, hs', ?_⟩
      rw [hn']
      unfold insertChild
      split <;> rfl

theorem insertIntoTree_sorted {t : Tree α} (ht : t.Sorted) (comps : List Name) :
    ∃ t', insertIntoTree bs mkDir node t comps = .ok t' ∧ t'.Sorted := by
  cases comps with
  | nil => exact ⟨_, rfl, (sorted_iff _).mpr ((sorted_iff t).mp ht)⟩
  | cons n rest =>
    obtain ⟨t', h, hs, -⟩ := insertBelow_sorted bs mkDir node (n :: rest) [] t ht
    exact ⟨t', h, hs⟩

/-- **The entry loop keeps the tree sorted.** From a sorted tree, such as the lone root the
builders start from, every sequence of entries, in any order and with parents missing or
coming later, is inserted without failing, and every directory's children are strictly sorted
by name afterwards. -/
theorem insertEntries_sorted {t : Tree α} (ht : t.Sorted) :
    ∀ entries : List (List Name × Node α),
      ∃ t', insertEntries bs mkDir t entries = .ok t' ∧ t'.Sorted := by
  intro entries
  induction entries generalizing t with
  | nil => exact ⟨t, rfl, ht⟩
  | cons e es ih =>
    obtain ⟨t₁, h₁, hs₁⟩ := insertIntoTree_sorted bs mkDir e.2 ht e.1
    obtain ⟨t', h', hs'⟩ := ih hs₁
    refine ⟨t', ?_, hs'⟩
    rw [insertEntries, List.foldlM_cons, h₁, ok_bind]
    exact h'

end Sorted

/-! ## Where the node lands -/

section Found

variable (mkDir : List Name → Node α) (node : Node α)

theorem getNode_cons {t c : Tree α} {n : Name} {i : Nat} (hi : t.getChildIdx bs n = some i)
    (hc : t.children[i]? = some c) (rest : List Name) :
    getNode bs t (n :: rest) = getNode bs c rest := by
  rw [getNode, hi]
  simp only [hc]

theorem getChildIdx_insertChild {t d : Tree α} (hs : t.keys.Pairwise (· < ·))
    (h : t.getChildIdx bs d.name = none) :
    ∃ i, (t.insertChild bs d).getChildIdx bs d.name = some i ∧
      (t.insertChild bs d).children[i]? = some d := by
  unfold getChildIdx at h
  rw [bs.search_eq t.keys d.name hs] at h
  cases hf : findKey d.name t.keys with
  | ok j =>
    rw [hf] at h
    cases h
  | error i =>
    have hle := (findKey_eq_error hs hf).2.1
    simp only [keys, List.length_map] at hle
    have hins : t.insertChild bs d = { t with children := t.children.insertIdx i d } := by
      unfold insertChild
      rw [bs.search_eq t.keys d.name hs, hf]
    have hget : (t.insertChild bs d).children[i]? = some d := by
      rw [hins]
      simp [List.getElem?_insertIdx_self, hle]
    have hs' : (t.insertChild bs d).keys.Pairwise (· < ·) := by
      rw [hins]
      exact pairwise_insertIdx_of_findKey Tree.name hs hf
    exact ⟨i, getChildIdx_of_getElem? bs hs' hget, hget⟩

theorem insertBelow_getNode : ∀ (comps pre : List Name) (t : Tree α), t.Sorted → comps ≠ [] →
    (∃ d, getNode bs t comps.dropLast = .ok (some d)) →
    ∃ t' d, insertBelow bs mkDir node pre t comps = .ok t' ∧
      getNode bs t' comps = .ok (some d) ∧ d.node = node
  | [], _, _, _, hne, _ => absurd rfl hne
  | [n], _, t, ht, _, _ => by
    have hs := ((sorted_iff t).mp ht).1
    cases hi : t.getChildIdx bs n with
    | some i =>
      -- `set_node` on the child found: the names stay, so the search still finds it
      obtain ⟨c, hc, -⟩ := getChildIdx_eq_some bs hs hi
      have hlt : i < t.children.length := (List.getElem?_eq_some_iff.mp hc).1
      have hu : updateChild t i (fun c => .ok { c with node := node }) =
          .ok { t with children := t.children.set i { c with node := node } } :=
        updateChild_eq_ok.mpr ⟨c, _, hc, rfl, rfl⟩
      have hk : ({ t with children := t.children.set i { c with node := node } } : Tree α).keys =
          t.keys := keys_set hc rfl
      have hi' : ({ t with children := t.children.set i { c with node := node } } :
          Tree α).getChildIdx bs n = some i := by
        rw [getChildIdx_congr bs hk]
        exact hi
      refine ⟨_, { c with node := node }, by rw [insertBelow, hi]; exact hu, ?_, rfl⟩
      rw [getNode_cons bs hi' (List.getElem?_set_self hlt)]
      rfl
    | none =>
      have hi₀ : t.getChildIdx bs (⟨node, n, []⟩ : Tree α).name = none := hi
      obtain ⟨j, hj, hcj⟩ := getChildIdx_insertChild bs hs hi₀
      refine ⟨_, ⟨node, n, []⟩, by rw [insertBelow, hi], ?_, rfl⟩
      rw [getNode_cons bs hj hcj]
      rfl
  | n :: m :: rest, pre, t, ht, _, ⟨d, hd⟩ => by
    have hs := ((sorted_iff t).mp ht).1
    rw [List.dropLast_cons_cons] at hd
    -- the holding directory lies under the child `n`, so the walk enters that child
    cases hi : t.getChildIdx bs n with
    | none =>
      rw [getNode, hi] at hd
      cases hd
    | some i =>
      obtain ⟨c, hc, -⟩ := getChildIdx_eq_some bs hs hi
      rw [getNode_cons bs hi hc] at hd
      have hcs : c.Sorted := ((sorted_iff t).mp ht).2 c (List.mem_of_getElem? hc)
      obtain ⟨c', d', hc', hget', hnode⟩ :=
        insertBelow_getNode (m :: rest) (pre ++ [n]) c hcs (by simp) ⟨d, hd⟩
      obtain ⟨c'', hc'', -, hn⟩ := insertBelow_sorted bs mkDir node (m :: rest) (pre ++ [n]) c hcs
      rw [hc'] at hc''
      cases hc''
      have hlt : i < t.children.length := (List.getElem?_eq_some_iff.mp hc).1
      have hu : updateChild t i (fun c => insertBelow bs mkDir node (pre ++ [n]) c (m :: rest)) =
          .ok { t with children := t.children.set i c' } :=
        updateChild_eq_ok.mpr ⟨c, c', hc, hc', rfl⟩
      have hi' : ({ t with children := t.children.set i c' } : Tree α).getChildIdx bs n = some i := by
        rw [getChildIdx_congr bs (keys_set hc hn)]
        exact hi
      refine ⟨_, d', by rw [insertBelow, hi]; exact hu, ?_, hnode⟩
      rw [getNode_cons bs hi' (List.getElem?_set_self hlt)]
      exact hget'

/-- **Entries whose directory is there land at their path.** When the directory that is to hold
an entry is already in a sorted tree (as it is when directories arrive before what they hold),
`insert_into_tree` succeeds and `get_node` finds the entry's node at its target path. -/
theorem insertIntoTree_getNode {t : Tree α} (ht : t.Sorted) (comps : List Name)
    (hparent : ∃ d, getNode bs t comps.dropLast = .ok (some d)) :
    ∃ t' d, insertIntoTree bs mkDir node t comps = .ok t' ∧
      getNode bs t' comps = .ok (some d) ∧ d.node = node := by
  cases comps with
  | nil => exact ⟨_, _, rfl, rfl, rfl⟩
  | cons n rest => exact insertBelow_getNode bs mkDir node (n :: rest) [] t ht (by simp) hparent

end Found

/-! ## Entries in the order of a tar stream -/

/-- The node `create_directory` makes. -/
def dirNode : Node Nat := ⟨.dir, (0, 0), false, .upperAddition, 0⟩

/-- The node of a regular file entry. -/
def fileNode (k : Nat) : Node Nat := ⟨.other, (0, 0), false, .upperAddition, k⟩

/-- The lone root the builders start from. -/
def rootDir : Tree Nat := ⟨dirNode, rootName, []⟩

theorem rootDir_sorted : rootDir.Sorted := .mk (by simp) (by simp)

/-- A lone root, and a file `/a`. -/
theorem insertEntries_sorted_one_file :
    rootDir.Sorted ∧
      ∃ t', insertEntries KeySearch.linear (fun _ => dirNode) rootDir [([[97]], fileNode 1)] =
        .ok t' ∧ t'.Sorted :=
  ⟨rootDir_sorted, insertEntries_sorted KeySearch.linear _ rootDir_sorted _⟩

/-- A file `/a` in the lone root is found at `/a`. -/
theorem insertIntoTree_getNode_top_level :
    rootDir.Sorted ∧ (∃ d, getNode KeySearch.linear rootDir ([[97]] : List Name).dropLast = .ok (some d)) ∧
      ∃ t' d, insertIntoTree KeySearch.linear (fun _ => dirNode) (fileNode 1) rootDir [[97]] = .ok t' ∧
        getNode KeySearch.linear t' [[97]] = .ok (some d) ∧ d.node = fileNode 1 :=
  ⟨rootDir_sorted, ⟨rootDir, rfl⟩,
    insertIntoTree_getNode KeySearch.linear _ _ rootDir_sorted [[97]] ⟨rootDir, rfl⟩⟩

/-- A file `/b` arrives, then `/a/x` while `/a` is missing. The new directory `/a` sorts before
`/b`, so `children[len - 1]` is `/b`, and `x` goes in under the file `/b`. `/a` is there with no
child, `/a/x` is not found, and `/b/x` holds the node of `/a/x`. -/
theorem insertIntoTree_misplaced_under_last_child :
    ∃ t₁ t₂ : Tree Nat,
      insertIntoTree KeySearch.linear (fun _ => dirNode) (fileNode 1) rootDir [[98]] = .ok t₁ ∧
      insertIntoTree KeySearch.linear (fun _ => dirNode) (fileNode 2) t₁ [[97], [120]] = .ok t₂ ∧
      (getNode KeySearch.linear t₂ [[97]]).map (Option.map Tree.children) = .ok (some []) ∧
      getNode KeySearch.linear t₂ [[97], [120]] = .ok none ∧
      (getNode KeySearch.linear t₂ [[98], [120]]).map (Option.map Tree.node) =
        .ok (some (fileNode 2)) :=
  ⟨_, _, rfl, rfl, rfl, rfl, rfl⟩


end Nydus.Builder.TreeMerge
