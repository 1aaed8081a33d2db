import Mathlib

/-!
# Interval trees that allocate ranges of points

An interval tree covers a root range of points and allocates ranges in it, each either only
allocated or holding a value; the rest of the root is free. `IntervalTreeApi` is such a tree as
a caller sees it: its operations, the set of allocated ranges as the state they act on
(`nodes`), and the laws that tie them together. A caller that relies on the laws alone holds
for every tree that keeps them; `listTrees` is one.

`allocate t lo hi` asks for a constraint whose size fills its bounds, `[lo, hi]`: the tree gives
that range when it is free and nothing otherwise. `update t r a` sets the value of the allocated
range `r`. `getSuperset t p` gives the allocated range holding `p`, with its state.

Allocating a free range and then setting its value adds the range, with the value, to the others
(`nodes_update_allocate`). `Covers S lo hi` says the ranges of `S` lie in `[lo, hi)` and hold
all of it; a free range then starts at `hi` or later (`Free.le_of_covers`).
-/

namespace Nydus.Lib

/-- `Range`: the points `min..=max`. -/
structure Range where
  min : Nat
  max : Nat
  deriving DecidableEq, Repr

namespace Range

/-- The range holds the point `p`. -/
def Contains (r : Range) (p : Nat) : Prop := r.min ≤ p ∧ p ≤ r.max

instance (r : Range) (p : Nat) : Decidable (r.Contains p) := inferInstanceAs (Decidable (_ ∧ _))

/-- Two ranges share no point. -/
def Apart (r s : Range) : Prop := r.max < s.min ∨ s.max < r.min

instance (r s : Range) : Decidable (r.Apart s) := inferInstanceAs (Decidable (_ ∨ _))

theorem Apart.symm {r s : Range} (h : r.Apart s) : s.Apart r := Or.symm h

theorem Apart.not_contains {r s : Range} (h : r.Apart s) {p : Nat} (hr : r.Contains p) :
    ¬s.Contains p := by
  unfold Apart Contains at *
  omega

end Range

/-- `NodeState`: what `get_superset` tells of the range it returns. -/
inductive NodeState (α : Type) where
  | free
  | allocated
  | valued (a : α)

/-- The state of an allocated range: `none` while it holds no value. -/
def NodeState.ofOption {α : Type} : Option α → NodeState α
  | none => .allocated
  | some a => .valued a

/-- The node `n` with the value `a` when its range is `r`. -/
def setValue {α : Type} (r : Range) (a : α) (n : Range × Option α) : Range × Option α :=
  (n.1, if n.1 = r then some a else n.2)

theorem setValue_of_apart {α : Type} {r : Range} (hr : r.min ≤ r.max) (a : α)
    {n : Range × Option α} (h : n.1.Apart r) : setValue r a n = n := by
  have hne : n.1 ≠ r := by
    intro heq
    rw [heq] at h
    unfold Range.Apart at h
    omega
  simp [setValue, hne]

/-- An interval tree of values `α`, as its caller sees it: the operations, the allocated ranges
of a tree with their values (`nodes`), and the laws of the operations over them. -/
structure IntervalTreeApi (α : Type) where
  Tree : Type
  root : Tree → Range
  nodes : Tree → Set (Range × Option α)
  /-- `IntervalTree::new()` followed by `insert(root, None)`. -/
  new : Range → Tree
  /-- `allocate(&Constraint::new(hi - lo + 1).min(lo).max(hi))`. -/
  allocate : Tree → Nat → Nat → Option (Tree × Range)
  /-- `update(&r, a)`. -/
  update : Tree → Range → α → Tree
  /-- `get_superset(&Range::new_point(p))`. -/
  getSuperset : Tree → Nat → Option (Range × NodeState α)
  root_new : ∀ r, root (new r) = r
  nodes_new : ∀ r, nodes (new r) = ∅
  /-- A range that lies in the root, is not empty and meets no allocated range is given. -/
  allocate_of_free : ∀ t lo hi, (root t).min ≤ lo → lo ≤ hi → hi ≤ (root t).max →
    (∀ n ∈ nodes t, n.1.Apart ⟨lo, hi⟩) → ∃ t', allocate t lo hi = some (t', ⟨lo, hi⟩)
  /-- What is given was such a range, and is allocated now, with no value. -/
  allocate_eq_some : ∀ t t' lo hi r, allocate t lo hi = some (t', r) →
    ((root t).min ≤ lo ∧ lo ≤ hi ∧ hi ≤ (root t).max ∧ ∀ n ∈ nodes t, n.1.Apart ⟨lo, hi⟩) ∧
      r = ⟨lo, hi⟩ ∧ root t' = root t ∧ nodes t' = insert (⟨lo, hi⟩, none) (nodes t)
  root_update : ∀ t r a, root (update t r a) = root t
  nodes_update : ∀ t r a, nodes (update t r a) = Set.image (setValue r a) (nodes t)
  /-- A point held by an allocated range gets that range and its state. -/
  getSuperset_of_mem : ∀ t n p, n ∈ nodes t → n.1.Contains p →
    getSuperset t p = some (n.1, NodeState.ofOption n.2)
  /-- A range with a value holding the point is an allocated one. -/
  getSuperset_valued : ∀ t p r a, getSuperset t p = some (r, .valued a) →
    (r, some a) ∈ nodes t ∧ r.Contains p

namespace IntervalTreeApi

variable {α : Type} (T : IntervalTreeApi α)

/-- The range `r` lies in the root, is not empty, and meets no allocated range. -/
def Free (t : T.Tree) (r : Range) : Prop :=
  (T.root t).min ≤ r.min ∧ r.min ≤ r.max ∧ r.max ≤ (T.root t).max ∧ ∀ n ∈ T.nodes t, n.1.Apart r

variable {T}

theorem allocate_free {t t' : T.Tree} {lo hi : Nat} {r : Range}
    (h : T.allocate t lo hi = some (t', r)) :
    T.Free t ⟨lo, hi⟩ ∧ r = ⟨lo, hi⟩ ∧ T.root t' = T.root t ∧
      T.nodes t' = insert (⟨lo, hi⟩, none) (T.nodes t) :=
  T.allocate_eq_some t t' lo hi r h

/-- Allocating a range and then setting it adds the range, with its value, to the others. -/
theorem nodes_update_allocate {t t' : T.Tree} {lo hi : Nat} {r : Range}
    (h : T.allocate t lo hi = some (t', r)) (a : α) :
    T.nodes (T.update t' r a) = insert (⟨lo, hi⟩, some a) (T.nodes t) := by
  obtain ⟨hfree, rfl, -, hnodes⟩ := allocate_free h
  rw [T.nodes_update, hnodes, Set.image_insert_eq]
  congr 1
  · simp [setValue]
  · refine (Set.image_congr fun n hn => setValue_of_apart hfree.2.1 a (hfree.2.2.2 n hn)).trans ?_
    exact Set.image_id _

theorem not_free_of_contains {t : T.Tree} {n : Range × Option α} (hn : n ∈ T.nodes t)
    {r : Range} {p : Nat} (hnp : n.1.Contains p) (hrp : r.Contains p) : ¬T.Free t r :=
  fun h => (h.2.2.2 n hn).not_contains hnp hrp

end IntervalTreeApi

/-! ## Ranges that cover a stretch of points -/

section Covers

variable {β : Type}

/-- The ranges of `S` lie in `[lo, hi)`, none empty, and hold every point of it. -/
structure Covers (S : Set (Range × β)) (lo hi : Nat) : Prop where
  le : lo ≤ hi
  bounds : ∀ n ∈ S, lo ≤ n.1.min ∧ n.1.min ≤ n.1.max ∧ n.1.max < hi
  exists_contains : ∀ p, lo ≤ p → p < hi → ∃ n ∈ S, n.1.Contains p

theorem covers_empty (lo : Nat) : Covers (∅ : Set (Range × β)) lo lo where
  le := le_rfl
  bounds _ hn := by cases hn
  exists_contains _ h₁ h₂ := by omega

theorem Covers.insert {S : Set (Range × β)} {lo hi : Nat} (h : Covers S lo hi) {r : Range}
    (hr : r.min = hi) (hle : r.min ≤ r.max) (b : β) :
    Covers (Insert.insert (r, b) S) lo (r.max + 1) := by
  refine ⟨by have := h.le; omega, fun n hn => ?_, fun p hlo hhi => ?_⟩
  · rcases Set.mem_insert_iff.mp hn with rfl | hn
    · have := h.le
      dsimp only
      omega
    · have := h.bounds n hn
      omega
  · by_cases hp : p < hi
    · obtain ⟨n, hn, hnp⟩ := h.exists_contains p hlo hp
      exact ⟨n, Set.mem_insert_of_mem _ hn, hnp⟩
    · refine ⟨(r, b), Set.mem_insert _ _, ?_⟩
      show r.min ≤ p ∧ p ≤ r.max
      omega

/-- A free range lies past the ranges that cover `[lo, hi)`. -/
theorem IntervalTreeApi.Free.le_of_covers {α : Type} {T : IntervalTreeApi α} {t : T.Tree}
    {r : Range} (h : T.Free t r) {lo hi : Nat} (hcov : Covers (T.nodes t) lo hi)
    (hlo : lo ≤ r.min) : hi ≤ r.min := by
  by_contra hlt
  obtain ⟨n, hn, hnp⟩ := hcov.exists_contains r.min hlo (Nat.lt_of_not_le hlt)
  exact IntervalTreeApi.not_free_of_contains hn hnp ⟨le_rfl, h.2.1⟩ h

end Covers

/-! ## A tree that keeps its ranges in a list -/

/-- An interval tree that keeps its allocated ranges in a list, in the order they were
allocated, with the invariants that every range lies in the root and the ranges are apart. -/
structure ListTree (α : Type) where
  root : Range
  nodes : List (Range × Option α)
  inside : ∀ n ∈ nodes, root.min ≤ n.1.min ∧ n.1.min ≤ n.1.max ∧ n.1.max ≤ root.max
  apart : nodes.Pairwise fun a b => a.1.Apart b.1

namespace ListTree

variable {α : Type}

/-- The range lies in the root, is not empty, and meets no range of the list. -/
def Free (t : ListTree α) (r : Range) : Prop :=
  t.root.min ≤ r.min ∧ r.min ≤ r.max ∧ r.max ≤ t.root.max ∧ ∀ n ∈ t.nodes, n.1.Apart r

instance (t : ListTree α) (r : Range) : Decidable (t.Free r) :=
  inferInstanceAs (Decidable (_ ∧ _ ∧ _ ∧ _))

theorem Free.inside_append {t : ListTree α} {r : Range} (h : t.Free r) (v : Option α) :
    ∀ n ∈ t.nodes ++ [(r, v)], t.root.min ≤ n.1.min ∧ n.1.min ≤ n.1.max ∧ n.1.max ≤ t.root.max := by
  intro n hn
  rcases List.mem_append.mp hn with hn | hn
  · exact t.inside n hn
  · rw [List.mem_singleton.mp hn]
    exact ⟨h.1, h.2.1, h.2.2.1⟩

theorem Free.apart_append {t : ListTree α} {r : Range} (h : t.Free r) (v : Option α) :
    (t.nodes ++ [(r, v)]).Pairwise fun a b => a.1.Apart b.1 := by
  refine List.pairwise_append.mpr ⟨t.apart, List.pairwise_singleton _ _, fun a ha b hb => ?_⟩
  rw [List.mem_singleton.mp hb]
  exact h.2.2.2 a ha

/-- The range `[lo, hi]` when it is free. -/
def allocate (t : ListTree α) (lo hi : Nat) : Option (ListTree α × Range) :=
  if h : t.Free ⟨lo, hi⟩ then
    some (⟨t.root, t.nodes ++ [(⟨lo, hi⟩, none)], h.inside_append none, h.apart_append none⟩,
      ⟨lo, hi⟩)
  else none

/-- The range `r` holds `a`. -/
def update (t : ListTree α) (r : Range) (a : α) : ListTree α where
  root := t.root
  nodes := t.nodes.map (setValue r a)
  inside := by
    simp only [List.mem_map, forall_exists_index, and_imp]
    rintro _ n hn rfl
    exact t.inside n hn
  apart := List.pairwise_map.mpr t.apart

/-- The free stretch of the root around `p`: from past the last range below it to before the
first range above it. -/
def freeAround (t : ListTree α) (p : Nat) : Range :=
  ⟨t.nodes.foldl (fun lo n => if n.1.max < p then Nat.max lo (n.1.max + 1) else lo) t.root.min,
    t.nodes.foldl (fun hi n => if p < n.1.min then Nat.min hi (n.1.min - 1) else hi) t.root.max⟩

/-- The range holding `p` with its state, or the free stretch around `p`; nothing outside the
root. -/
def getSuperset (t : ListTree α) (p : Nat) : Option (Range × NodeState α) :=
  if t.root.Contains p then
    match t.nodes.find? fun n => decide (n.1.Contains p) with
    | some n => some (n.1, NodeState.ofOption n.2)
    | none => some (t.freeAround p, .free)
  else none

theorem allocate_eq_some {t t' : ListTree α} {lo hi : Nat} {r : Range}
    (h : t.allocate lo hi = some (t', r)) :
    t.Free ⟨lo, hi⟩ ∧ r = ⟨lo, hi⟩ ∧ t'.root = t.root ∧ t'.nodes = t.nodes ++ [(⟨lo, hi⟩, none)] := by
  unfold allocate at h
  split_ifs at h with hfree
  obtain ⟨rfl, rfl⟩ := Prod.mk.inj (Option.some.inj h)
  exact ⟨hfree, rfl, rfl, rfl⟩

theorem eq_of_contains {t : ListTree α} {n n' : Range × Option α} (hn : n ∈ t.nodes)
    (hn' : n' ∈ t.nodes) {p : Nat} (hp : n.1.Contains p) (hp' : n'.1.Contains p) : n = n' := by
  by_contra hne
  have : Std.Symm fun a b : Range × Option α => a.1.Apart b.1 := ⟨fun _ _ h => h.symm⟩
  exact (t.apart.forall hn hn' hne).not_contains hp hp'

theorem getSuperset_of_mem {t : ListTree α} {n : Range × Option α} (hn : n ∈ t.nodes)
    {p : Nat} (hp : n.1.Contains p) :
    t.getSuperset p = some (n.1, NodeState.ofOption n.2) := by
  have hroot : t.root.Contains p := by
    have := t.inside n hn
    unfold Range.Contains at hp ⊢
    omega
  rw [getSuperset, if_pos hroot]
  cases hfind : t.nodes.find? fun n => decide (n.1.Contains p) with
  | none =>
    have := List.find?_eq_none.mp hfind n hn
    simp [hp] at this
  | some n' =>
    have hn' := List.mem_of_find?_eq_some hfind
    have hp' : n'.1.Contains p := by simpa using List.find?_some hfind
    rw [eq_of_contains hn' hn hp' hp]

theorem getSuperset_valued {t : ListTree α} {p : Nat} {r : Range} {a : α}
    (h : t.getSuperset p = some (r, .valued a)) : (r, some a) ∈ t.nodes ∧ r.Contains p := by
  unfold getSuperset at h
  split_ifs at h
  cases hfind : t.nodes.find? fun n => decide (n.1.Contains p) with
  | none => simp [hfind] at h
  | some n =>
    rw [hfind] at h
    obtain ⟨rfl, hv⟩ := Prod.mk.inj (Option.some.inj h)
    have hn := List.mem_of_find?_eq_some hfind
    have hp : n.1.Contains p := by simpa using List.find?_some hfind
    cases hn2 : n.2 with
    | none => simp [hn2, NodeState.ofOption] at hv
    | some b =>
      rw [hn2] at hv
      cases hv
      exact ⟨by rw [← hn2]; exact hn, hp⟩

end ListTree

/-- The list trees keep the laws. -/
def listTrees (α : Type) : IntervalTreeApi α where
  Tree := ListTree α
  root := ListTree.root
  nodes t := {n | n ∈ t.nodes}
  new root := ListTree.mk root [] (by simp) List.Pairwise.nil
  allocate := ListTree.allocate
  update := ListTree.update
  getSuperset := ListTree.getSuperset
  root_new _ := rfl
  nodes_new _ := by simp
  allocate_of_free t lo hi h₁ h₂ h₃ h₄ := by
    have hfree : t.Free ⟨lo, hi⟩ := ⟨h₁, h₂, h₃, h₄⟩
    exact ⟨_, by rw [ListTree.allocate, dif_pos hfree]⟩
  allocate_eq_some t t' lo hi r h := by
    obtain ⟨hfree, rfl, hroot, hnodes⟩ := ListTree.allocate_eq_some h
    refine ⟨hfree, rfl, hroot, ?_⟩
    ext n
    simp [hnodes, or_comm]
  root_update _ _ _ := rfl
  nodes_update t r a := by
    ext n
    simp [ListTree.update]
  getSuperset_of_mem _ _ _ hn hp := ListTree.getSuperset_of_mem hn hp
  getSuperset_valued _ _ _ _ h := ListTree.getSuperset_valued h

end Nydus.Lib
