import Mathlib
import Nydus.Lib.Outcome
import Nydus.Lib.FieldWrites

/-!
# Insertion sort with a comparison that may fail

`slice::sort_by` on a short slice is `insertion_sort_shift_left`: the sorted run grows by one
element at a time, and `insert_tail` moves the new element left past every element of the run
that it is less than. The run is held here last element first, so that the element the new one
meets first is the head of the list.

`insertTail` and `insertionSortShiftLeft` use a comparison that cannot fail. Their output is a
permutation of the input (`insertionSortShiftLeft_perm`), sorted by the comparison when the
comparison is a total preorder (`insertionSortShiftLeft_sorted`, for a `Std.TransCmp`).

`insertTailM`, `insertionSortShiftLeftM` and `sortBy` use a comparison that may fail. When the
comparison succeeds on every pair of elements, they give the pure sort (`sortBy_eq_ok`). When one
element fails every comparison it takes part in, a slice of two or more elements fails
(`sortBy_eq_error`). This is because every element of such a slice is compared at least once.
-/

namespace Nydus.Lib

section Pure

variable {α : Type} (isLess : α → α → Bool)

/-- `insert_tail`: `x` moves left past every element of the run that it is less than. The run is
held last element first. -/
def insertTail (x : α) : List α → List α
  | [] => [x]
  | y :: ys => if isLess x y then y :: insertTail x ys else x :: y :: ys

/-- `insertion_sort_shift_left(v, 1, is_less)`: each element is inserted into the run of the
elements before it. -/
def insertionSortShiftLeft (v : List α) : List α :=
  (v.foldl (fun run x => insertTail isLess x run) []).reverse

theorem insertTail_perm (x : α) : ∀ run : List α, (insertTail isLess x run).Perm (x :: run)
  | [] => List.Perm.refl _
  | y :: ys => by
    rw [insertTail]
    split
    · exact ((insertTail_perm x ys).cons y).trans (List.Perm.swap x y ys)
    · exact List.Perm.refl _

theorem foldl_insertTail_perm :
    ∀ (v run : List α), (v.foldl (fun run x => insertTail isLess x run) run).Perm (v.reverse ++ run)
  | [], run => List.Perm.refl run
  | x :: xs, run => by
    rw [List.foldl_cons, List.reverse_cons, List.append_assoc, List.singleton_append]
    exact (foldl_insertTail_perm xs _).trans ((insertTail_perm isLess x run).append_left _)

theorem insertionSortShiftLeft_perm (v : List α) : (insertionSortShiftLeft isLess v).Perm v := by
  have h := foldl_insertTail_perm isLess v []
  rw [List.append_nil] at h
  exact (List.reverse_perm _).trans (h.trans (List.reverse_perm v))

end Pure

section Sorted

variable {α : Type} {cmp : α → α → Ordering} [Std.TransCmp cmp]

theorem insertTail_pairwise (x : α) :
    ∀ {run : List α}, run.Pairwise (fun a b => (cmp a b).isGE) →
      (insertTail (fun a b => cmp a b == .lt) x run).Pairwise (fun a b => (cmp a b).isGE)
  | [], _ => List.pairwise_singleton _ x
  | y :: ys, h => by
    rw [List.pairwise_cons] at h
    rw [insertTail]
    split
    · -- `x` is less than `y`: `y` stays in front, above `x` and above every element of `ys`
      rename_i hlt
      have hxy : cmp x y = .lt := by simpa using hlt
      refine List.pairwise_cons.mpr ⟨fun z hz => ?_, insertTail_pairwise x h.2⟩
      rcases List.mem_cons.mp ((insertTail_perm _ x ys).mem_iff.mp hz) with rfl | hz
      · simp [Std.OrientedCmp.gt_of_lt hxy]
      · exact h.1 z hz
    · -- `x` is not less than `y`, so it is above `y` and, through `y`, above `ys`
      rename_i hge
      have hxy : (cmp x y).isGE := by
        cases hc : cmp x y <;> simp_all
      refine List.pairwise_cons.mpr ⟨fun z hz => ?_, List.pairwise_cons.mpr h⟩
      rcases List.mem_cons.mp hz with rfl | hz
      · exact hxy
      · exact Std.TransCmp.isGE_trans hxy (h.1 z hz)

/-- Insertion sort by a total preorder sorts. -/
theorem insertionSortShiftLeft_sorted (v : List α) :
    (insertionSortShiftLeft (fun a b => cmp a b == .lt) v).Pairwise (fun a b => (cmp a b).isLE) := by
  have hrun : (v.foldl (fun run x => insertTail (fun a b => cmp a b == .lt) x run) []).Pairwise
      (fun a b => (cmp a b).isGE) :=
    foldl_writes_inv (fun x _ _ h => insertTail_pairwise x h) List.Pairwise.nil
  rw [insertionSortShiftLeft, List.pairwise_reverse]
  exact hrun.imp fun h => Std.OrientedCmp.isLE_of_isGE h

end Sorted

section Fallible

variable {α ε : Type} (isLess : α → α → Except ε Bool)

/-- `insert_tail` with a comparison that may fail: the first failure ends the insertion. -/
def insertTailM (x : α) : List α → Except ε (List α)
  | [] => .ok [x]
  | y :: ys => do
    if ← isLess x y then
      let rest ← insertTailM x ys
      return y :: rest
    else return x :: y :: ys

/-- `insertion_sort_shift_left(v, 1, is_less)` with a comparison that may fail. -/
def insertionSortShiftLeftM (v : List α) : Except ε (List α) :=
  List.reverse <$> v.foldlM (fun run x => insertTailM isLess x run) []

/-- `slice::sort_by`: the sort's `is_less` is the comparison returning `Less`. -/
def sortBy (cmp : α → α → Except ε Ordering) (v : List α) : Except ε (List α) :=
  insertionSortShiftLeftM (fun a b => (· == .lt) <$> cmp a b) v

variable {isLess}

theorem insertTailM_eq_ok {lt : α → α → Bool} (x : α) :
    ∀ {run : List α}, (∀ y ∈ run, isLess x y = .ok (lt x y)) →
      insertTailM isLess x run = .ok (insertTail lt x run)
  | [], _ => rfl
  | y :: ys, h => by
    rw [insertTailM, insertTail, h y List.mem_cons_self, ok_bind]
    cases lt x y with
    | true =>
      rw [if_pos rfl, if_pos rfl, insertTailM_eq_ok x fun z hz => h z (List.mem_cons_of_mem y hz)]
      rfl
    | false => rfl

theorem foldlM_insertTailM_eq_ok {lt : α → α → Bool} :
    ∀ {v run : List α}, (∀ a ∈ v, ∀ b ∈ v ++ run, isLess a b = .ok (lt a b)) →
      v.foldlM (fun run x => insertTailM isLess x run) run =
        .ok (v.foldl (fun run x => insertTail lt x run) run)
  | [], _, _ => rfl
  | x :: xs, run, h => by
    have hx : insertTailM isLess x run = .ok (insertTail lt x run) :=
      insertTailM_eq_ok x fun y hy =>
        h x List.mem_cons_self y (List.mem_append_right _ hy)
    rw [List.foldlM_cons, hx, ok_bind, List.foldl_cons]
    refine foldlM_insertTailM_eq_ok fun a ha b hb => h a (List.mem_cons_of_mem x ha) b ?_
    rcases List.mem_append.mp hb with hb | hb
    · exact List.mem_append_left _ (List.mem_cons_of_mem x hb)
    · rcases List.mem_cons.mp ((insertTail_perm lt x run).mem_iff.mp hb) with rfl | hb
      · exact List.mem_append_left _ List.mem_cons_self
      · exact List.mem_append_right _ hb

/-- **Simulation.** A sort whose comparison succeeds on the slice's elements is the pure sort. -/
theorem sortBy_eq_ok {cmp : α → α → Except ε Ordering} {c : α → α → Ordering} {v : List α}
    (h : ∀ a ∈ v, ∀ b ∈ v, cmp a b = .ok (c a b)) :
    sortBy cmp v = .ok (insertionSortShiftLeft (fun a b => c a b == .lt) v) := by
  have hfold : v.foldlM (fun run x => insertTailM (fun a b => (· == .lt) <$> cmp a b) x run) [] =
      .ok (v.foldl (fun run x => insertTail (fun a b => c a b == .lt) x run) []) :=
    foldlM_insertTailM_eq_ok fun a ha b hb => by
      rw [List.append_nil] at hb
      rw [h a ha b hb]
      rfl
  rw [sortBy, insertionSortShiftLeftM, hfold]
  rfl

theorem insertTailM_ne_nil {x : α} {run r : List α} (h : insertTailM isLess x run = .ok r) :
    r ≠ [] := by
  cases run with
  | nil =>
    cases h
    exact List.cons_ne_nil x []
  | cons y ys =>
    rw [insertTailM, bind_eq_ok] at h
    obtain ⟨b, -, h⟩ := h
    cases b with
    | true =>
      rw [if_pos rfl, bind_eq_ok] at h
      obtain ⟨rest, -, h⟩ := h
      cases h
      exact List.cons_ne_nil y rest
    | false =>
      cases h
      exact List.cons_ne_nil x _

theorem insertionSortShiftLeftM_ne_ok {a : α} (hfail : ∀ b, (∃ e, isLess a b = .error e) ∧
      ∃ e, isLess b a = .error e) :
    ∀ {v r : List α}, a ∈ v → 2 ≤ v.length → insertionSortShiftLeftM isLess v ≠ .ok r := by
  intro v r ha hlen h
  rw [insertionSortShiftLeftM] at h
  change Except.map _ _ = _ at h
  rw [map_eq_ok] at h
  obtain ⟨run, h, -⟩ := h
  obtain ⟨pre, post, rfl⟩ := List.append_of_mem ha
  rw [List.foldlM_append, bind_eq_ok] at h
  obtain ⟨run₁, hpre, h⟩ := h
  cases pre with
  | nil =>
    -- `a` comes first, and the insertion of the second element compares it with `a`
    cases hpre
    obtain ⟨b, post, rfl⟩ : ∃ b post', post = b :: post' := by
      cases post with
      | nil => simp at hlen
      | cons b post' => exact ⟨b, post', rfl⟩
    obtain ⟨e, he⟩ := (hfail b).2
    have hb : insertTailM isLess b [a] = .error e := by
      rw [insertTailM, he]
      rfl
    rw [List.foldlM_cons, show insertTailM isLess a [] = .ok [a] from rfl, ok_bind,
      List.foldlM_cons, hb, error_bind] at h
    cases h
  | cons p pre =>
    -- `a` comes later, and its insertion compares it with the head of the run before it
    rw [List.foldlM_cons, show insertTailM isLess p [] = .ok [p] from rfl, ok_bind] at hpre
    have hne : run₁ ≠ [] :=
      foldlM_inv (P := fun r : List α => r ≠ []) (fun _ _ _ _ _ hr => insertTailM_ne_nil hr)
        (List.cons_ne_nil p []) hpre
    obtain ⟨y, ys, rfl⟩ := List.exists_cons_of_ne_nil hne
    obtain ⟨e, he⟩ := (hfail y).1
    rw [List.foldlM_cons, insertTailM, he, error_bind, error_bind] at h
    cases h

theorem insertionSortShiftLeftM_eq_error {P : ε → Prop} (hP : ∀ a b e, isLess a b = .error e → P e)
    {v : List α} {e : ε} (h : insertionSortShiftLeftM isLess v = .error e) : P e := by
  have hstep : ∀ (x : α) (run : List α) (e : ε), insertTailM isLess x run = .error e → P e := by
    intro x run
    induction run with
    | nil => intro e h; cases h
    | cons y ys ih =>
      intro e h
      rw [insertTailM] at h
      cases hxy : isLess x y with
      | error e' =>
        rw [hxy, error_bind] at h
        exact Except.error.inj h ▸ hP x y e' hxy
      | ok b =>
        rw [hxy, ok_bind] at h
        cases b with
        | true =>
          rw [if_pos rfl] at h
          cases hrest : insertTailM isLess x ys with
          | error e' =>
            rw [hrest, error_bind] at h
            exact Except.error.inj h ▸ ih e' hrest
          | ok rest =>
            rw [hrest, ok_bind] at h
            cases h
        | false => cases h
  rw [insertionSortShiftLeftM] at h
  cases hfold : v.foldlM (fun run x => insertTailM isLess x run) [] with
  | error e' =>
    rw [hfold] at h
    exact Except.error.inj h ▸ foldlM_eq_error (fun run x e _ hx => hstep x run e hx) hfold
  | ok run =>
    rw [hfold] at h
    cases h

/-- A sort of two or more elements, one of which fails every comparison it takes part in, fails,
and with the comparison's one failure. -/
theorem sortBy_eq_error {cmp : α → α → Except ε Ordering} {e : ε} {a : α} {v : List α}
    (hone : ∀ b c e', cmp b c = .error e' → e' = e)
    (hfail : ∀ b, (∃ e, cmp a b = .error e) ∧ ∃ e, cmp b a = .error e)
    (ha : a ∈ v) (hlen : 2 ≤ v.length) :
    sortBy cmp v = .error e := by
  have hmap : ∀ b c e', (· == .lt) <$> cmp b c = .error e' → cmp b c = .error e' := by
    intro b c e' h
    cases hbc : cmp b c with
    | error e'' =>
      rw [hbc] at h
      cases h
      rfl
    | ok o =>
      rw [hbc] at h
      cases h
  have hfail' : ∀ b, (∃ e, (· == .lt) <$> cmp a b = .error e) ∧
      ∃ e, (· == .lt) <$> cmp b a = .error e := by
    intro b
    obtain ⟨⟨e₁, h₁⟩, ⟨e₂, h₂⟩⟩ := hfail b
    exact ⟨⟨e₁, by rw [h₁]; rfl⟩, ⟨e₂, by rw [h₂]; rfl⟩⟩
  rw [sortBy]
  cases hs : insertionSortShiftLeftM (fun a b => (· == .lt) <$> cmp a b) v with
  | error e' =>
    exact congrArg Except.error
      (insertionSortShiftLeftM_eq_error (fun b c e' h => hone b c e' (hmap b c e' h)) hs)
  | ok r => exact absurd hs (insertionSortShiftLeftM_ne_ok hfail' ha hlen)

end Fallible

end Nydus.Lib
