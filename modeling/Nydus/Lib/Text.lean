import Mathlib

/-!
# Splitting and trimming text

The `str` operations of a header parser, over lists of any element type:

- `trimMatches p` is `str::trim_matches(p)`: the text without the elements `p` matches at either
  end. A text whose ends `p` does not match is its own trim (`trimMatches_eq_self`).
- `splitnTwo a` is `str::splitn(2, a)`: the text before the first `a` and the text after it
  (`splitnTwo_append`), or the whole text when it holds no `a` (`splitnTwo_of_not_mem`).
- `splitOnPair a b` is `str::split` on the two-element pattern `[a, b]`: the pieces between its
  occurrences, found left to right without overlap. A piece with no `a` in it passes through
  whole (`splitOnPair_append_of_not_mem`) and `[a, b]` ends a piece (`splitOnPair_sep`).

`str::split` on one element is `List.splitOn`; its first piece is the `takeWhile` of the text
(`splitOn_head?`), and a text is its `takeWhile` or is cut at the first element the predicate
refuses (`takeWhile_or_cut`).
-/

namespace Nydus.Lib

variable {α : Type}

/-! ## Trimming -/

/-- `str::trim_matches(p)`: the text without the elements `p` matches at either end. -/
def trimMatches (p : α → Bool) (s : List α) : List α := (s.dropWhile p).rdropWhile p

theorem rdropWhile_cons_of_neg {p : α → Bool} {x : α} (hx : p x = false) (l : List α) :
    (x :: l).rdropWhile p = x :: l.rdropWhile p := by
  induction l using List.reverseRecOn with
  | nil => simp [List.rdropWhile_singleton, hx]
  | append_singleton l y ih =>
    rw [← List.cons_append, List.rdropWhile_concat, List.rdropWhile_concat]
    by_cases hy : p y = true
    · rw [if_pos hy, if_pos hy, ih]
    · rw [if_neg hy, if_neg hy, List.cons_append]

theorem trimMatches_eq_self {p : α → Bool} {s : List α} (hhead : ∀ c ∈ s.head?, p c = false)
    (hlast : ∀ c ∈ s.getLast?, p c = false) : trimMatches p s = s := by
  have hd : s.dropWhile p = s := by
    refine List.dropWhile_eq_self_iff.mpr fun hl => ?_
    cases s with
    | nil => simp at hl
    | cons x s => simpa using hhead x rfl
  rw [trimMatches, hd]
  refine List.rdropWhile_eq_self_iff.mpr fun hl => ?_
  simp [hlast _ (List.getLast?_eq_some_getLast hl)]

theorem trimMatches_cons_of_neg {p : α → Bool} {x : α} (hx : p x = false) (l : List α) :
    trimMatches p (x :: l) = x :: l.rdropWhile p := by
  rw [trimMatches, List.dropWhile_cons_of_neg (by simp [hx]), rdropWhile_cons_of_neg hx]

theorem trimMatches_cons_of_pos {p : α → Bool} {x : α} (hx : p x = true) (l : List α) :
    trimMatches p (x :: l) = trimMatches p l := by
  rw [trimMatches, trimMatches, List.dropWhile_cons_of_pos hx]

theorem trimMatches_concat_of_pos {p : α → Bool} {x : α} (hx : p x = true) (l : List α) :
    trimMatches p (l ++ [x]) = trimMatches p l := by
  rw [trimMatches, trimMatches, List.dropWhile_append]
  by_cases hl : (l.dropWhile p).isEmpty = true
  · -- all of `l` is trimmed from the front, and the `x` after it too
    rw [if_pos hl, List.isEmpty_iff.mp hl, List.dropWhile_cons_of_pos hx]
    rfl
  · rw [if_neg hl, List.rdropWhile_concat_pos _ _ _ hx]

theorem all_intercalate {p : α → Bool} {sep : List α} {xs : List (List α)}
    (hsep : sep.all p = true) (hxs : ∀ x ∈ xs, x.all p = true) :
    (sep.intercalate xs).all p = true := by
  induction xs with
  | nil => rfl
  | cons x xs ih =>
    cases xs with
    | nil => simpa using hxs x List.mem_cons_self
    | cons y ys =>
      rw [List.intercalate_cons_cons, List.all_append, List.all_append, hxs x List.mem_cons_self,
        hsep, ih (fun z hz => hxs z (List.mem_cons_of_mem x hz))]
      rfl

/-- A text is all `takeWhile p`, or cut at the first element `p` refuses. -/
theorem takeWhile_or_cut (p : α → Bool) (l : List α) :
    (∀ c ∈ l, p c = true) ∨ ∃ c r, p c = false ∧ l = l.takeWhile p ++ c :: r := by
  cases h : l.dropWhile p with
  | nil => exact .inl (List.dropWhile_eq_nil_iff.mp h)
  | cons c r =>
    have hc : p c = false := by simpa [h] using List.head_dropWhile_not p (l := l) (by simp [h])
    exact .inr ⟨c, r, hc, by rw [← h, List.takeWhile_append_dropWhile]⟩

/-! ## Splitting at the first occurrence -/

section Split

variable [DecidableEq α]

/-- `str::splitn(2, a)`: the text before the first `a` and the text after it, or the whole text. -/
def splitnTwo (a : α) : List α → List (List α)
  | [] => [[]]
  | x :: s => if x = a then [[], s] else (splitnTwo a s).modifyHead (x :: ·)

theorem splitnTwo_append {a : α} {s : List α} (hs : a ∉ s) (t : List α) :
    splitnTwo a (s ++ a :: t) = [s, t] := by
  induction s with
  | nil => simp [splitnTwo]
  | cons x s ih =>
    have hx : x ≠ a := fun h => hs (h ▸ List.mem_cons_self)
    rw [List.cons_append, splitnTwo, if_neg hx, ih (fun h => hs (List.mem_cons_of_mem x h))]
    rfl

/-! ## Splitting on a two-element pattern -/

/-- `str::split` on the pattern `[a, b]`: the pieces between its occurrences, left to right. -/
def splitOnPair (a b : α) : List α → List (List α)
  | [] => [[]]
  | [x] => [[x]]
  | x :: y :: s =>
    if x = a ∧ y = b then [] :: splitOnPair a b s
    else (splitOnPair a b (y :: s)).modifyHead (x :: ·)

theorem splitOnPair_sep (a b : α) (s : List α) :
    splitOnPair a b (a :: b :: s) = [] :: splitOnPair a b s := by
  simp [splitOnPair]

theorem splitOnPair_cons_of_ne {a b x : α} (hx : x ≠ a) (s : List α) :
    splitOnPair a b (x :: s) = (splitOnPair a b s).modifyHead (x :: ·) := by
  cases s with
  | nil => rfl
  | cons y s' => simp [splitOnPair, hx]

theorem splitOnPair_cons_cons_of_ne {a b x y : α} (hy : y ≠ b) (s : List α) :
    splitOnPair a b (x :: y :: s) = (splitOnPair a b (y :: s)).modifyHead (x :: ·) := by
  simp [splitOnPair, hy]

/-- A piece with no `a` in it is never cut: it goes to the front of the first piece after it. -/
theorem splitOnPair_append_of_not_mem {a b : α} {s : List α} (hs : a ∉ s) (t : List α) :
    splitOnPair a b (s ++ t) = (splitOnPair a b t).modifyHead (s ++ ·) := by
  induction s with
  | nil =>
    rw [List.nil_append]
    cases splitOnPair a b t <;> rfl
  | cons x s ih =>
    have hx : x ≠ a := fun h => hs (h ▸ List.mem_cons_self)
    rw [List.cons_append, splitOnPair_cons_of_ne hx, ih (fun h => hs (List.mem_cons_of_mem x h)),
      List.modifyHead_modifyHead]
    rfl

/-! ## Splitting on one element -/

theorem splitOn_head? (a : α) (l : List α) :
    (l.splitOn a).head? = some (l.takeWhile (· != a)) := by
  induction l with
  | nil => rfl
  | cons x l ih =>
    rw [List.splitOn_cons_eq_if_modifyHead]
    by_cases hx : x = a
    · simp [hx]
    · simp [hx, List.head?_modifyHead, ih]

end Split

end Nydus.Lib
