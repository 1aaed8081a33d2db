import Mathlib

/-!
# Positions in a list of segments

A list of buffers read as one: with segment lengths `lens`, a flat offset `p` into the
concatenation names the position `positionOf lens p`, a segment index and an offset inside
that segment; an offset at a segment's end is the start of the next one, and the end of the
whole list is `(lens.length, 0)`. `flatPos lens i o` goes back from a position to the flat
offset. `overwrite l p d` is `l` with `d` written over it from `p` on.

The lemmas: a position inside the list goes to its flat offset and back (`positionOf_flatPos`,
`flatPos_positionOf`), advancing inside a segment or to its end (`positionOf_advance`), writing
into one segment writes into the concatenation (`flatten_set_overwrite`), and two adjacent
writes are one (`overwrite_append`).
-/

namespace Nydus.Lib

/-! ## Flat offsets and positions -/

/-- The flat offset of offset `o` in segment `i`. -/
def flatPos (lens : List Nat) (i o : Nat) : Nat := (lens.take i).sum + o

/-- The position of flat offset `p`, with its offset inside the segment. -/
def positionOf : List Nat → Nat → Nat × Nat
  | [], p => (0, p)
  | l :: ls, p =>
    if p < l then (0, p) else ((positionOf ls (p - l)).1 + 1, (positionOf ls (p - l)).2)

@[simp] theorem flatPos_zero_left (lens : List Nat) (o : Nat) : flatPos lens 0 o = o := by
  simp [flatPos]

theorem flatPos_cons_succ (l : Nat) (ls : List Nat) (i o : Nat) :
    flatPos (l :: ls) (i + 1) o = l + flatPos ls i o := by
  simp only [flatPos, List.take_succ_cons, List.sum_cons]
  omega

theorem positionOf_sum : ∀ lens : List Nat, positionOf lens lens.sum = (lens.length, 0)
  | [] => rfl
  | l :: ls => by
    rw [positionOf, if_neg (by simp), List.sum_cons, Nat.add_sub_cancel_left, positionOf_sum ls]
    rfl

/-- A flat offset inside the list names a position inside one of its segments, and that
position's flat offset is the one it came from. -/
theorem flatPos_positionOf : ∀ {lens : List Nat} {p : Nat}, p < lens.sum →
    ∃ h : (positionOf lens p).1 < lens.length,
      (positionOf lens p).2 < lens[(positionOf lens p).1] ∧
      flatPos lens (positionOf lens p).1 (positionOf lens p).2 = p
  | [], p, hp => by simp at hp
  | l :: ls, p, hp => by
    rw [List.sum_cons] at hp
    by_cases hpl : p < l
    · simp only [positionOf, if_pos hpl]
      exact ⟨by simp, by simpa using hpl, by simp⟩
    · have hrest : p - l < ls.sum := by omega
      obtain ⟨hi, ho, hflat⟩ := flatPos_positionOf hrest
      simp only [positionOf, if_neg hpl]
      refine ⟨by simpa using hi, by simpa using ho, ?_⟩
      rw [flatPos_cons_succ, hflat]
      omega

/-- A position inside a segment of a list of non-empty segments is the position of its flat
offset. -/
theorem positionOf_flatPos : ∀ {lens : List Nat} {i o : Nat}, (∀ l ∈ lens, 0 < l) →
    (hi : i < lens.length) → o < lens[i] → positionOf lens (flatPos lens i o) = (i, o)
  | [], _, _, _, hi, _ => by simp at hi
  | l :: ls, 0, o, _, _, ho => by
    simp only [flatPos_zero_left, positionOf, if_pos (show o < l by simpa using ho)]
  | l :: ls, i + 1, o, hpos, hi, ho => by
    have hl : 0 < l := hpos l List.mem_cons_self
    have hrest : ∀ l' ∈ ls, 0 < l' := fun l' h' => hpos l' (List.mem_cons_of_mem _ h')
    have ih := positionOf_flatPos (i := i) (o := o) hrest (by simpa using hi) (by simpa using ho)
    rw [flatPos_cons_succ, positionOf, if_neg (by omega), Nat.add_sub_cancel_left, ih]

theorem flatPos_succ_zero {lens : List Nat} {i o : Nat} (hi : i < lens.length)
    (ho : o ≤ lens[i]) : flatPos lens (i + 1) 0 = flatPos lens i o + (lens[i] - o) := by
  simp only [flatPos, List.sum_take_succ _ _ hi]
  omega

theorem flatPos_le_sum {lens : List Nat} {i o : Nat} (hi : i < lens.length) (ho : o ≤ lens[i]) :
    flatPos lens i o ≤ lens.sum := by
  have hsplit := List.sum_take_add_sum_drop lens (i + 1)
  have hstart := flatPos_succ_zero hi ho
  rw [flatPos, Nat.add_zero] at hstart
  omega

/-- Advancing `w` from offset `o` of segment `i` of a list of non-empty segments, at most to
the segment's end: the next offset inside it, or the start of the next segment, or the end
of the list. -/
theorem positionOf_advance {lens : List Nat} {i o w : Nat} (hpos : ∀ l ∈ lens, 0 < l)
    (hi : i < lens.length) (ho : o < lens[i]) (hw : w ≤ lens[i] - o) :
    positionOf lens (flatPos lens i o + w) =
      if lens[i] - o = w then (i + 1, 0) else (i, o + w) := by
  split_ifs with hend
  · have hstart : flatPos lens i o + w = flatPos lens (i + 1) 0 := by
      rw [flatPos_succ_zero hi (Nat.le_of_lt ho), hend]
    rw [hstart]
    by_cases hlast : i + 1 < lens.length
    · exact positionOf_flatPos hpos hlast (hpos _ (List.getElem_mem hlast))
    · have hlen : i + 1 = lens.length := by omega
      rw [flatPos, hlen, List.take_length, Nat.add_zero, positionOf_sum]
  · have hflat : flatPos lens i o + w = flatPos lens i (o + w) := by
      simp only [flatPos]
      omega
    rw [hflat, positionOf_flatPos hpos hi (by omega)]

/-! ## Writing over a list -/

section Overwrite

variable {α : Type}

/-- `l` with `d` written over it from offset `p` on. -/
def overwrite (l : List α) (p : Nat) (d : List α) : List α :=
  l.take p ++ d ++ l.drop (p + d.length)

@[simp] theorem overwrite_nil (l : List α) (p : Nat) : overwrite l p [] = l := by
  simp [overwrite]

theorem length_overwrite {l d : List α} {p : Nat} (h : p + d.length ≤ l.length) :
    (overwrite l p d).length = l.length := by
  simp only [overwrite, List.length_append, List.length_take, List.length_drop]
  omega

theorem getElem?_overwrite_of_not_mem {l d : List α} {p x : Nat} (h : p + d.length ≤ l.length)
    (hx : x < p ∨ p + d.length ≤ x) : (overwrite l p d)[x]? = l[x]? := by
  have hfront : (l.take p ++ d).length = p + d.length := by
    rw [List.length_append, List.length_take]
    omega
  unfold overwrite
  rcases hx with hx | hx
  · rw [List.getElem?_append_left (by omega), List.getElem?_append_left (by simp; omega),
      List.getElem?_take_of_lt hx]
  · rw [List.getElem?_append_right (by omega), hfront, List.getElem?_drop,
      Nat.add_sub_cancel' hx]

/-- Writing `d₁` and then `d₂` right after it is writing `d₁ ++ d₂`. -/
theorem overwrite_append {l d₁ d₂ : List α} {p : Nat} (h : p ≤ l.length) :
    overwrite (overwrite l p d₁) (p + d₁.length) d₂ = overwrite l p (d₁ ++ d₂) := by
  have hlen : (l.take p ++ d₁).length = p + d₁.length := by
    rw [List.length_append, List.length_take, Nat.min_eq_left h]
  have hdrop : (l.drop (p + d₁.length)).drop d₂.length = l.drop (p + (d₁ ++ d₂).length) := by
    rw [List.drop_drop, List.length_append, Nat.add_assoc]
  unfold overwrite
  rw [← hlen, List.take_left' rfl, List.drop_length_add_append, hlen, hdrop]
  simp only [List.append_assoc]

theorem overwrite_append_left {a b c d : List α} {o : Nat} (h : o + d.length ≤ b.length) :
    overwrite (a ++ b ++ c) (a.length + o) d = a ++ overwrite b o d ++ c := by
  have htake : (a ++ (b ++ c)).take (a.length + o) = a ++ b.take o := by
    rw [List.take_length_add_append, List.take_append_of_le_length (by omega)]
  have hdrop : (a ++ (b ++ c)).drop (a.length + o + d.length) = b.drop (o + d.length) ++ c := by
    rw [Nat.add_assoc, List.drop_length_add_append, List.drop_append_of_le_length h]
  simp only [overwrite, List.append_assoc] at htake hdrop ⊢
  rw [htake, hdrop]
  simp only [List.append_assoc]

/-- A write inside segment `i` is a write into the concatenation at the segment's flat
offset. -/
theorem flatten_set_overwrite {dst : List (List α)} {i o : Nat} {d : List α}
    (hi : i < dst.length) (hfit : o + d.length ≤ dst[i].length) :
    (dst.set i (overwrite dst[i] o d)).flatten =
      overwrite dst.flatten (flatPos (dst.map List.length) i o) d := by
  have hflat : dst.flatten = (dst.take i).flatten ++ dst[i] ++ (dst.drop (i + 1)).flatten := by
    conv_lhs => rw [← List.take_append_drop i dst, List.drop_eq_getElem_cons hi]
    rw [List.flatten_append, List.flatten_cons, List.append_assoc]
  have hpos : flatPos (dst.map List.length) i o = (dst.take i).flatten.length + o := by
    rw [flatPos, List.length_flatten, List.map_take]
  rw [List.set_eq_take_append_cons_drop, if_pos hi, hpos, hflat, overwrite_append_left hfit,
    List.flatten_append, List.flatten_cons, List.append_assoc]

theorem map_length_set_overwrite {dst : List (List α)} {i o : Nat} {d : List α}
    (hi : i < dst.length) (hfit : o + d.length ≤ dst[i].length) :
    (dst.set i (overwrite dst[i] o d)).map List.length = dst.map List.length := by
  have hi' : i < (dst.map List.length).length := by rw [List.length_map]; exact hi
  rw [List.map_set, length_overwrite hfit, ← List.getElem_map List.length,
    List.set_getElem_self hi']
  exact hi'

end Overwrite

end Nydus.Lib
