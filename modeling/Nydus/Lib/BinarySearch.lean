import Mathlib

/-!
# Binary search with signed bounds

The loop `while first <= last { pivot = first + ((last - first) >> 1); ... }` over `i64` bounds.
A classifier tells, for each position, whether the target is there (`eq`), after it (`lt`) or
before it (`gt`). `binarySearch` returns the first position found whose class is `eq`.

A position it returns is in the range and is classified `eq` (`binarySearch_sound`). This needs
no hypothesis on the classifier. When the classifier points towards some position `t` of the
range from every position of the range, the search finds a position (`binarySearch_complete`).
It cannot point away from `t` at `t` itself, so `t` is classified `eq`.
-/

namespace Nydus.Lib

theorem pivot_mem {first last : Int} (h : first ≤ last) :
    first ≤ first + ((last - first) >>> (1 : Nat)) ∧ first + ((last - first) >>> (1 : Nat)) ≤ last := by
  rw [Int.shiftRight_eq_div_pow]
  omega

/-- The loop of a binary search over the positions `first..=last`. -/
def binarySearch (classify : Int → Ordering) (first last : Int) : Option Int :=
  if first ≤ last then
    let pivot := first + ((last - first) >>> (1 : Nat))
    match classify pivot with
    | .eq => some pivot
    | .lt => binarySearch classify (pivot + 1) last
    | .gt => binarySearch classify first (pivot - 1)
  else none
termination_by (last + 1 - first).toNat
decreasing_by
  all_goals
    have := pivot_mem ‹first ≤ last›
    omega

variable {classify : Int → Ordering} {first last : Int}

/-! One lemma for each way through the loop. -/

theorem binarySearch_found (h : first ≤ last)
    (hc : classify (first + ((last - first) >>> (1 : Nat))) = .eq) :
    binarySearch classify first last = some (first + ((last - first) >>> (1 : Nat))) := by
  rw [binarySearch, if_pos h]
  simp only [hc]

theorem binarySearch_right (h : first ≤ last)
    (hc : classify (first + ((last - first) >>> (1 : Nat))) = .lt) :
    binarySearch classify first last =
      binarySearch classify (first + ((last - first) >>> (1 : Nat)) + 1) last := by
  rw [binarySearch, if_pos h]
  simp only [hc]

theorem binarySearch_left (h : first ≤ last)
    (hc : classify (first + ((last - first) >>> (1 : Nat))) = .gt) :
    binarySearch classify first last =
      binarySearch classify first (first + ((last - first) >>> (1 : Nat)) - 1) := by
  rw [binarySearch, if_pos h]
  simp only [hc]

theorem binarySearch_empty (h : ¬first ≤ last) : binarySearch classify first last = none := by
  rw [binarySearch, if_neg h]

/-- **Soundness.** A position the search returns is in the range and holds the target. -/
theorem binarySearch_sound {p : Int} (h : binarySearch classify first last = some p) :
    classify p = .eq ∧ first ≤ p ∧ p ≤ last := by
  fun_induction binarySearch classify first last with
  | case1 first last hle pivot heq =>
    rw [← Option.some.inj h]
    exact ⟨heq, pivot_mem hle⟩
  | case2 first last hle pivot hlt ih =>
    obtain ⟨hp, h1, h2⟩ := ih h
    have := pivot_mem hle
    exact ⟨hp, by omega, h2⟩
  | case3 first last hle pivot hgt ih =>
    obtain ⟨hp, h1, h2⟩ := ih h
    have := pivot_mem hle
    exact ⟨hp, h1, by omega⟩
  | case4 => cases h

/-- **Completeness.** When every position of the range points towards a position `t` of the
range, the search finds a position. -/
theorem binarySearch_complete {t : Int} (hft : first ≤ t) (htl : t ≤ last)
    (hdir : ∀ i, first ≤ i → i ≤ last → (classify i = .lt → i < t) ∧ (classify i = .gt → t < i)) :
    (binarySearch classify first last).isSome := by
  fun_induction binarySearch classify first last with
  | case1 => rfl
  | case2 first last hle pivot hlt ih =>
    -- the target lies after the pivot
    have hpiv := pivot_mem hle
    have hpt := (hdir pivot hpiv.1 hpiv.2).1 hlt
    exact ih (by omega) htl fun i hi hi' => hdir i (by omega) hi'
  | case3 first last hle pivot hgt ih =>
    -- the target lies before the pivot
    have hpiv := pivot_mem hle
    have htp := (hdir pivot hpiv.1 hpiv.2).2 hgt
    exact ih hft (by omega) fun i hi hi' => hdir i hi (by omega)
  | case4 first last hgt => omega

end Nydus.Lib
