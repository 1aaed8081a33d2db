import Mathlib

/-!
# Maximal runs of consecutive numbers

`IsRuns R P`: the pairs `(s, e)` of `R` are, in increasing order, the maximal runs `[s, e]` of
consecutive numbers at which `P` holds. Each run is nonempty, two runs in a row leave at least
one number between them, and `P i` holds exactly when `i` lies in a run. A scan of the numbers
of `P` in increasing order builds the list: a number right after the last run extends it
(`IsRuns.extend`), any later one starts a new run (`IsRuns.push`).
-/

namespace Nydus.Lib

/-- `R` lists, in increasing order, the maximal runs `[s, e]` of consecutive numbers at which
`P` holds. -/
structure IsRuns (R : List (Nat × Nat)) (P : Nat → Prop) : Prop where
  le : ∀ r ∈ R, r.1 ≤ r.2
  gap : R.IsChain fun r r' => r.2 + 1 < r'.1
  mem : ∀ i, P i ↔ ∃ r ∈ R, r.1 ≤ i ∧ i ≤ r.2

namespace IsRuns

theorem nil : IsRuns [] fun _ => False :=
  ⟨by simp, .nil, by simp⟩

theorem single (x : Nat) : IsRuns [(x, x)] fun i => i = x :=
  ⟨by simp, List.isChain_singleton _, fun i => by simp [Nat.le_antisymm_iff, and_comm]⟩

theorem congr {R : List (Nat × Nat)} {P Q : Nat → Prop} (h : IsRuns R P) (hPQ : ∀ i, P i ↔ Q i) :
    IsRuns R Q :=
  ⟨h.le, h.gap, fun i => (hPQ i).symm.trans (h.mem i)⟩

variable {R : List (Nat × Nat)} {s e : Nat} {P : Nat → Prop}

/-- The number right after the last run extends it. -/
theorem extend (h : IsRuns (R ++ [(s, e)]) P) :
    IsRuns (R ++ [(s, e + 1)]) fun i => P i ∨ i = e + 1 := by
  have hse : s ≤ e := h.le (s, e) (by simp)
  refine ⟨fun r hr => ?_, ?_, fun i => ?_⟩
  · rcases List.mem_append.mp hr with hr | hr
    · exact h.le r (List.mem_append_left _ hr)
    · simp only [List.mem_singleton] at hr
      subst hr
      omega
  · have hg := List.isChain_append.mp h.gap
    refine List.isChain_append.mpr ⟨hg.1, List.isChain_singleton _, fun x hx y hy => ?_⟩
    simp only [List.head?_cons, Option.mem_def, Option.some.injEq] at hy
    subst hy
    exact hg.2.2 x hx (s, e) rfl
  · rw [h.mem]
    simp only [List.mem_append, List.mem_singleton]
    constructor
    · rintro (⟨r, hr | rfl, hr1, hr2⟩ | rfl)
      · exact ⟨r, .inl hr, hr1, hr2⟩
      · exact ⟨(s, e + 1), .inr rfl, hr1, by simp at hr2 ⊢; omega⟩
      · exact ⟨(s, e + 1), .inr rfl, by simp; omega, le_refl _⟩
    · rintro ⟨r, hr | rfl, hr1, hr2⟩
      · exact .inl ⟨r, .inl hr, hr1, hr2⟩
      · by_cases hi : i = e + 1
        · exact .inr hi
        · exact .inl ⟨(s, e), .inr rfl, hr1, by simp at hr2 ⊢; omega⟩

/-- A number past the last run and not right after it starts a new run. -/
theorem push {x : Nat} (h : IsRuns (R ++ [(s, e)]) P) (hx : e + 1 < x) :
    IsRuns (R ++ [(s, e), (x, x)]) fun i => P i ∨ i = x := by
  have happ : R ++ [(s, e), (x, x)] = (R ++ [(s, e)]) ++ [(x, x)] := by simp
  rw [happ]
  refine ⟨fun r hr => ?_, ?_, fun i => ?_⟩
  · rcases List.mem_append.mp hr with hr | hr
    · exact h.le r hr
    · simp only [List.mem_singleton] at hr
      subst hr
      exact le_refl _
  · exact List.isChain_append.mpr ⟨h.gap, List.isChain_singleton _,
      fun y hy z hz => by simp at hy hz; subst hy; subst hz; exact hx⟩
  · rw [h.mem]
    simp only [List.mem_append, List.mem_singleton]
    constructor
    · rintro (⟨r, hr, hr1, hr2⟩ | hi)
      · exact ⟨r, .inl hr, hr1, hr2⟩
      · exact ⟨(x, x), .inr rfl, by simp [hi], by simp [hi]⟩
    · rintro ⟨r, hr | rfl, hr1, hr2⟩
      · exact .inl ⟨r, hr, hr1, hr2⟩
      · exact .inr (Nat.le_antisymm hr2 hr1)

end IsRuns

end Nydus.Lib
