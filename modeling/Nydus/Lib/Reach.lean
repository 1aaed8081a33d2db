import Mathlib.Logic.Relation

/-!
# Reachable states of a transition system

A system is its initial states `init` and its step relation `step`; `Reachable init step s`
says that `s` is reached from an initial state in zero or more steps (Mathlib's
`Relation.ReflTransGen`). A safety property is proved once by the invariant rule
`Reachable.inv`: it holds initially and every step keeps it.
-/

namespace Nydus.Lib

variable {σ : Type} {init : σ → Prop} {step : σ → σ → Prop}

/-- `s` is reached from an initial state. -/
def Reachable (init : σ → Prop) (step : σ → σ → Prop) (s : σ) : Prop :=
  ∃ s₀, init s₀ ∧ Relation.ReflTransGen step s₀ s

theorem Reachable.of_init {s : σ} (h : init s) : Reachable init step s := ⟨s, h, .refl⟩

theorem Reachable.tail {s s' : σ} (h : Reachable init step s) (hs : step s s') :
    Reachable init step s' := by
  obtain ⟨s₀, h₀, hr⟩ := h
  exact ⟨s₀, h₀, hr.tail hs⟩

/-- **Invariant rule.** What holds initially and every step keeps holds of every reachable
state. -/
theorem Reachable.inv {P : σ → Prop} (hinit : ∀ s, init s → P s)
    (hstep : ∀ s s', P s → step s s' → P s') {s : σ} (h : Reachable init step s) : P s := by
  obtain ⟨s₀, h₀, hr⟩ := h
  induction hr with
  | refl => exact hinit _ h₀
  | tail _ hs ih => exact hstep _ _ ih hs

end Nydus.Lib
