import Mathlib.Logic.Basic
import Mathlib.Data.Option.Basic

/-!
# Machines of the `state_machine!` kind

A machine is a partial transition function and a partial output function over the same states
and inputs. `consume` takes one input: where the machine has a transition it moves and returns
the output of the transition, and elsewhere it refuses the input and stays where it is. A state
with no transition is final: the machine refuses every input there, and never leaves it.
-/

namespace Nydus.Lib

/-- A machine: where it goes on an input, and what it outputs on the way. -/
structure Fsm (σ ι ω : Type) where
  transition : σ → ι → Option σ
  output : σ → ι → Option ω

namespace Fsm

variable {σ ι ω : Type} (m : Fsm σ ι ω)

/-- `StateMachine::consume`: the output of the transition and the state it leads to, or `none`
where the transition is impossible. -/
def consume (s : σ) (i : ι) : Option (Option ω × σ) :=
  (m.transition s i).map fun s' => (m.output s i, s')

/-- A state with no transition. -/
def Final (s : σ) : Prop := ∀ i, m.transition s i = none

variable {m}

theorem consume_eq_some {s s' : σ} {i : ι} {o : Option ω} :
    m.consume s i = some (o, s') ↔ m.transition s i = some s' ∧ m.output s i = o := by
  unfold consume
  cases m.transition s i with
  | none => simp
  | some t => simp [and_comm]

theorem consume_eq_none {s : σ} {i : ι} : m.consume s i = none ↔ m.transition s i = none := by
  simp [consume]

theorem consume_of_final {s : σ} (h : m.Final s) (i : ι) : m.consume s i = none :=
  consume_eq_none.mpr (h i)

end Fsm

end Nydus.Lib
