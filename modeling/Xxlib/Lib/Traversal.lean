import Mathlib.Data.Finset.Card
import Mathlib.Data.Finset.Range
import Mathlib.Logic.Function.Basic
import Xxlib.Lib.Codec

/-! Traversals that visit each object of a graph once.

The nesting of such a traversal is bounded by the number of objects that it has not met.
-/

set_option autoImplicit false

namespace Xxlib.Lib

variable {S ε α β : Type}

/-- `run` returns to a valid state, if no more than `depth` objects have not been met. -/
def Completes (Valid : S → Prop) (unmet : S → Nat) (depth : Nat) (run : EStateM ε S α) : Prop :=
  ∀ s, Valid s → unmet s ≤ depth → ∃ x s', run s = .ok x s' ∧ Valid s' ∧ unmet s' ≤ unmet s

namespace Completes

variable {Valid : S → Prop} {unmet : S → Nat} {depth : Nat}

theorem bind {run : EStateM ε S α} {next : α → EStateM ε S β} (first : Completes Valid unmet depth run)
    (second : ∀ x, Completes Valid unmet depth (next x)) : Completes Valid unmet depth (run >>= next) := by
  intro s valid few
  obtain ⟨x, s₁, ran₁, valid₁, less₁⟩ := first s valid few
  obtain ⟨y, s₂, ran₂, valid₂, less₂⟩ := second x s₁ valid₁ (Nat.le_trans less₁ few)
  exact ⟨y, s₂, bind_run ran₁ ran₂, valid₂, Nat.le_trans less₂ less₁⟩

theorem forM {write : α → EStateM ε S Unit} {items : List α}
    (each : ∀ x ∈ items, Completes Valid unmet depth (write x)) : Completes Valid unmet depth (items.forM write) := by
  induction items with
  | nil => exact fun s valid _ => ⟨_, s, rfl, valid, Nat.le_refl _⟩
  | cons x items ih =>
    apply Completes.bind (each x List.mem_cons_self)
    exact fun _ => ih fun other member => each other (List.mem_cons_of_mem x member)

end Completes

/-- How many of the first `size` objects have not been met. -/
def unmetCount (size : Nat) (met : Nat → Option Nat) : Nat := ((Finset.range size).filter fun a => met a = none).card

theorem unmetCount_le (size : Nat) (met : Nat → Option Nat) : unmetCount size met ≤ size := by
  have few := Finset.card_filter_le (Finset.range size) fun a => met a = none
  rwa [Finset.card_range] at few

/-- An object that is met is not unmet any more. -/
theorem unmetCount_update_lt {size a : Nat} {met : Nat → Option Nat} (inside : a < size) (unknown : met a = none)
    (offset : Nat) : unmetCount size (Function.update met a (some offset)) < unmetCount size met := by
  have keeps : ∀ {b}, Function.update met a (some offset) b = none → b ≠ a ∧ met b = none := by
    intro b nothing
    by_cases same : b = a
    · rw [same, Function.update_self] at nothing
      cases nothing
    · rw [Function.update_of_ne same] at nothing
      exact ⟨same, nothing⟩
  apply Finset.card_lt_card
  rw [Finset.ssubset_iff_of_subset]
  · refine ⟨a, Finset.mem_filter.mpr ⟨Finset.mem_range.mpr inside, unknown⟩, fun member => ?_⟩
    exact (keeps (Finset.mem_filter.mp member).2).1 rfl
  · intro b member
    exact Finset.mem_filter.mpr ⟨(Finset.mem_filter.mp member).1, (keeps (Finset.mem_filter.mp member).2).2⟩

end Xxlib.Lib
