import Mathlib.Data.List.Basic

/-! Lists that grow at their end, where a place keeps what it has. -/

set_option autoImplicit false

namespace Xxlib.Lib

variable {α : Type} {xs ys more : List α} {last x : α} {i : Nat}

theorem getElem?_of_grown (grown : xs <+: ys) (found : xs[i]? = some x) : ys[i]? = some x := by
  obtain ⟨more, rfl⟩ := grown
  have inside : i < xs.length := (List.getElem?_eq_some_iff.mp found).1
  exact (List.getElem?_append_left inside).trans found

theorem getElem?_append_of_some (found : xs[i]? = some x) : (xs ++ more)[i]? = some x :=
  getElem?_of_grown (List.prefix_append xs more) found

/-- What a list holds after it grew by one was there before, or is the last. -/
theorem getElem?_concat_cases (found : (xs ++ [last])[i]? = some x) : xs[i]? = some x ∨ i = xs.length ∧ x = last := by
  rcases Nat.lt_trichotomy i xs.length with inside | same | beyond
  · rw [List.getElem?_append_left inside] at found
    exact .inl found
  · rw [same, List.getElem?_concat_length] at found
    exact .inr ⟨same, (Option.some.inj found).symm⟩
  · -- the list ends before this place
    rw [List.getElem?_eq_none] at found
    · cases found
    · rw [List.length_append, List.length_singleton]
      exact beyond

end Xxlib.Lib
