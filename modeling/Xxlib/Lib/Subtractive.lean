import Mathlib.Data.Int.ModEq
import Mathlib.Data.Nat.Fib.Basic
import Mathlib.Tactic.NormNum
import Mathlib.Tactic.Ring

/-! Differences that are brought back below a modulus, and the sequence they make. -/

set_option autoImplicit false

namespace Xxlib.Lib.Subtractive

/-- A negative number gets the modulus once. -/
def reduce (p v : Int) : Int := if v < 0 then v + p else v

/-- Each term is the difference of the two before it. -/
def term (p m : Int) : Nat → Int
  | 0 => m
  | 1 => 1
  | n + 2 => reduce p (term p m n - term p m (n + 1))

variable {p m v : Int}

theorem reduce_cases (p v : Int) : (v < 0 ∧ reduce p v = v + p) ∨ (0 ≤ v ∧ reduce p v = v) := by
  unfold reduce
  split
  · exact .inl ⟨‹_›, rfl⟩
  · exact .inr ⟨Int.not_lt.mp ‹_›, rfl⟩

theorem reduce_range (low : -p ≤ v) (high : v < p) : 0 ≤ reduce p v ∧ reduce p v < p := by
  rcases reduce_cases p v with ⟨negative, eq⟩ | ⟨positive, eq⟩ <;> omega

theorem reduce_modEq (p v : Int) : reduce p v ≡ v [ZMOD p] := by
  rcases reduce_cases p v with ⟨-, eq⟩ | ⟨-, eq⟩
  · rw [eq]
    exact Int.add_modEq_right
  · rw [eq]

theorem term_range (low : -p < m) (high : m ≤ p) (large : 1 < p) (n : Nat) :
    (0 ≤ term p m (n + 1) ∧ term p m (n + 1) < p) ∧ 0 ≤ term p m (n + 2) ∧ term p m (n + 2) < p := by
  induction n with
  | zero => exact ⟨⟨Int.zero_le_ofNat 1, large⟩, reduce_range (show -p ≤ m - 1 by omega) (show m - 1 < p by omega)⟩
  | succ n ih =>
    obtain ⟨first, second⟩ := ih
    exact ⟨second, @reduce_range p (term p m (n + 1) - term p m (n + 2)) (by omega) (by omega)⟩

/-- The terms are Fibonacci numbers. -/
theorem term_fib (p m : Int) (n : Nat) :
    term p m (n + 1) ≡ (-1) ^ n * (Nat.fib (n + 1) - Nat.fib n * m) [ZMOD p] ∧
      term p m (n + 2) ≡ (-1) ^ (n + 1) * (Nat.fib (n + 2) - Nat.fib (n + 1) * m) [ZMOD p] := by
  induction n with
  | zero =>
    refine ⟨by simp [term], (reduce_modEq p _).trans ?_⟩
    simp [term]
  | succ n ih =>
    obtain ⟨first, second⟩ := ih
    refine ⟨second, (reduce_modEq p _).trans ((first.sub second).trans ?_)⟩
    rw [Nat.fib_add_two (n := n + 1), Nat.fib_add_two (n := n)]
    push_cast
    ring_nf
    rfl

end Xxlib.Lib.Subtractive
