import Mathlib.Algebra.Group.Int.Defs
import Mathlib.Algebra.Group.Nat.Defs
import Mathlib.Data.Nat.Log

/-! Rounding up to a power of two, in a word of 64 bits. -/

set_option autoImplicit false

namespace Xxlib.Lib

/-- The power of two from `n` on, which is lost if it has 65 bits. -/
def roundUp (n : Nat) : Nat := if 1 <<< n.log2 = n then n else (1 <<< n.log2 <<< 1) % 2 ^ 64

variable {n : Nat}

/-- The result is the least power of two that is not below. -/
theorem roundUp_power (positive : 0 < n) (small : n ≤ 2 ^ 63) :
    ∃ k, roundUp n = 2 ^ k ∧ n ≤ 2 ^ k ∧ ∀ j, n ≤ 2 ^ j → 2 ^ k ≤ 2 ^ j := by
  have low : 2 ^ n.log2 ≤ n := Nat.log2_self_le (by omega)
  have high : n < 2 ^ (n.log2 + 1) := Nat.lt_log2_self
  unfold roundUp
  rw [Nat.one_shiftLeft]
  by_cases power : 2 ^ n.log2 = n
  · rw [if_pos power]
    exact ⟨n.log2, power.symm, power.ge, fun j above => power.trans_le above⟩
  · have twice : 2 ^ n.log2 <<< 1 = 2 ^ (n.log2 + 1) := Nat.shiftLeft_eq _ _
    rw [if_neg power, twice]
    have least : ∀ j, n ≤ 2 ^ j → 2 ^ (n.log2 + 1) ≤ 2 ^ j := by
      intro j above
      have less : 2 ^ n.log2 < 2 ^ j := by omega
      exact Nat.pow_le_pow_right (by decide) ((Nat.pow_lt_pow_iff_right (by decide)).mp less)
    -- a number that is no power of two stays below the last bit
    have fits := least 63 small
    exact ⟨n.log2 + 1, Nat.mod_eq_of_lt (by omega), high.le, least⟩

theorem roundUp_bounds (positive : 0 < n) (small : n ≤ 2 ^ 63) : n ≤ roundUp n ∧ roundUp n ≤ 2 ^ 63 := by
  obtain ⟨k, power, above, least⟩ := roundUp_power positive small
  rw [power]
  exact ⟨above, least 63 small⟩

theorem roundUp_lost (large : 2 ^ 63 < n) (word : n < 2 ^ 64) : roundUp n = 0 := by
  have bits : n.log2 = 63 := (Nat.log2_eq_iff (by omega)).mpr ⟨large.le, word⟩
  unfold roundUp
  rw [bits, if_neg (by omega)]
  decide

theorem roundUp_le (word : n < 2 ^ 64) : roundUp n ≤ 2 ^ 63 := by
  rcases Nat.eq_zero_or_pos n with rfl | positive
  · decide
  · by_cases small : n ≤ 2 ^ 63
    · exact (roundUp_bounds positive small).2
    · rw [roundUp_lost (by omega) word]
      exact Nat.zero_le _

end Xxlib.Lib
