import Mathlib.Data.Fintype.EquivFin
import Mathlib.Data.BitVec

/-! Signed integers as unsigned ones, small absolute values first. -/

set_option autoImplicit false

namespace Xxlib.Lib

variable {w : Nat}

def zigZagEncode (x : BitVec w) : BitVec w := (x <<< 1) ^^^ (x.sshiftRight (w - 1))

def zigZagDecode (x : BitVec w) : BitVec w := (x >>> 1) ^^^ (-(x &&& 1#w))

/-- All bits of the shifted word are the sign. -/
theorem getLsbD_sign {x : BitVec w} {i : Nat} (inside : i < w) : (x.sshiftRight (w - 1)).getLsbD i = x.msb := by
  rw [BitVec.getLsbD_sshiftRight]
  by_cases first : i = 0
  · subst first
    rw [Nat.add_zero]
    rw [BitVec.msb_eq_getLsbD_last]
    have below : w - 1 < w := by omega
    simp [below]
    omega
  · have beyond : ¬ w - 1 + i < w := by omega
    simp [beyond]
    omega

theorem getLsbD_encode {x : BitVec w} {i : Nat} (inside : i < w) :
    (zigZagEncode x).getLsbD i = ((decide (0 < i) && x.getLsbD (i - 1)) ^^ x.msb) := by
  unfold zigZagEncode
  rw [BitVec.getLsbD_xor, getLsbD_sign inside, BitVec.getLsbD_shiftLeft]
  by_cases first : i = 0
  · simp [first]
  · have some : 0 < i := Nat.pos_of_ne_zero first
    have late : ¬ i < 1 := by omega
    simp [inside, some, late]

/-- The lowest bit, in all places. -/
theorem getLsbD_spread {x : BitVec w} {i : Nat} (inside : i < w) : (-(x &&& 1#w)).getLsbD i = x.getLsbD 0 := by
  have cases' : x &&& 1#w = if x.getLsbD 0 then 1#w else 0#w := by
    apply BitVec.eq_of_getLsbD_eq
    intro j bound
    rw [BitVec.getLsbD_and, BitVec.getLsbD_one]
    by_cases first : j = 0
    · subst first
      cases x.getLsbD 0 <;> simp [bound]
    · cases x.getLsbD 0 <;> simp [first, bound]
  rw [cases']
  cases x.getLsbD 0 with
  | false => simp
  | true => simp [BitVec.neg_one_eq_allOnes, inside]

theorem zigZagDecode_zigZagEncode (x : BitVec w) : zigZagDecode (zigZagEncode x) = x := by
  apply BitVec.eq_of_getLsbD_eq
  intro i inside
  have lowest : (zigZagEncode x).getLsbD 0 = x.msb := by
    rw [getLsbD_encode (by omega)]
    simp
  unfold zigZagDecode
  rw [BitVec.getLsbD_xor, getLsbD_spread inside, lowest, BitVec.getLsbD_ushiftRight]
  by_cases last : 1 + i < w
  · rw [getLsbD_encode last]
    have some : 0 < 1 + i := by omega
    simp [some]
  · -- the highest bit is the sign
    rw [BitVec.getLsbD_of_ge _ _ (Nat.not_lt.mp last), BitVec.msb_eq_getLsbD_last]
    have same : w - 1 = i := by omega
    simp [same]

theorem zigZagEncode_injective : Function.Injective (zigZagEncode (w := w)) :=
  Function.LeftInverse.injective zigZagDecode_zigZagEncode

theorem zigZagEncode_zigZagDecode (x : BitVec w) : zigZagEncode (zigZagDecode x) = x := by
  have finite : Finite (BitVec w) := .of_equiv _ BitVec.equivFin.symm.toEquiv
  obtain ⟨y, rfl⟩ := Finite.surjective_of_injective zigZagEncode_injective x
  rw [zigZagDecode_zigZagEncode]

/-- Integers from zero on have the even numbers, the others the odd ones. -/
theorem zigZagEncode_toNat (some : 0 < w) (x : BitVec w) :
    ((zigZagEncode x).toNat : Int) = if 0 ≤ x.toInt then 2 * x.toInt else -2 * x.toInt - 1 := by
  have bound := x.isLt
  have half : 2 ^ w = 2 * 2 ^ (w - 1) := by
    obtain ⟨v, rfl⟩ : ∃ v, w = v + 1 := ⟨w - 1, by omega⟩
    exact Nat.pow_succ'
  have sign : x.sshiftRight (w - 1) = if x.msb then BitVec.allOnes w else 0#w := by
    apply BitVec.eq_of_getLsbD_eq
    intro i inside
    rw [getLsbD_sign inside]
    cases x.msb <;> simp [inside]
  have msb := BitVec.msb_eq_decide x
  unfold zigZagEncode
  rw [sign, BitVec.toInt_eq_msb_cond]
  cases negative : x.msb with
  | false =>
    rw [negative] at msb
    have small : x.toNat < 2 ^ (w - 1) := by simpa using msb.symm
    have value : ((x <<< 1) ^^^ 0#w).toNat = 2 * x.toNat := by
      rw [BitVec.xor_zero, BitVec.toNat_shiftLeft, Nat.shiftLeft_eq, Nat.mod_eq_of_lt (by omega)]
      omega
    simp only [Bool.false_eq_true, if_false, value]
    rw [if_pos (by omega)]
    omega
  | true =>
    rw [negative] at msb
    have large : 2 ^ (w - 1) ≤ x.toNat := by simpa using msb.symm
    have value : ((x <<< 1) ^^^ BitVec.allOnes w).toNat = 2 * (2 ^ w - x.toNat) - 1 := by
      rw [BitVec.xor_allOnes, BitVec.toNat_not, BitVec.toNat_shiftLeft, Nat.shiftLeft_eq,
        Nat.mod_eq_sub_mod (by omega), Nat.mod_eq_of_lt (by omega)]
      omega
    simp only [if_true, value]
    generalize 2 ^ w = whole at *
    rw [if_neg (by omega)]
    omega

/-- The integer that a number stands for. -/
def zigZagInt (n : Nat) : Int := if n % 2 = 0 then (n / 2 : Nat) else -(n / 2 : Nat) - 1

theorem zigZagDecode_toInt (some : 0 < w) (x : BitVec w) : (zigZagDecode x).toInt = zigZagInt x.toNat := by
  have back := zigZagEncode_toNat some (zigZagDecode x)
  rw [zigZagEncode_zigZagDecode] at back
  unfold zigZagInt
  split at back <;> split <;> omega

end Xxlib.Lib
