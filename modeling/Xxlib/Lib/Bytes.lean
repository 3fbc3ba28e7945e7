import Mathlib.Algebra.Group.Int.Defs
import Mathlib.Algebra.Group.Nat.Defs
import Mathlib.Data.List.Basic

/-! Bytes of a buffer, and integers of fixed width, as numbers. -/

set_option autoImplicit false

namespace Xxlib.Lib

/-- The byte at `offset`, for an offset inside the buffer. -/
def byteAt (buf : List UInt8) (offset : Nat) : Nat := (buf.getD offset 0).toNat

section
variable {buf more : List UInt8} {offset : Nat}

theorem byteAt_append (bound : offset < buf.length) : byteAt (buf ++ more) offset = byteAt buf offset := by
  simp [byteAt, List.getD_eq_getElem?_getD, List.getElem?_append_left bound]

theorem byteAt_drop (buf : List UInt8) (offset i : Nat) :
    byteAt (buf.drop offset) i = byteAt buf (offset + i) := by
  simp [byteAt, List.getD_eq_getElem?_getD]

theorem byteAt_of_drop {front : List UInt8} (shape : buf.drop offset = front) (i : Nat) :
    byteAt buf (offset + i) = byteAt front i := by
  rw [← shape, byteAt_drop]

theorem byteAt_cons_of_drop {b : UInt8} {rest : List UInt8} (shape : buf.drop offset = b :: rest) :
    byteAt buf offset = b.toNat :=
  byteAt_of_drop shape 0

theorem byteAt_lt (buf : List UInt8) (offset : Nat) : byteAt buf offset < 256 := UInt8.toNat_lt _

end

/-- A value of type `int`, from what was computed for it. -/
def toInt32 (value : Int) : Int := value.bmod (2 ^ 32)

theorem toInt32_of_lt {value : Int} (nonneg : 0 ≤ value) (small : value < 2 ^ 31) : toInt32 value = value := by
  unfold toInt32
  rw [Int.bmod_eq_emod_of_lt]
  · exact Int.emod_eq_of_lt nonneg (by omega)
  · rw [Int.emod_eq_of_lt nonneg (by omega)]
    omega

end Xxlib.Lib
