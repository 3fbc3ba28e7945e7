import Mathlib.Init

/-! What the hash containers of `test_uv_4` are given from outside: the hash and
equality functions of a key type, and the table sizes `GetPrime` answers with.
-/

set_option autoImplicit false

namespace Xxlib.Uv4

/-- `HashFunc<TK>::GetHashCode` and `EqualsFunc<TK>::EqualsTo` of a key type, with equality an
equivalence that the hash respects. -/
structure KeyFuncs (K : Type) where
  getHashCode : K → UInt32
  equalsTo : K → K → Bool
  equals_refl : ∀ a, equalsTo a a = true
  equals_symm : ∀ {a b}, equalsTo a b = true → equalsTo b a = true
  equals_trans : ∀ {a b c}, equalsTo a b = true → equalsTo b c = true → equalsTo a c = true
  hash_respects : ∀ {a b}, equalsTo a b = true → getHashCode a = getHashCode b

/-- `GetPrime` at the element size of one container, with the `capacity` its constructor is called
with: the first table is not empty and a table that is full gets a larger one. -/
structure Sizing where
  capacity : Nat
  getPrime : Nat → Nat
  positive : 0 < getPrime capacity
  grows : ∀ {count}, 0 < count → count < getPrime (count * 2)

/-- Integers of four bytes, which are hashed to themselves. -/
def KeyFuncs.word : KeyFuncs UInt32 where
  getHashCode k := k
  equalsTo a b := a == b
  equals_refl := by simp
  equals_symm := by
    intro a b same
    simp only [beq_iff_eq] at same ⊢
    exact same.symm
  equals_trans := by simp +contextual
  hash_respects := by simp

/-- `Guid`, as the four words that its hash function reads. Having a constructor of its own, it is not
a trivial type. -/
structure Guid where
  word0 : UInt32
  word1 : UInt32
  word2 : UInt32
  word3 : UInt32
  deriving DecidableEq

def KeyFuncs.guid : KeyFuncs Guid where
  getHashCode g := g.word0 ^^^ g.word1 ^^^ g.word2 ^^^ g.word3
  equalsTo a b := decide (a = b)
  equals_refl := by simp
  equals_symm := by
    intro a b same
    simp only [decide_eq_true_eq] at same ⊢
    exact same.symm
  equals_trans := by simp +contextual
  hash_respects := by simp +contextual

end Xxlib.Uv4
