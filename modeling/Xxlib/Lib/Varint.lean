import Mathlib.Algebra.Group.Int.Defs
import Mathlib.Algebra.Group.Nat.Defs
import Mathlib.Data.Nat.Basic

/-! Numbers in groups of seven bits, the low group first, with the eighth bit of a byte
telling that another group follows.
-/

set_option autoImplicit false

namespace Xxlib.Lib.Varint

/-- The bytes of `n`, of which there are at most `size`. -/
def encode : Nat → Nat → List UInt8
  | 0, _ => []
  | size + 1, n =>
      if n < 128 then [UInt8.ofNat n] else UInt8.ofNat (n % 128 + 128) :: encode size (n / 128)

theorem encode_last {n : Nat} (small : n < 128) (size : Nat) : encode (size + 1) n = [UInt8.ofNat n] := by
  simp [encode, small]

theorem encode_more {n : Nat} (large : ¬ n < 128) (size : Nat) :
    encode (size + 1) n = UInt8.ofNat (n % 128 + 128) :: encode size (n / 128) := by
  simp [encode, large]

theorem encode_length_pos (size n : Nat) : 0 < (encode (size + 1) n).length := by
  unfold encode
  split <;> exact Nat.succ_pos _

theorem encode_length_le (size n : Nat) : (encode size n).length ≤ size := by
  induction size generalizing n with
  | zero => exact Nat.le_refl 0
  | succ size ih =>
    unfold encode
    split
    · exact Nat.succ_le_succ (Nat.zero_le size)
    · exact Nat.succ_le_succ (ih (n / 128))

/-- After `size` groups of seven bits, the rest of `n` is one byte. -/
def encodeFull : Nat → Nat → List UInt8
  | 0, n => [UInt8.ofNat n]
  | size + 1, n =>
      if n < 128 then [UInt8.ofNat n] else UInt8.ofNat (n % 128 + 128) :: encodeFull size (n / 128)

theorem encodeFull_last {n : Nat} (small : n < 128) (size : Nat) : encodeFull size n = [UInt8.ofNat n] := by
  cases size with
  | zero => rfl
  | succ size => exact if_pos small

theorem encodeFull_more {n : Nat} (large : ¬ n < 128) (size : Nat) :
    encodeFull (size + 1) n = UInt8.ofNat (n % 128 + 128) :: encodeFull size (n / 128) :=
  if_neg large

theorem encodeFull_length_pos (size n : Nat) : 0 < (encodeFull size n).length := by
  cases size with
  | zero => exact Nat.one_pos
  | succ size =>
    unfold encodeFull
    split <;> exact Nat.succ_pos _

theorem encodeFull_length_le_size (size n : Nat) : (encodeFull size n).length ≤ size + 1 := by
  induction size generalizing n with
  | zero => exact Nat.le_refl 1
  | succ size ih =>
    unfold encodeFull
    split
    · exact Nat.succ_le_succ (Nat.zero_le _)
    · exact Nat.succ_le_succ (ih (n / 128))

/-- The groups are enough for the number if it has no bits beyond them. -/
theorem encodeFull_length_le {groups n : Nat} (some : 0 < groups) (few : n < 2 ^ (7 * groups)) (size : Nat) :
    (encodeFull size n).length ≤ groups := by
  induction size generalizing groups n with
  | zero => exact some
  | succ size ih =>
    by_cases small : n < 128
    · rw [encodeFull_last small]
      exact some
    · obtain ⟨groups, rfl⟩ := Nat.exists_eq_succ_of_ne_zero (Nat.ne_of_gt some)
      have whole : 2 ^ (7 * (groups + 1)) = 2 ^ (7 * groups) * 128 := by rw [Nat.mul_succ, Nat.pow_add]
      have fewer : n / 128 < 2 ^ (7 * groups) := by rwa [Nat.div_lt_iff_lt_mul (by decide), ← whole]
      have others : 0 < groups := by
        refine Nat.pos_of_ne_zero fun none => small ?_
        rw [none] at few
        exact few
      rw [encodeFull_more small, List.length_cons]
      exact Nat.succ_le_succ (ih others fewer)

theorem encodeFull_length_gt {groups n size : Nat} (room : groups ≤ size) (many : 2 ^ (7 * groups) ≤ n) :
    groups < (encodeFull size n).length := by
  induction size generalizing groups n with
  | zero =>
    rw [Nat.le_zero.mp room]
    exact encodeFull_length_pos 0 n
  | succ size ih =>
    cases groups with
    | zero => exact encodeFull_length_pos _ n
    | succ groups =>
      have whole : 2 ^ (7 * (groups + 1)) = 2 ^ (7 * groups) * 128 := by rw [Nat.mul_succ, Nat.pow_add]
      have one : 0 < 2 ^ (7 * groups) := Nat.two_pow_pos _
      have large : ¬ n < 128 := by omega
      have more : 2 ^ (7 * groups) ≤ n / 128 := by rwa [Nat.le_div_iff_mul_le (by decide), ← whole]
      rw [encodeFull_more large, List.length_cons]
      exact Nat.succ_lt_succ (ih (Nat.le_of_succ_le_succ room) more)

/-- Both ways to stop agree on a number that has at most `size + 1` groups. -/
theorem encode_eq_encodeFull {size n : Nat} (few : n < 2 ^ (7 * (size + 1))) (more : Nat) :
    encode (size + 1 + more) n = encodeFull size n := by
  induction size generalizing n with
  | zero => rw [Nat.add_right_comm, encode_last few, encodeFull_last few]
  | succ size ih =>
    rw [Nat.add_right_comm]
    by_cases small : n < 128
    · rw [encode_last small, encodeFull_last small]
    · have whole : 2 ^ (7 * (size + 1 + 1)) = 2 ^ (7 * (size + 1)) * 128 := by
        rw [show 7 * (size + 1 + 1) = 7 * (size + 1) + 7 by omega, Nat.pow_add]
      have fewer : n / 128 < 2 ^ (7 * (size + 1)) := by rwa [Nat.div_lt_iff_lt_mul (by decide), ← whole]
      rw [encode_more small, encodeFull_more small, ih fewer]

/-! ## The number that bytes denote -/

/-- The number that the bytes begin with, and how many of them it takes. If all of them tell that another group
follows, there is none. -/
def decode : List UInt8 → Option (Nat × Nat)
  | [] => none
  | b :: bytes =>
      if b.toNat < 128 then some (b.toNat, 1)
      else (decode bytes).map fun rest => (b.toNat % 128 + rest.1 * 128, rest.2 + 1)

section
variable {b : UInt8} {bytes : List UInt8}

theorem decode_last (last : b.toNat < 128) : decode (b :: bytes) = some (b.toNat, 1) := if_pos last

theorem decode_more (more : ¬ b.toNat < 128) :
    decode (b :: bytes) = (decode bytes).map fun rest => (b.toNat % 128 + rest.1 * 128, rest.2 + 1) := if_neg more

theorem decode_length {n length : Nat} (found : decode bytes = some (n, length)) : 0 < length ∧ length ≤ bytes.length := by
  induction bytes generalizing n length with
  | nil => cases found
  | cons b bytes ih =>
    by_cases last : b.toNat < 128
    · rw [decode_last last] at found
      cases found
      exact ⟨Nat.one_pos, by simp⟩
    · rw [decode_more last, Option.map_eq_some_iff] at found
      obtain ⟨⟨n', length'⟩, rest, shape⟩ := found
      cases shape
      have bound := (ih rest).2
      simp only [List.length_cons]
      omega

/-- What follows on a number does not matter. -/
theorem decode_take {n length : Nat} (found : decode bytes = some (n, length)) (tail : List UInt8) :
    decode (bytes.take length ++ tail) = some (n, length) := by
  induction bytes generalizing n length with
  | nil => cases found
  | cons b bytes ih =>
    by_cases last : b.toNat < 128
    · rw [decode_last last] at found
      cases found
      exact decode_last last
    · rw [decode_more last, Option.map_eq_some_iff] at found
      obtain ⟨⟨n', length'⟩, rest, shape⟩ := found
      cases shape
      rw [List.take_succ_cons, List.cons_append, decode_more last, ih rest]
      rfl

end

/-- As `decode`, but after `size` groups of seven bits the next byte is a whole one and the last. -/
def decodeFull : Nat → List UInt8 → Option (Nat × Nat)
  | _, [] => none
  | 0, b :: _ => some (b.toNat, 1)
  | size + 1, b :: bytes =>
      if b.toNat < 128 then some (b.toNat, 1)
      else (decodeFull size bytes).map fun rest => (b.toNat % 128 + rest.1 * 128, rest.2 + 1)

section
variable {b : UInt8} {bytes : List UInt8} {size : Nat}

theorem decodeFull_last (last : b.toNat < 128) : decodeFull size (b :: bytes) = some (b.toNat, 1) := by
  cases size with
  | zero => rfl
  | succ size => exact if_pos last

theorem decodeFull_more (more : ¬ b.toNat < 128) : decodeFull (size + 1) (b :: bytes) =
    (decodeFull size bytes).map fun rest => (b.toNat % 128 + rest.1 * 128, rest.2 + 1) := if_neg more

theorem decodeFull_length {n length : Nat} (found : decodeFull size bytes = some (n, length)) :
    0 < length ∧ length ≤ bytes.length := by
  induction bytes generalizing size n length with
  | nil => cases size <;> cases found
  | cons b bytes ih =>
    cases size with
    | zero =>
      cases found
      exact ⟨Nat.one_pos, by simp⟩
    | succ size =>
      by_cases last : b.toNat < 128
      · rw [decodeFull_last last] at found
        cases found
        exact ⟨Nat.one_pos, by simp⟩
      · rw [decodeFull_more last, Option.map_eq_some_iff] at found
        obtain ⟨⟨n', length'⟩, rest, shape⟩ := found
        cases shape
        have bound := (ih rest).2
        simp only [List.length_cons]
        omega

theorem decodeFull_take {n length : Nat} (found : decodeFull size bytes = some (n, length)) (tail : List UInt8) :
    decodeFull size (bytes.take length ++ tail) = some (n, length) := by
  induction bytes generalizing size n length with
  | nil => cases size <;> cases found
  | cons b bytes ih =>
    cases size with
    | zero =>
      cases found
      rfl
    | succ size =>
      by_cases last : b.toNat < 128
      · rw [decodeFull_last last] at found
        cases found
        exact decodeFull_last last
      · rw [decodeFull_more last, Option.map_eq_some_iff] at found
        obtain ⟨⟨n', length'⟩, rest, shape⟩ := found
        cases shape
        rw [List.take_succ_cons, List.cons_append, decodeFull_more last, ih rest]
        rfl

end

/-! ## Collecting the groups -/

theorem low_group (b : Nat) : b &&& 0x7F = b % 128 := Nat.and_two_pow_sub_one_eq_mod b 7

/-- A group is put above what was collected so far, within a word of `width` bits. -/
theorem or_group {i b shift width : Nat} (low : i < 2 ^ shift) (fits : i + b * 2 ^ shift < 2 ^ width) :
    i ||| (b <<< shift) % 2 ^ width = i + b * 2 ^ shift := by
  have small : b <<< shift < 2 ^ width := by
    rw [Nat.shiftLeft_eq]
    omega
  rw [Nat.mod_eq_of_lt small, Nat.or_comm, ← Nat.shiftLeft_add_eq_or_of_lt low, Nat.shiftLeft_eq,
    Nat.add_comm]

/-- The sum so far and one group more, still below the next group. -/
theorem group_lt {i b shift : Nat} (low : i < 2 ^ shift) : i + b % 128 * 2 ^ shift < 2 ^ (shift + 7) := by
  have group : b % 128 ≤ 127 := by omega
  have bound := Nat.mul_le_mul_right (2 ^ shift) group
  rw [Nat.pow_add]
  omega

/-- Splitting off the low group of `n`. -/
theorem group_split (i n shift : Nat) :
    i + n % 128 * 2 ^ shift + n / 128 * 2 ^ (shift + 7) = i + n * 2 ^ shift := by
  have whole := Nat.mod_add_div n 128
  have next : 2 ^ (shift + 7) = 2 ^ shift * 128 := Nat.pow_add 2 shift 7
  calc i + n % 128 * 2 ^ shift + n / 128 * 2 ^ (shift + 7)
      = i + (n % 128 + 128 * (n / 128)) * 2 ^ shift := by
        rw [next, Nat.add_mul, Nat.mul_comm (2 ^ shift) 128, ← Nat.mul_assoc, Nat.mul_comm (n / 128),
          Nat.add_assoc]
    _ = i + n * 2 ^ shift := by rw [whole]

end Xxlib.Lib.Varint
