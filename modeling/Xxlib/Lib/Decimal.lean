import Mathlib.Algebra.Order.Ring.Nat
import Mathlib.Data.List.Basic

/-! Numbers as decimal text, and texts with a fixed number of digits. -/

set_option autoImplicit false

namespace Xxlib.Lib.Decimal

def digit (n : Nat) : UInt8 := UInt8.ofNat (48 + n)

def decimal (n : Nat) : List UInt8 := (Nat.toDigits 10 n).map fun c => UInt8.ofNat c.toNat

def ofInt (i : Int) : List UInt8 := if i < 0 then 45 :: decimal i.natAbs else decimal i.natAbs

/-- The last `width` digits, with zeros in front. -/
def low : Nat → Nat → List UInt8
  | 0, _ => []
  | width + 1, n => low width (n / 10) ++ [digit (n % 10)]

/-- What the digits tell, after a number. -/
def value (n : Nat) (digits : List UInt8) : Nat := digits.foldl (fun n d => n * 10 + (d.toNat - 48)) n

variable {n width : Nat}

theorem toNat_digit (small : n < 10) : (digit n).toNat = 48 + n := by
  rw [digit, UInt8.toNat_ofNat', Nat.mod_eq_of_lt (by omega)]

theorem digitChar_toNat (small : n < 10) : UInt8.ofNat n.digitChar.toNat = digit n := by
  have all : ∀ n < 10, UInt8.ofNat n.digitChar.toNat = digit n := by decide
  exact all n small

theorem decimal_digit (small : n < 10) : decimal n = [digit n] := by
  rw [decimal, Nat.toDigits_of_lt_base small, List.map_singleton, digitChar_toNat small]

theorem decimal_step (large : 10 ≤ n) : decimal n = decimal (n / 10) ++ [digit (n % 10)] := by
  rw [decimal, Nat.toDigits_of_base_le (by decide) large, List.map_append, List.map_singleton,
    digitChar_toNat (Nat.mod_lt n (by decide))]
  rfl

/-- The digits in front, and the last ones. -/
theorem decimal_low (large : 10 ^ width ≤ n) : decimal n = decimal (n / 10 ^ width) ++ low width n := by
  induction width generalizing n with
  | zero => rw [Nat.pow_zero, Nat.div_one, low, List.append_nil]
  | succ width ih =>
    rw [Nat.pow_succ] at large
    have front : 10 ^ width ≤ n / 10 := (Nat.le_div_iff_mul_le (by decide)).mpr large
    have positive := Nat.one_le_pow width 10 (by decide)
    rw [decimal_step (by omega), ih front, low, Nat.div_div_eq_div_mul, Nat.pow_succ, Nat.mul_comm 10, List.append_assoc]

theorem low_mod (width n : Nat) : low width (n % 10 ^ width) = low width n := by
  induction width generalizing n with
  | zero => rfl
  | succ width ih =>
    rw [low, low, ← ih (n / 10), Nat.pow_succ, Nat.mul_comm, Nat.mod_mul_right_div_self, Nat.mod_mul_right_mod]

theorem low_add (front width n : Nat) : low (front + width) n = low front (n / 10 ^ width) ++ low width n := by
  induction width generalizing n with
  | zero => rw [Nat.add_zero, Nat.pow_zero, Nat.div_one, low, List.append_nil]
  | succ width ih => rw [← Nat.add_assoc, low, ih, low, List.append_assoc, Nat.div_div_eq_div_mul, Nat.pow_succ, Nat.mul_comm 10]

theorem decimal_length (positive : 0 < width) : (decimal n).length ≤ width ↔ n < 10 ^ width := by
  rw [decimal, List.length_map, Nat.length_toDigits_le_iff (by decide) positive]

theorem mem_decimal {d : UInt8} (member : d ∈ decimal n) : 48 ≤ d.toNat ∧ d.toNat ≤ 57 := by
  induction n using Nat.strongRecOn with
  | ind n ih =>
    have range : ∀ {m : Nat}, m < 10 → d = digit m → 48 ≤ d.toNat ∧ d.toNat ≤ 57 := by
      rintro m small rfl
      rw [toNat_digit small]
      omega
    by_cases small : n < 10
    · rw [decimal_digit small, List.mem_singleton] at member
      exact range small member
    · rw [decimal_step (by omega), List.mem_append, List.mem_singleton] at member
      rcases member with front | last
      · exact ih (n / 10) (by omega) front
      · exact range (Nat.mod_lt n (by decide)) last

theorem decimal_ne_nil (n : Nat) : decimal n ≠ [] := by
  intro empty
  exact Nat.toDigits_ne_nil (List.map_eq_nil_iff.mp empty)

/-- Only the text of zero begins with a zero. -/
theorem decimal_head (n : Nat) : (decimal n).head? = some 48 ↔ n = 0 := by
  induction n using Nat.strongRecOn with
  | ind n ih =>
    by_cases small : n < 10
    · rw [decimal_digit small, List.head?_cons, Option.some_inj, ← UInt8.toNat_inj, toNat_digit small]
      change 48 + n = 48 ↔ n = 0
      omega
    · rw [decimal_step (by omega), List.head?_append_of_ne_nil _ (decimal_ne_nil _), ih (n / 10) (by omega)]
      omega

theorem value_append (n : Nat) (x y : List UInt8) : value n (x ++ y) = value (value n x) y := List.foldl_append

theorem le_value (n : Nat) (digits : List UInt8) : n ≤ value n digits := by
  induction digits generalizing n with
  | nil => exact Nat.le_refl n
  | cons d digits ih => exact Nat.le_trans (by omega : n ≤ n * 10 + (d.toNat - 48)) (ih _)

theorem value_decimal (n : Nat) : value 0 (decimal n) = n := by
  induction n using Nat.strongRecOn with
  | ind n ih =>
    by_cases small : n < 10
    · rw [decimal_digit small]
      change 0 * 10 + ((digit n).toNat - 48) = n
      rw [toNat_digit small]
      omega
    · rw [decimal_step (by omega), value_append, ih (n / 10) (by omega)]
      change n / 10 * 10 + ((digit (n % 10)).toNat - 48) = n
      rw [toNat_digit (Nat.mod_lt n (by decide))]
      omega

end Xxlib.Lib.Decimal
