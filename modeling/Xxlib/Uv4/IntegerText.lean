import Xxlib.Lib.Decimal
import Xxlib.Uv4.FormatText
import Xxlib.Uv4.VarintCodec

/-! Integers as text (`xx_charsutils.hpp`), and integers from text.

What a function writes to its buffer is its result here. Its length, which the source returns, is that of the list.
-/

set_option autoImplicit false

namespace Xxlib.Uv4

open Lib Decimal CharList

/-! ## Writing -/

def gDigitsLut : List UInt8 :=
  [
    '0', '0', '0', '1', '0', '2', '0', '3', '0', '4', '0', '5', '0', '6', '0', '7', '0', '8', '0', '9',
    '1', '0', '1', '1', '1', '2', '1', '3', '1', '4', '1', '5', '1', '6', '1', '7', '1', '8', '1', '9',
    '2', '0', '2', '1', '2', '2', '2', '3', '2', '4', '2', '5', '2', '6', '2', '7', '2', '8', '2', '9',
    '3', '0', '3', '1', '3', '2', '3', '3', '3', '4', '3', '5', '3', '6', '3', '7', '3', '8', '3', '9',
    '4', '0', '4', '1', '4', '2', '4', '3', '4', '4', '4', '5', '4', '6', '4', '7', '4', '8', '4', '9',
    '5', '0', '5', '1', '5', '2', '5', '3', '5', '4', '5', '5', '5', '6', '5', '7', '5', '8', '5', '9',
    '6', '0', '6', '1', '6', '2', '6', '3', '6', '4', '6', '5', '6', '6', '6', '7', '6', '8', '6', '9',
    '7', '0', '7', '1', '7', '2', '7', '3', '7', '4', '7', '5', '7', '6', '7', '7', '7', '8', '7', '9',
    '8', '0', '8', '1', '8', '2', '8', '3', '8', '4', '8', '5', '8', '6', '8', '7', '8', '8', '8', '9',
    '9', '0', '9', '1', '9', '2', '9', '3', '9', '4', '9', '5', '9', '6', '9', '7', '9', '8', '9', '9'
  ].map fun c => UInt8.ofNat c.toNat

def lut (i : Nat) : UInt8 := gDigitsLut.getD i 0

/-- `if (cond) *buffer++ = b` -/
def put (cond : Prop) [Decidable cond] (b : UInt8) : List UInt8 := if cond then [b] else []

/-- `u32toa_branchlut`, where nothing overflows. -/
def u32toa (value : Nat) : List UInt8 :=
  if value < 10000 then
    let d1 := (value / 100) <<< 1
    let d2 := (value % 100) <<< 1
    put (value ≥ 1000) (lut d1) ++ put (value ≥ 100) (lut (d1 + 1)) ++ put (value ≥ 10) (lut d2) ++ [lut (d2 + 1)]
  else if value < 100000000 then
    let b := value / 10000
    let c := value % 10000
    let d1 := (b / 100) <<< 1
    let d2 := (b % 100) <<< 1
    let d3 := (c / 100) <<< 1
    let d4 := (c % 100) <<< 1
    (put (value ≥ 10000000) (lut d1) ++ put (value ≥ 1000000) (lut (d1 + 1)) ++ put (value ≥ 100000) (lut d2) ++ [lut (d2 + 1)]) ++
      [lut d3, lut (d3 + 1), lut d4, lut (d4 + 1)]
  else
    let a := value / 100000000
    let value := value % 100000000
    let b := value / 10000
    let c := value % 10000
    let d1 := (b / 100) <<< 1
    let d2 := (b % 100) <<< 1
    let d3 := (c / 100) <<< 1
    let d4 := (c % 100) <<< 1
    (if a ≥ 10 then [lut (a <<< 1), lut (a <<< 1 + 1)] else [48 + UInt8.ofNat a]) ++
      ([lut d1, lut (d1 + 1), lut d2, lut (d2 + 1)] ++ [lut d3, lut (d3 + 1), lut d4, lut (d4 + 1)])

/-- `i32toa_branchlut` -/
def i32toa (value : BitVec 32) : List UInt8 :=
  if value.toInt < 0 then 45 :: u32toa (~~~value + 1).toNat else u32toa value.toNat

/-- `u64toa_branchlut`, where nothing overflows. -/
def u64toa (value : Nat) : List UInt8 :=
  if value < 100000000 then
    let v := value
    if v < 10000 then
      let d1 := (v / 100) <<< 1
      let d2 := (v % 100) <<< 1
      put (v ≥ 1000) (lut d1) ++ put (v ≥ 100) (lut (d1 + 1)) ++ put (v ≥ 10) (lut d2) ++ [lut (d2 + 1)]
    else
      let b := v / 10000
      let c := v % 10000
      let d1 := (b / 100) <<< 1
      let d2 := (b % 100) <<< 1
      let d3 := (c / 100) <<< 1
      let d4 := (c % 100) <<< 1
      (put (value ≥ 10000000) (lut d1) ++ put (value ≥ 1000000) (lut (d1 + 1)) ++ put (value ≥ 100000) (lut d2) ++
          [lut (d2 + 1)]) ++
        [lut d3, lut (d3 + 1), lut d4, lut (d4 + 1)]
  else if value < 10000000000000000 then
    let v0 := value / 100000000
    let v1 := value % 100000000
    let b0 := v0 / 10000
    let c0 := v0 % 10000
    let d1 := (b0 / 100) <<< 1
    let d2 := (b0 % 100) <<< 1
    let d3 := (c0 / 100) <<< 1
    let d4 := (c0 % 100) <<< 1
    let b1 := v1 / 10000
    let c1 := v1 % 10000
    let d5 := (b1 / 100) <<< 1
    let d6 := (b1 % 100) <<< 1
    let d7 := (c1 / 100) <<< 1
    let d8 := (c1 % 100) <<< 1
    ((put (value ≥ 1000000000000000) (lut d1) ++ put (value ≥ 100000000000000) (lut (d1 + 1)) ++
          put (value ≥ 10000000000000) (lut d2) ++ put (value ≥ 1000000000000) (lut (d2 + 1))) ++
        (put (value ≥ 100000000000) (lut d3) ++ put (value ≥ 10000000000) (lut (d3 + 1)) ++
          put (value ≥ 1000000000) (lut d4) ++ put (value ≥ 100000000) (lut (d4 + 1)))) ++
      ([lut d5, lut (d5 + 1), lut d6, lut (d6 + 1)] ++ [lut d7, lut (d7 + 1), lut d8, lut (d8 + 1)])
  else
    let a := value / 10000000000000000
    let value := value % 10000000000000000
    let i := (a / 100) <<< 1
    let j := (a % 100) <<< 1
    let v0 := value / 100000000
    let v1 := value % 100000000
    let b0 := v0 / 10000
    let c0 := v0 % 10000
    let d1 := (b0 / 100) <<< 1
    let d2 := (b0 % 100) <<< 1
    let d3 := (c0 / 100) <<< 1
    let d4 := (c0 % 100) <<< 1
    let b1 := v1 / 10000
    let c1 := v1 % 10000
    let d5 := (b1 / 100) <<< 1
    let d6 := (b1 % 100) <<< 1
    let d7 := (c1 / 100) <<< 1
    let d8 := (c1 % 100) <<< 1
    (if a < 10 then [48 + UInt8.ofNat a]
        else if a < 100 then [lut (a <<< 1), lut (a <<< 1 + 1)]
        else if a < 1000 then [48 + UInt8.ofNat (a / 100), lut j, lut (j + 1)]
        else [lut i, lut (i + 1), lut j, lut (j + 1)]) ++
      (([lut d1, lut (d1 + 1), lut d2, lut (d2 + 1)] ++ [lut d3, lut (d3 + 1), lut d4, lut (d4 + 1)]) ++
        ([lut d5, lut (d5 + 1), lut d6, lut (d6 + 1)] ++ [lut d7, lut (d7 + 1), lut d8, lut (d8 + 1)]))

/-- `i64toa_branchlut` -/
def i64toa (value : BitVec 64) : List UInt8 :=
  if value.toInt < 0 then 45 :: u64toa (~~~value + 1).toNat else u64toa value.toNat


inductive IntType where
  | uint8 | uint16 | uint32 | uint64
  | int8 | int16 | int32 | int64
  deriving DecidableEq

namespace IntType

def sizeof : IntType → Nat
  | uint8 | int8 => 1
  | uint16 | int16 => 2
  | uint32 | int32 => 4
  | uint64 | int64 => 8

def isUnsigned : IntType → Bool
  | uint8 | uint16 | uint32 | uint64 => true
  | int8 | int16 | int32 | int64 => false

abbrev Bits (t : IntType) := BitVec (8 * t.sizeof)

/-- The number that the bits are. -/
def number (t : IntType) (v : t.Bits) : Int := if t.isUnsigned then v.toNat else v.toInt

def toa (t : IntType) (v : t.Bits) : List UInt8 :=
  if t.isUnsigned then if t.sizeof ≤ 4 then u32toa v.toNat else u64toa v.toNat
  else if t.sizeof ≤ 4 then i32toa (v.signExtend 32) else i64toa (v.signExtend 64)

/-- `StrFunc<T>::WriteTo` -/
def writeTo (t : IntType) (v : t.Bits) : List Step := [.reserve (t.sizeof * 4), .append (t.toa v)]

end IntType

/-! ## Reading -/

section
variable (signedChar : Bool) (w : Nat)

/-- `c - '0'`, as an integer of so many bits. -/
def charDigit (c : UInt8) : BitVec w := BitVec.ofNat w (charWord signedChar w c) - 48

/-- `while ((c = *(++in))) r = r * 10 + (c - '0')`, for so many rounds. -/
def digitLoop (memory : Nat → UInt8) : Nat → Nat → BitVec w → Option (BitVec w)
  | 0, _, _ => none
  | rounds + 1, i, r =>
      let c := memory (i + 1)
      if c = 0 then some r else digitLoop memory rounds (i + 1) (r * 10 + charDigit signedChar w c)

/-- `ToInt`. The memory is what begins at the pointer. -/
def toInt (rounds : Nat) : Option (Nat → UInt8) → Option (BitVec w)
  | none => some 0
  | some memory =>
      if memory 0 = 0 ∨ memory 0 = 48 then some 0
      else if memory 0 = 45 then
        (digitLoop signedChar w memory rounds 1 (charDigit signedChar w (memory 1))).map fun r => -r
      else digitLoop signedChar w memory rounds 0 (charDigit signedChar w (memory 0))

def toUInt (rounds : Nat) : Option (Nat → UInt8) → Option (BitVec w)
  | none => some 0
  | some memory =>
      if memory 0 = 0 ∨ memory 0 = 48 then some 0
      else digitLoop signedChar w memory rounds 0 (charDigit signedChar w (memory 0))

end

/-- `FromString` -/
def IntType.fromString (t : IntType) (signedChar : Bool) (rounds : Nat) (memory : Option (Nat → UInt8)) : Option t.Bits :=
  if t.isUnsigned then toUInt signedChar _ rounds memory else toInt signedChar _ rounds memory

/-! ## Digits -/

theorem lut_pair {k : Nat} (small : k < 100) : lut (k <<< 1) = digit (k / 10) ∧ lut (k <<< 1 + 1) = digit (k % 10) := by
  have all : ∀ k < 100, lut (k <<< 1) = digit (k / 10) ∧ lut (k <<< 1 + 1) = digit (k % 10) := by decide +kernel
  exact all k small

/-- Four characters of the table. -/
theorem four_low {c : Nat} (small : c < 10000) :
    [lut ((c / 100) <<< 1), lut ((c / 100) <<< 1 + 1), lut ((c % 100) <<< 1), lut ((c % 100) <<< 1 + 1)] = low 4 c := by
  obtain ⟨thousands, hundreds⟩ := @lut_pair (c / 100) (by omega)
  obtain ⟨tens, ones⟩ := @lut_pair (c % 100) (by omega)
  simp only [low, List.nil_append, List.cons_append, List.cons.injEq, and_true]
  rw [thousands, hundreds, tens, ones]
  exact ⟨congrArg digit (by omega), congrArg digit (by omega), congrArg digit (by omega), congrArg digit (by omega)⟩

theorem put_true {cond : Prop} [Decidable cond] (holds : cond) (b : UInt8) : put cond b = [b] := if_pos holds

theorem put_false {cond : Prop} [Decidable cond] (fails : ¬ cond) (b : UInt8) : put cond b = [] := if_neg fails

/-- Up to four characters of the table, where the conditions are those of the number they are for. -/
theorem four_decimal {b : Nat} (small : b < 10000) {p q r : Prop} [Decidable p] [Decidable q] [Decidable r]
    (thousand : p ↔ 1000 ≤ b) (hundred : q ↔ 100 ≤ b) (ten : r ↔ 10 ≤ b) :
    put p (lut ((b / 100) <<< 1)) ++ put q (lut ((b / 100) <<< 1 + 1)) ++ put r (lut ((b % 100) <<< 1)) ++
      [lut ((b % 100) <<< 1 + 1)] = decimal b := by
  obtain rfl := propext thousand
  obtain rfl := propext hundred
  obtain rfl := propext ten
  obtain ⟨thousands, hundreds⟩ := @lut_pair (b / 100) (by omega)
  obtain ⟨tens, ones⟩ := @lut_pair (b % 100) (by omega)
  rw [thousands, hundreds, tens, ones]
  by_cases one : b < 10
  · rw [put_false (by omega), put_false (by omega), put_false (by omega), decimal_digit one]
    exact congrArg (fun n => [digit n]) (by omega)
  · rw [put_true (show 10 ≤ b by omega), decimal_step (by omega)]
    have last : b % 100 % 10 = b % 10 := by omega
    by_cases two : b < 100
    · rw [put_false (by omega), put_false (by omega), decimal_digit (by omega), last]
      exact congrArg (fun n => [digit n] ++ [digit (b % 10)]) (by omega)
    · have third : b % 100 / 10 = b / 10 % 10 := by omega
      rw [put_true (show 100 ≤ b by omega), @decimal_step (b / 10) (by omega), last, third]
      by_cases three : b < 1000
      · rw [put_false (by omega), decimal_digit (by omega)]
        exact congrArg (fun n => [digit n] ++ [digit (b / 10 % 10)] ++ [digit (b % 10)]) (by omega)
      · have second : b / 100 % 10 = b / 10 / 10 % 10 := by omega
        rw [put_true (show 1000 ≤ b by omega), @decimal_step (b / 10 / 10) (by omega), decimal_digit (by omega), second]
        exact congrArg (fun n => [digit n] ++ [digit (b / 10 / 10 % 10)] ++ [digit (b / 10 % 10)] ++ [digit (b % 10)]) (by omega)

/-- Eight characters of the table. -/
theorem eight_low {v : Nat} (small : v < 100000000) :
    [lut ((v / 10000 / 100) <<< 1), lut ((v / 10000 / 100) <<< 1 + 1), lut ((v / 10000 % 100) <<< 1),
        lut ((v / 10000 % 100) <<< 1 + 1)] ++
      [lut ((v % 10000 / 100) <<< 1), lut ((v % 10000 / 100) <<< 1 + 1), lut ((v % 10000 % 100) <<< 1),
        lut ((v % 10000 % 100) <<< 1 + 1)] = low 8 v := by
  rw [four_low (by omega : v / 10000 < 10000), four_low (by omega : v % 10000 < 10000), low_add 4 4 v]
  exact congrArg _ (low_mod 4 v)

theorem one_digit {a : Nat} (small : a < 10) : 48 + UInt8.ofNat a = digit a := by
  apply UInt8.toNat_inj.mp
  rw [toNat_digit small, UInt8.toNat_add, UInt8.toNat_ofNat']
  change (48 + a % 256) % 256 = 48 + a
  omega

theorem two_low {a : Nat} (small : a < 100) : [lut (a <<< 1), lut (a <<< 1 + 1)] = low 2 a := by
  rw [(lut_pair small).1, (lut_pair small).2, low, low, low, Nat.mod_eq_of_lt (by omega : a / 10 < 10)]
  rfl

theorem two_decimal {a : Nat} (small : a < 100) (large : 10 ≤ a) : [lut (a <<< 1), lut (a <<< 1 + 1)] = decimal a := by
  rw [(lut_pair small).1, (lut_pair small).2, decimal_step large, decimal_digit (by omega)]
  rfl

/-- The digits in front and the last ones, by a division. -/
theorem decimal_split {n width base : Nat} (power : base = 10 ^ width) (large : base ≤ n) :
    decimal n = decimal (n / base) ++ low width (n % base) := by
  subst power
  rw [low_mod, ← decimal_low large]

/-- A number of up to eight digits. -/
theorem eight_decimal {value : Nat} (small : value < 100000000) (large : 10000 ≤ value) :
    (put (value ≥ 10000000) (lut ((value / 10000 / 100) <<< 1)) ++ put (value ≥ 1000000) (lut ((value / 10000 / 100) <<< 1 + 1)) ++
          put (value ≥ 100000) (lut ((value / 10000 % 100) <<< 1)) ++ [lut ((value / 10000 % 100) <<< 1 + 1)]) ++
        [lut ((value % 10000 / 100) <<< 1), lut ((value % 10000 / 100) <<< 1 + 1), lut ((value % 10000 % 100) <<< 1),
          lut ((value % 10000 % 100) <<< 1 + 1)] = decimal value := by
  rw [four_low (by omega), four_decimal (by omega) (by omega) (by omega) (by omega), @decimal_split value 4 10000 rfl large]

theorem u32toa_decimal {value : Nat} (word : value < 2 ^ 32) : u32toa value = decimal value := by
  unfold u32toa
  split
  · rename_i small
    exact four_decimal small Iff.rfl Iff.rfl Iff.rfl
  · rename_i large
    split
    · rename_i small
      exact eight_decimal small (by omega)
    · rename_i huge
      dsimp only
      rw [eight_low (Nat.mod_lt _ (by decide)), @decimal_split value 8 100000000 rfl (by omega)]
      refine congrArg (· ++ _) ?_
      split
      · exact two_decimal (by omega) (by omega)
      · rw [one_digit (by omega), decimal_digit (by omega)]

/-- The digits in front of sixteen others. -/
theorem front_decimal {a : Nat} (few : a < 10000) :
    (if a < 10 then [48 + UInt8.ofNat a]
      else if a < 100 then [lut (a <<< 1), lut (a <<< 1 + 1)]
      else if a < 1000 then [48 + UInt8.ofNat (a / 100), lut ((a % 100) <<< 1), lut ((a % 100) <<< 1 + 1)]
      else [lut ((a / 100) <<< 1), lut ((a / 100) <<< 1 + 1), lut ((a % 100) <<< 1), lut ((a % 100) <<< 1 + 1)]) =
      decimal a := by
  split
  · rw [one_digit (by omega), decimal_digit (by omega)]
  · split
    · exact two_decimal (by omega) (by omega)
    · have tail : [lut ((a % 100) <<< 1), lut ((a % 100) <<< 1 + 1)] = low 2 (a % 100) := two_low (Nat.mod_lt _ (by decide))
      rw [@decimal_split a 2 100 rfl (by omega), ← tail]
      split
      · rw [one_digit (by omega), decimal_digit (by omega)]
        rfl
      · rw [← two_decimal (by omega) (by omega)]
        rfl

theorem u64toa_decimal {value : Nat} (word : value < 2 ^ 64) : u64toa value = decimal value := by
  unfold u64toa
  split
  · rename_i few
    dsimp only
    split
    · rename_i small
      exact four_decimal small Iff.rfl Iff.rfl Iff.rfl
    · exact eight_decimal few (by omega)
  · rename_i large
    split
    · rename_i small
      dsimp only
      rw [eight_low (Nat.mod_lt _ (by decide)), @decimal_split value 8 100000000 rfl (by omega)]
      refine congrArg (· ++ _) ?_
      by_cases few : value / 100000000 < 10000
      · -- the first four conditions fail
        have whole : value / 100000000 % 10000 = value / 100000000 := Nat.mod_eq_of_lt few
        rw [put_false (by omega), put_false (by omega), put_false (by omega), put_false (by omega),
          put_true (show value ≥ 100000000 by omega), whole]
        exact four_decimal few (by omega) (by omega) (by omega)
      · rw [put_true (show value ≥ 1000000000000 by omega), put_true (show value ≥ 100000000000 by omega),
          put_true (show value ≥ 10000000000 by omega), put_true (show value ≥ 1000000000 by omega),
          put_true (show value ≥ 100000000 by omega), four_decimal (by omega) (by omega) (by omega) (by omega),
          @decimal_split (value / 100000000) 4 10000 rfl (by omega), ← four_low (by omega)]
        rfl
    · rename_i huge
      dsimp only
      rw [eight_low (Nat.mod_lt _ (by decide)), eight_low (by omega), @decimal_split value 16 10000000000000000 rfl (by omega),
        low_add 8 8, ← low_mod 8 (value % 10000000000000000)]
      exact congrArg (· ++ _) (front_decimal (by omega))

theorem neg_toNat {w : Nat} {v : BitVec w} (negative : v.toInt < 0) : (~~~v + 1).toNat = v.toInt.natAbs := by
  have complement : ~~~v + 1 = -v := (BitVec.neg_eq_not_add v).symm
  rw [complement, BitVec.toNat_neg]
  have bound := v.isLt
  rw [BitVec.toInt_eq_toNat_cond] at negative ⊢
  split at negative
  · omega
  · rename_i large
    rw [if_neg large, Nat.mod_eq_of_lt (by omega)]
    omega

theorem toNat_natAbs {w : Nat} {v : BitVec w} (positive : ¬ v.toInt < 0) : v.toNat = v.toInt.natAbs := by
  have bound := v.isLt
  rw [BitVec.toInt_eq_toNat_cond] at positive ⊢
  split at positive
  · rename_i small
    rw [if_pos small, Int.natAbs_natCast]
  · omega

theorem ofInt_toInt {w : Nat} (v : BitVec w) :
    ofInt v.toInt = if v.toInt < 0 then 45 :: decimal (~~~v + 1).toNat else decimal v.toNat := by
  unfold ofInt
  by_cases negative : v.toInt < 0
  · rw [if_pos negative, if_pos negative, neg_toNat negative]
  · rw [if_neg negative, if_neg negative, toNat_natAbs negative]

theorem i32toa_ofInt (v : BitVec 32) : i32toa v = ofInt v.toInt := by
  rw [i32toa, u32toa_decimal (BitVec.isLt _), u32toa_decimal v.isLt, ofInt_toInt]

theorem i64toa_ofInt (v : BitVec 64) : i64toa v = ofInt v.toInt := by
  rw [i64toa, u64toa_decimal (BitVec.isLt _), u64toa_decimal v.isLt, ofInt_toInt]

theorem ofInt_natCast (n : Nat) : ofInt n = decimal n := by
  rw [ofInt, if_neg (by omega), Int.natAbs_natCast]

/-- Every type writes its numbers as decimal text. -/
theorem IntType.toa_eq (t : IntType) (v : t.Bits) : t.toa v = ofInt (t.number v) := by
  unfold toa number
  by_cases unsigned : t.isUnsigned
  · rw [if_pos unsigned, if_pos unsigned, ofInt_natCast]
    have bound := v.isLt
    split
    · rename_i small
      exact u32toa_decimal (bound.trans_le (Nat.pow_le_pow_right (by decide) (by omega)))
    · have wide : t.sizeof ≤ 8 := by cases t <;> decide
      exact u64toa_decimal (bound.trans_le (Nat.pow_le_pow_right (by decide) (by omega)))
  · rw [if_neg unsigned, if_neg unsigned]
    split
    · rename_i small
      rw [i32toa_ofInt, BitVec.toInt_signExtend_of_le (by omega)]
    · have wide : t.sizeof ≤ 8 := by cases t <;> decide
      rw [i64toa_ofInt, BitVec.toInt_signExtend_of_le (by omega)]

/-! ## Round trips -/

section
variable {signedChar : Bool} {w n rounds i : Nat} {memory : Nat → UInt8} {x : List UInt8}

theorem charDigit_eq {d : UInt8} (low : 48 ≤ d.toNat) (high : d.toNat ≤ 57) : charDigit signedChar w d = BitVec.ofNat w (d.toNat - 48) := by
  have whole : d.toNat = d.toNat - 48 + 48 := by omega
  rw [charDigit, charWord_small (by omega), whole, BitVec.ofNat_add]
  exact BitVec.add_sub_cancel _ _

/-- The loop comes to the end, with what the digits tell. -/
theorem digitLoop_value (string : CString memory (i + 1) x) (decimal : ∀ d ∈ x, 48 ≤ d.toNat ∧ d.toNat ≤ 57)
    (enough : x.length < rounds) :
    digitLoop signedChar w memory rounds i (BitVec.ofNat w n) = some (BitVec.ofNat w (value n x)) := by
  induction x generalizing i n rounds with
  | nil =>
    obtain ⟨rounds, rfl⟩ := Nat.exists_eq_add_one_of_ne_zero (Nat.ne_zero_of_lt enough)
    exact if_pos string.zero
  | cons d x ih =>
    obtain ⟨rounds, rfl⟩ := Nat.exists_eq_add_one_of_ne_zero (Nat.ne_zero_of_lt enough)
    obtain ⟨range, later⟩ := List.forall_mem_cons.mp decimal
    have here : memory (i + 1) = d := string.stored.1
    have solid : d ≠ 0 := fun zero => string.solid (zero ▸ List.mem_cons_self)
    have next : BitVec.ofNat w n * 10 + charDigit signedChar w d = BitVec.ofNat w (n * 10 + (d.toNat - 48)) := by
      rw [charDigit_eq range.1 range.2, BitVec.ofNat_add, BitVec.ofNat_mul]
      rfl
    rw [digitLoop]
    simp only [here]
    rw [if_neg solid, next]
    exact ih (string.drop (x := [d])) later (by rw [List.length_cons] at enough; omega)

/-- What begins with a digit that is not zero. -/
theorem digits_value (string : CString memory i (decimal n)) (enough : (decimal n).length ≤ rounds) :
    digitLoop signedChar w memory rounds i (charDigit signedChar w (memory i)) = some (BitVec.ofNat w n) := by
  have range : ∀ d ∈ decimal n, 48 ≤ d.toNat ∧ d.toNat ≤ 57 := fun d => mem_decimal
  have told := value_decimal n
  cases text : decimal n with
  | nil => exact absurd text (decimal_ne_nil n)
  | cons d x =>
    rw [text] at string enough range told
    obtain ⟨first, later⟩ := List.forall_mem_cons.mp range
    have here : memory i = d := string.stored.1
    rw [here, charDigit_eq first.1 first.2, digitLoop_value (string.drop (x := [d])) later enough]
    have digits : value (d.toNat - 48) x = n := by
      change value (0 * 10 + (d.toNat - 48)) x = n at told
      rwa [Nat.zero_mul, Nat.zero_add] at told
    rw [digits]

theorem decimal_first (n : Nat) : ∃ d x, decimal n = d :: x ∧ (d = 48 ↔ n = 0) ∧ d ≠ 0 ∧ d ≠ 45 := by
  cases text : decimal n with
  | nil => exact absurd text (decimal_ne_nil n)
  | cons d x =>
    have head := decimal_head n
    rw [text, List.head?_cons, Option.some_inj] at head
    have range := @mem_decimal n d (by rw [text]; exact List.mem_cons_self)
    refine ⟨d, x, rfl, head, ?_, ?_⟩
    · rintro rfl
      exact absurd range.1 (by decide)
    · rintro rfl
      exact absurd range.1 (by decide)

theorem toUInt_decimal (string : CString memory 0 (decimal n)) (enough : (decimal n).length ≤ rounds) :
    toUInt signedChar w rounds (some memory) = some (BitVec.ofNat w n) := by
  obtain ⟨d, x, text, zero, solid, -⟩ := decimal_first n
  have here : memory 0 = d := (text ▸ string).stored.1
  simp only [toUInt]
  by_cases none : n = 0
  · rw [if_pos (.inr (here.trans (zero.mpr none))), none]
    rfl
  · rw [if_neg (by rw [here, zero]; exact not_or.mpr ⟨solid, none⟩)]
    exact digits_value string enough

theorem toInt_ofInt {v : Int} (string : CString memory 0 (ofInt v)) (enough : (ofInt v).length ≤ rounds) :
    toInt signedChar w rounds (some memory) = some (BitVec.ofInt w v) := by
  simp only [toInt]
  unfold ofInt at string enough
  split at string
  · rename_i negative
    rw [if_pos negative, List.length_cons] at enough
    have sign : memory 0 = 45 := string.stored.1
    have digits : CString memory 1 (decimal v.natAbs) := string.drop (x := [45])
    have minus : v = -(v.natAbs : Int) := by omega
    simp only [sign, if_true]
    rw [if_neg (by decide), digits_value digits (by omega), Option.map_some, ← BitVec.ofInt_natCast, ← BitVec.ofInt_neg,
      ← minus]
  · rename_i positive
    rw [if_neg positive] at enough
    obtain ⟨d, x, text, zero, solid, plus⟩ := decimal_first v.natAbs
    have here : memory 0 = d := (text ▸ string).stored.1
    have whole : v = (v.natAbs : Int) := by omega
    have bits : BitVec.ofInt w v = BitVec.ofNat w v.natAbs := by
      rw [← BitVec.ofInt_natCast, ← whole]
    by_cases none : v.natAbs = 0
    · rw [if_pos (.inr (here.trans (zero.mpr none))), bits, none]
      rfl
    · rw [if_neg (by rw [here, zero]; exact not_or.mpr ⟨solid, none⟩), if_neg (here ▸ plus), bits]
      exact digits_value string enough

theorem IntType.fromString_number (t : IntType) (v : t.Bits) (string : CString memory 0 (ofInt (t.number v)))
    (enough : (ofInt (t.number v)).length ≤ rounds) : t.fromString signedChar rounds (some memory) = some v := by
  unfold fromString
  unfold number at string enough
  split
  · rename_i unsigned
    rw [if_pos unsigned, ofInt_natCast] at string enough
    rw [toUInt_decimal string enough, BitVec.ofNat_toNat, BitVec.setWidth_eq]
  · rename_i signed
    rw [if_neg signed] at string enough
    rw [toInt_ofInt string enough, BitVec.ofInt_toInt]

end

/-- The room that is reserved is enough. -/
theorem IntType.text_length (t : IntType) (v : t.Bits) : (ofInt (t.number v)).length ≤ 4 * t.sizeof := by
  have unsigned : ∀ n < 2 ^ (8 * t.sizeof), (decimal n).length ≤ 4 * t.sizeof := by
    intro n small
    rw [decimal_length (by cases t <;> decide)]
    exact small.trans_le (by cases t <;> decide)
  have signed : ∀ n ≤ 2 ^ (8 * t.sizeof - 1), (decimal n).length + 1 ≤ 4 * t.sizeof := by
    intro n small
    have fits : (decimal n).length ≤ 4 * t.sizeof - 1 := by
      rw [decimal_length (by cases t <;> decide)]
      exact small.trans_lt (by cases t <;> decide)
    have some : 0 < t.sizeof := by cases t <;> decide
    omega
  unfold number
  split
  · rw [ofInt_natCast]
    exact unsigned v.toNat v.isLt
  · have high := BitVec.toInt_lt (x := v)
    have low := BitVec.le_toInt v
    rw [show (2 : Int) ^ (8 * t.sizeof - 1) = ((2 ^ (8 * t.sizeof - 1) : Nat) : Int) from (Int.natCast_pow 2 _).symm] at high low
    have bound := signed v.toInt.natAbs (by omega)
    unfold ofInt
    split
    · exact bound
    · omega

/-- Every integer is written as its decimal text, which is read back. -/
theorem integer_text_round_trip (signedChar : Bool) (blocks : Blocks) (t : IntType) (v : t.Bits) :
    (∀ l l', run blocks (t.writeTo v) l = some l' → l'.data = l.data ++ ofInt (t.number v)) ∧
      (∀ l l₁, (Step.reserve (t.sizeof * 4)).run blocks l = some l₁ → l.dataLen + t.sizeof * 4 ≤ l₁.bufLen →
        ∃ l', run blocks (t.writeTo v) l = some l') ∧
      (ofInt (t.number v)).length ≤ 4 * t.sizeof ∧ ((decimal (t.number v).natAbs).head? = some 48 ↔ t.number v = 0) ∧
      ∀ memory, CString memory 0 (ofInt (t.number v)) → ∀ rounds, (ofInt (t.number v)).length ≤ rounds →
        t.fromString signedChar rounds (some memory) = some v := by
  have length := t.text_length v
  refine ⟨fun l l' done => ?_, fun l l₁ reserved room => ?_, length, ?_, fun memory string rounds enough => ?_⟩
  · rw [ran_data (run_ran done), IntType.writeTo, written_reserve, written_append, written_nil, List.append_nil, t.toa_eq]
  · have same : l₁.dataLen = l.dataLen := by
      rcases reserve_cases reserved with ⟨-, rfl⟩ | ⟨-, -, rfl⟩
      · rfl
      · rfl
    rw [IntType.writeTo, run, reserved, Option.bind_some]
    refine (run_some_iff blocks _ _).mpr ⟨?_, trivial⟩
    rw [t.toa_eq]
    omega
  · rw [decimal_head, Int.natAbs_eq_zero]
  · exact t.fromString_number v string enough

theorem integer_text_round_trip_int8 :
    IntType.int8.fromString true 4 (some (memory [45, 49, 50, 56] fun _ => 0)) = some (BitVec.ofInt 8 (-128)) :=
  (integer_text_round_trip true (fun _ _ => 0) .int8 (BitVec.ofInt 8 (-128))).2.2.2.2 _
    ⟨memory_stored [45, 49, 50, 56] _, by decide, rfl⟩ 4 (by decide)

/-- Before the end a reader has less than the number, so that only the least number of a signed type does not fit in it. -/
theorem IntType.accumulator_fits (t : IntType) (signed : t.isUnsigned = false) (v : t.Bits) {front : List UInt8}
    (begins : front <+: decimal (t.number v).natAbs) :
    value 0 front < 2 ^ (8 * t.sizeof - 1) ∨ t.number v = -2 ^ (8 * t.sizeof - 1) := by
  obtain ⟨rest, whole⟩ := begins
  have below : value 0 front ≤ (t.number v).natAbs := by
    have told := value_decimal (t.number v).natAbs
    rw [← whole, value_append] at told
    exact (le_value _ rest).trans_eq told
  unfold number at below ⊢
  rw [if_neg (by rw [signed]; decide)] at below ⊢
  have high := BitVec.toInt_lt (x := v)
  have low := BitVec.le_toInt v
  rw [show (2 : Int) ^ (8 * t.sizeof - 1) = ((2 ^ (8 * t.sizeof - 1) : Nat) : Int) from (Int.natCast_pow 2 _).symm] at high low ⊢
  omega

end Xxlib.Uv4
