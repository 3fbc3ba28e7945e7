import Xxlib.Go.Methods
import Xxlib.Lib.Monitor
import Xxlib.Lib.ZigZag

/-! What the integer readers of `xx_bbuffer.go` make of any bytes, also of codes that no
writer produces.
-/

set_option autoImplicit false

namespace Xxlib.Go

open Lib

/-! ## Codes of any shape -/

section
variable {buf bytes : List UInt8} {fuel idx offset n length : Nat} {shift r : UInt64}

/-- A group is put above the ones before, as far as the word has room. -/
theorem readGroup_mod {b : UInt8} (place : shift.toNat = 7 * idx) (inside : idx ≤ 9) (low : r.toNat < 2 ^ (7 * idx)) :
    (r ||| (b.toUInt64 &&& 0x7F) <<< shift).toNat = (r.toNat + b.toNat % 128 * 2 ^ (7 * idx)) % 2 ^ 64 := by
  by_cases last : idx = 9
  · subst last
    -- only the lowest bit of the tenth byte has a place
    have cut : ((b.toNat % 128) <<< 63) % 2 ^ 64 = ((b.toNat % 2) <<< 63) % 2 ^ 64 := by
      rw [Nat.shiftLeft_eq, Nat.shiftLeft_eq]
      omega
    simp only [UInt64.toNat_or, UInt64.toNat_shiftLeft, UInt64.toNat_and, UInt8.toNat_toUInt64,
      UInt64.reduceToNat, Varint.low_group, place]
    change r.toNat ||| ((b.toNat % 128) <<< 63) % 2 ^ 64 = _
    rw [cut, Varint.or_group low (by omega)]
    omega
  · have fits : r.toNat + b.toNat % 128 * 2 ^ (7 * idx) < 2 ^ 64 := by
      have below := Varint.group_lt (b := b.toNat) low
      have power : 2 ^ (7 * idx + 7) ≤ 2 ^ 64 := Nat.pow_le_pow_right (by decide) (by omega)
      omega
    rw [readGroup place inside low fits, Nat.mod_eq_of_lt fits]

theorem shift_next (place : shift.toNat = 7 * idx) (inside : idx ≤ 9) : (shift + 7).toNat = 7 * (idx + 1) := by
  rw [UInt64.toNat_add, place, show (7 : UInt64).toNat = 7 from rfl]
  omega

/-- A complete code of not more than `fuel` bytes is read, and cut off at 64 bits. -/
theorem readVarUInt64Loop_decode (round : idx + fuel = 10) (place : shift.toNat = 7 * idx) (low : r.toNat < 2 ^ (7 * idx))
    (found : Varint.decode (buf.drop offset) = some (n, length)) (few : length ≤ fuel) :
    readVarUInt64Loop buf fuel offset shift r =
      .ok (UInt64.ofNat (r.toNat + n * 2 ^ (7 * idx)), offset + length) := by
  induction fuel generalizing idx offset n length shift r with
  | zero => exact absurd (Varint.decode_length found).1 (by omega)
  | succ fuel ih =>
    cases rest : buf.drop offset with
    | nil =>
      rw [rest] at found
      cases found
    | cons b bytes =>
      have byte : buf[offset]? = some b := by rw [← List.head?_drop, rest]; rfl
      have sum := readGroup_mod (b := b) place (by omega) low
      rw [rest] at found
      unfold readVarUInt64Loop
      simp only [byte]
      by_cases last : b.toNat < 128
      · rw [Varint.decode_last last] at found
        cases found
        rw [if_pos ((low_bit b).mpr last)]
        rw [Nat.mod_eq_of_lt last] at sum
        congr 2
        apply UInt64.toNat_inj.mp
        rw [sum, UInt64.toNat_ofNat']
      · rw [Varint.decode_more last, Option.map_eq_some_iff] at found
        obtain ⟨⟨n', length'⟩, found', shape⟩ := found
        cases shape
        have after : buf.drop (offset + 1) = bytes := by
          rw [← List.drop_drop, rest]
          rfl
        have some := (Varint.decode_length found').1
        -- another byte follows, so that this is not the tenth
        have below := Varint.group_lt (b := b.toNat) low
        have power : 2 ^ (7 * idx + 7) ≤ 2 ^ 64 := Nat.pow_le_pow_right (by decide) (by omega)
        rw [Nat.mod_eq_of_lt (by omega)] at sum
        have more := ih (by omega) (shift_next place (by omega)) (by rw [sum]; exact below) (by rw [after]; exact found')
          (by omega)
        have whole : b.toNat % 128 * 2 ^ (7 * idx) + n' * 2 ^ (7 * (idx + 1)) =
            (b.toNat % 128 + n' * 128) * 2 ^ (7 * idx) := by
          rw [Nat.mul_add, Nat.pow_add, Nat.add_mul, Nat.mul_assoc n', Nat.mul_comm 128]
        rw [if_neg (by rw [low_bit]; exact last), more, sum, Nat.add_assoc, whole, Nat.add_right_comm offset,
          Nat.add_assoc offset]

/-- Everything else panics. -/
theorem readVarUInt64Loop_panics
    (long : ∀ n length, Varint.decode (buf.drop offset) = some (n, length) → fuel < length) :
    ∃ panic, readVarUInt64Loop buf fuel offset shift r = .error panic := by
  induction fuel generalizing offset shift r with
  | zero => exact ⟨_, rfl⟩
  | succ fuel ih =>
    unfold readVarUInt64Loop
    cases rest : buf.drop offset with
    | nil =>
      have byte : buf[offset]? = none := by rw [← List.head?_drop, rest]; rfl
      exact ⟨_, by rw [byte]⟩
    | cons b bytes =>
      have byte : buf[offset]? = some b := by rw [← List.head?_drop, rest]; rfl
      have after : buf.drop (offset + 1) = bytes := by
        rw [← List.drop_drop, rest]
        rfl
      have more : ¬ b.toNat < 128 := by
        intro last
        have short := long b.toNat 1 (by rw [rest, Varint.decode_last last])
        omega
      simp only [byte]
      rw [if_neg (by rw [low_bit]; exact more)]
      apply ih
      intro n length found
      rw [after] at found
      have longer := long (b.toNat % 128 + n * 128) (length + 1) (by rw [rest, Varint.decode_more more, found]; rfl)
      omega

end

section
variable {m : Memory} {n length : Nat}

theorem readVarUInt64_decode (found : Varint.decode m.unread = some (n, length)) (few : length ≤ 10) :
    readVarUInt64 m = .ok (UInt64.ofNat n) (m.advanced length) := by
  have loop : readVarUInt64Loop m.bb.buf.data 10 m.bb.offset 0 0 =
      .ok (UInt64.ofNat ((0 : UInt64).toNat + n * 2 ^ (7 * 0)), m.bb.offset + length) :=
    readVarUInt64Loop_decode rfl rfl (by decide) found few
  unfold readVarUInt64
  rw [loop]
  simp [Memory.advanced]

theorem readVarUInt64_panics (long : ∀ n length, Varint.decode m.unread = some (n, length) → 10 < length) :
    ∃ panic, readVarUInt64 m = .error panic m := by
  obtain ⟨panic, loop⟩ : ∃ panic, readVarUInt64Loop m.bb.buf.data 10 m.bb.offset 0 0 = .error panic :=
    readVarUInt64Loop_panics long
  refine ⟨panic, ?_⟩
  unfold readVarUInt64
  rw [loop]

theorem readVarUInt64_ok {v : UInt64} {m' : Memory} (ran : readVarUInt64 m = .ok v m') :
    ∃ n length, Varint.decode m.unread = some (n, length) ∧ length ≤ 10 ∧ v = UInt64.ofNat n ∧ m' = m.advanced length := by
  by_cases code : ∃ n length, Varint.decode m.unread = some (n, length) ∧ length ≤ 10
  · obtain ⟨n, length, found, few⟩ := code
    rw [readVarUInt64_decode found few] at ran
    cases ran
    exact ⟨n, length, found, few, rfl, rfl⟩
  · have long : ∀ n length, Varint.decode m.unread = some (n, length) → 10 < length := by
      intro n length found
      by_contra few
      exact code ⟨n, length, found, by omega⟩
    obtain ⟨panic, failed⟩ := readVarUInt64_panics long
    rw [failed] at ran
    cases ran

end

/-! ## The readers of integers -/

inductive IntegerRead where
  | varUInt64
  | uint16
  | uint32
  | int16
  | int32
  deriving DecidableEq

namespace IntegerRead

/-- The method, with its result as a number. -/
def method : IntegerRead → Run Int
  | varUInt64 => do return (← readVarUInt64).toNat
  | uint16 => do return (← readUInt16).toNat
  | uint32 => do return (← readUInt32).toNat
  | int16 => do return (← readInt16).toInt
  | int32 => do return (← readInt32).toInt

/-- The number that a code denotes. -/
def number : IntegerRead → Nat → Int
  | varUInt64, n => n
  | uint16, n => n
  | uint32, n => n
  | int16, n => zigZagInt n
  | int32, n => zigZagInt n

/-- The range of the type. -/
def Fits : IntegerRead → Int → Prop
  | varUInt64, x => 0 ≤ x ∧ x < 2 ^ 64
  | uint16, x => 0 ≤ x ∧ x < 2 ^ 16
  | uint32, x => 0 ≤ x ∧ x < 2 ^ 32
  | int16, x => -2 ^ 15 ≤ x ∧ x < 2 ^ 15
  | int32, x => -2 ^ 31 ≤ x ∧ x < 2 ^ 31

instance : (c : IntegerRead) → (x : Int) → Decidable (c.Fits x)
  | varUInt64, _ => inferInstanceAs (Decidable (_ ∧ _))
  | uint16, _ => inferInstanceAs (Decidable (_ ∧ _))
  | uint32, _ => inferInstanceAs (Decidable (_ ∧ _))
  | int16, _ => inferInstanceAs (Decidable (_ ∧ _))
  | int32, _ => inferInstanceAs (Decidable (_ ∧ _))

/-- What a method makes of the 64 bits that it has read. -/
def converted : IntegerRead → UInt64 → Int
  | varUInt64, v => v.toNat
  | uint16, v => v.toUInt16.toNat
  | uint32, v => v.toUInt32.toNat
  | int16, v => (unzigzag v).toInt16.toInt
  | int32, v => (unzigzag v).toInt32.toInt

variable (c : IntegerRead) {m m' : Memory}

theorem method_ok {v : UInt64} (read : readVarUInt64 m = .ok v m') : c.method m = .ok (c.converted v) m' := by
  cases c with
  | varUInt64 => exact bind_run read rfl
  | uint16 => exact bind_run (bind_run read rfl) rfl
  | uint32 => exact bind_run (bind_run read rfl) rfl
  | int16 => exact bind_run (bind_run (bind_run read rfl) rfl) rfl
  | int32 => exact bind_run (bind_run (bind_run read rfl) rfl) rfl

theorem method_error {panic : Panic} (read : readVarUInt64 m = .error panic m') : c.method m = .error panic m' := by
  cases c with
  | varUInt64 => exact bind_error read
  | uint16 => exact bind_error (bind_error read)
  | uint32 => exact bind_error (bind_error read)
  | int16 => exact bind_error (bind_error (bind_error read))
  | int32 => exact bind_error (bind_error (bind_error read))

theorem unzigzag_toInt {n : Nat} (word : n < 2 ^ 64) : (unzigzag (UInt64.ofNat n)).toInt = zigZagInt n := by
  have value := zigZagDecode_toInt (by decide) (UInt64.ofNat n).toBitVec
  rw [UInt64.toNat_toBitVec, UInt64.toNat_ofNat', Nat.mod_eq_of_lt word] at value
  exact value

/-- What fits is not changed. -/
theorem converted_of_fits {n : Nat} (fits : c.Fits (c.number n)) : c.converted (UInt64.ofNat n) = c.number n := by
  cases c with
  | varUInt64 =>
    simp only [Fits, number] at fits
    simp only [converted, number, UInt64.toNat_ofNat']
    omega
  | uint16 =>
    simp only [Fits, number] at fits
    simp only [converted, number, UInt64.toNat_toUInt16, UInt64.toNat_ofNat']
    omega
  | uint32 =>
    simp only [Fits, number] at fits
    simp only [converted, number, UInt64.toNat_toUInt32, UInt64.toNat_ofNat']
    omega
  | int16 =>
    simp only [Fits, number] at fits
    have word : n < 2 ^ 64 := by
      unfold zigZagInt at fits
      split at fits <;> omega
    simp only [converted, number]
    rw [Int64.toInt_toInt16, unzigzag_toInt word]
    exact Int.bmod_eq_of_le (by omega) (by omega)
  | int32 =>
    simp only [Fits, number] at fits
    have word : n < 2 ^ 64 := by
      unfold zigZagInt at fits
      split at fits <;> omega
    simp only [converted, number]
    rw [Int64.toInt_toInt32, unzigzag_toInt word]
    exact Int.bmod_eq_of_le (by omega) (by omega)

end IntegerRead

/-! ## Every offset -/

/-- The memory with `zs.Offset` set. -/
def Memory.placed (m : Memory) (offset : Nat) : Memory := { m with bb := { m.bb with offset := offset } }

/-- A method that begins with a byte at `zs.Offset`, which is an `int`. A negative one is no index: the method
panics before it has done anything. -/
def fromOffset {α : Type} (offset : Int) (read : Run α) : Run α := fun m =>
  if offset < 0 then .error .index (m.placed offset.toNat) else read (m.placed offset.toNat)

/-- The number that the bytes at an offset denote, and how many they are. -/
def codeAt (data : List UInt8) (offset : Int) : Option (Nat × Nat) :=
  if offset < 0 then none else Varint.decode (data.drop offset.toNat)

/-- The method returns the number that stands at the offset, and moves behind it, if there is one of not more
than ten bytes that the type can hold. Otherwise it panics, and has changed nothing. -/
def IntegerRead.Exact (c : IntegerRead) (offset : Int) (m : Memory) : Prop :=
  match codeAt m.bb.buf.data offset with
  | none => ∃ panic, fromOffset offset c.method m = .error panic (m.placed offset.toNat)
  | some (n, length) =>
      (length ≤ 10 ∧ c.Fits (c.number n) →
        fromOffset offset c.method m = .ok (c.number n) (m.placed (offset.toNat + length))) ∧
      (¬ (length ≤ 10 ∧ c.Fits (c.number n)) →
        ∃ panic, fromOffset offset c.method m = .error panic (m.placed offset.toNat))

section
variable {c : IntegerRead} {offset : Int} {m : Memory} {n length : Nat}

theorem fromOffset_code (found : codeAt m.bb.buf.data offset = some (n, length)) (few : length ≤ 10) :
    fromOffset offset c.method m = .ok (c.converted (UInt64.ofNat n)) (m.placed (offset.toNat + length)) := by
  unfold codeAt at found
  unfold fromOffset
  split at found
  · cases found
  · next positive =>
    rw [if_neg positive]
    exact c.method_ok (readVarUInt64_decode found few)

theorem fromOffset_panics (long : ∀ n length, codeAt m.bb.buf.data offset = some (n, length) → 10 < length) :
    ∃ panic, fromOffset offset c.method m = .error panic (m.placed offset.toNat) := by
  unfold codeAt at long
  unfold fromOffset
  split at long
  · next negative => exact ⟨_, if_pos negative⟩
  · next positive =>
    rw [if_neg positive]
    obtain ⟨panic, failed⟩ := readVarUInt64_panics (m := m.placed offset.toNat) long
    exact ⟨panic, c.method_error failed⟩

end

/-- The readers are exact but where a complete code denotes a number that the type cannot hold: there they do
not panic. -/
theorem integerRead_exact_iff (c : IntegerRead) (offset : Int) (m : Memory) :
    c.Exact offset m ↔
      ∀ n length, codeAt m.bb.buf.data offset = some (n, length) → length ≤ 10 → c.Fits (c.number n) := by
  unfold IntegerRead.Exact
  constructor
  · intro exact' n length found few
    rw [found] at exact'
    by_contra unfit
    obtain ⟨panic, failed⟩ := exact'.2 fun both => unfit both.2
    rw [fromOffset_code found few] at failed
    cases failed
  · intro fits
    cases found : codeAt m.bb.buf.data offset with
    | none =>
      apply fromOffset_panics
      intro n length other
      rw [found] at other
      cases other
    | some code =>
      obtain ⟨n, length⟩ := code
      refine ⟨fun both => ?_, fun neither => ?_⟩
      · rw [fromOffset_code found both.1, c.converted_of_fits both.2]
      · apply fromOffset_panics
        intro n' length' other
        rw [found] at other
        cases other
        by_contra few
        exact neither ⟨by omega, fits n length found (by omega)⟩

/-- `ReadUInt16` at the code of 65537 returns 1, and `ReadVarUInt64` at that of `2 ^ 64` returns 0. -/
theorem integerRead_truncates :
    ¬ IntegerRead.uint16.Exact 0 ⟨[], { buf := { data := [0x81, 0x80, 0x04] } }⟩ ∧
      ¬ IntegerRead.varUInt64.Exact 0
        ⟨[], { buf := { data := [0x80, 0x80, 0x80, 0x80, 0x80, 0x80, 0x80, 0x80, 0x80, 0x02] } }⟩ := by
  constructor
  · intro exact'
    obtain ⟨panic, failed⟩ := exact'.2 (by decide)
    cases failed
  · intro exact'
    obtain ⟨panic, failed⟩ := exact'.2 (by decide)
    cases failed

end Xxlib.Go
