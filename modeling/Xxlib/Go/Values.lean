import Xxlib.Go.BBuffer

/-! Numbers and strings are read back as they were written. -/

set_option autoImplicit false

namespace Xxlib.Go

open Lib

/-! ## Groups of seven bits -/

theorem mark_low : ∀ b : Fin 128, b.val ||| 128 = b.val + 128 := by decide +kernel

theorem low_bit (b : UInt8) : b.toUInt64 &&& 0x80 = 0 ↔ b.toNat < 128 := by
  have each : ∀ b : Fin 256, b.val &&& 128 = 0 ↔ b.val < 128 := by decide +kernel
  rw [← UInt64.toNat_inj, UInt64.toNat_and, UInt8.toNat_toUInt64]
  exact each ⟨b.toNat, b.toNat_lt⟩

theorem varUInt64Bytes_eq (fuel : Nat) (v : UInt64) : varUInt64Bytes fuel v = Varint.encode fuel v.toNat := by
  induction fuel generalizing v with
  | zero => rfl
  | succ fuel ih =>
    have large : v ≥ (1 : UInt64) <<< 7 ↔ ¬ v.toNat < 128 := by
      rw [ge_iff_le, UInt64.le_iff_toNat_le, show ((1 : UInt64) <<< 7).toNat = 128 from rfl]
      omega
    unfold varUInt64Bytes
    by_cases small : v.toNat < 128
    · rw [if_neg (by rw [large]; exact not_not_intro small), Varint.encode_last small]
      rfl
    · rw [if_pos (large.mpr small), Varint.encode_more small, ih]
      congr 1
      · apply UInt8.toNat_inj.mp
        have marked := mark_low ⟨v.toNat % 128, by omega⟩
        simp only [UInt64.toNat_toUInt8, UInt64.toNat_or, UInt64.toNat_and, UInt64.reduceToNat,
          UInt8.toNat_ofNat', Varint.low_group, marked]
      · simp [UInt64.toNat_shiftRight, Nat.shiftRight_eq_div_pow]

section
variable {buf rest : List UInt8} {fuel idx offset n : Nat} {shift r : UInt64}

/-- A group is put above the ones before. -/
theorem readGroup {b : UInt8} (place : shift.toNat = 7 * idx) (inside : idx ≤ 9) (low : r.toNat < 2 ^ (7 * idx))
    (fits : r.toNat + b.toNat % 128 * 2 ^ (7 * idx) < 2 ^ 64) :
    (r ||| (b.toUInt64 &&& 0x7F) <<< shift).toNat = r.toNat + b.toNat % 128 * 2 ^ (7 * idx) := by
  simp only [UInt64.toNat_or, UInt64.toNat_shiftLeft, UInt64.toNat_and, UInt8.toNat_toUInt64,
    UInt64.reduceToNat, Varint.low_group, place]
  rw [Nat.mod_eq_of_lt (show 7 * idx < 64 by omega)]
  exact Varint.or_group low fits

theorem readVarUInt64Loop_last (small : n < 128) (place : shift.toNat = 7 * idx) (inside : idx ≤ 9)
    (low : r.toNat < 2 ^ (7 * idx)) (fits : r.toNat + n * 2 ^ (7 * idx) < 2 ^ 64)
    (shape : buf.drop offset = UInt8.ofNat n :: rest) : readVarUInt64Loop buf (fuel + 1) offset shift r =
      .ok (UInt64.ofNat (r.toNat + n * 2 ^ (7 * idx)), offset + 1) := by
  have byte : buf[offset]? = some (UInt8.ofNat n) := by
    rw [← List.head?_drop, shape]
    rfl
  have value : (UInt8.ofNat n).toNat = n := by
    rw [UInt8.toNat_ofNat']
    omega
  have group : (UInt8.ofNat n).toNat % 128 = n := by omega
  have sum := readGroup (b := UInt8.ofNat n) place inside low (by rw [group]; exact fits)
  unfold readVarUInt64Loop
  simp only [byte]
  rw [group] at sum
  rw [if_pos ((low_bit _).mpr (by omega)), ← sum, UInt64.ofNat_toNat]

/-- The loop reads on where the writer wrote on: `n` is what remains of the number. -/
theorem readVarUInt64Loop_encode (round : idx + fuel = 9) (place : shift.toNat = 7 * idx)
    (low : r.toNat < 2 ^ (7 * idx)) (fits : r.toNat + n * 2 ^ (7 * idx) < 2 ^ 64)
    (shape : buf.drop offset = Varint.encode (fuel + 1) n ++ rest) :
    readVarUInt64Loop buf (fuel + 1) offset shift r =
      .ok (UInt64.ofNat (r.toNat + n * 2 ^ (7 * idx)), offset + (Varint.encode (fuel + 1) n).length) := by
  induction fuel generalizing idx offset n shift r with
  | zero =>
    obtain rfl : idx = 9 := by omega
    have small : n < 128 := by omega
    rw [Varint.encode_last small] at shape ⊢
    exact readVarUInt64Loop_last small place (by omega) low fits shape
  | succ fuel ih =>
    by_cases small : n < 128
    · rw [Varint.encode_last small] at shape ⊢
      exact readVarUInt64Loop_last small place (by omega) low fits shape
    · rw [Varint.encode_more small] at shape ⊢
      have byte : buf[offset]? = some (UInt8.ofNat (n % 128 + 128)) := by
        rw [← List.head?_drop, shape]
        rfl
      have value : (UInt8.ofNat (n % 128 + 128)).toNat = n % 128 + 128 := by
        rw [UInt8.toNat_ofNat']
        omega
      have group : (UInt8.ofNat (n % 128 + 128)).toNat % 128 = n % 128 := by omega
      have split := Varint.group_split r.toNat n (7 * idx)
      have sum := readGroup (b := UInt8.ofNat (n % 128 + 128)) place (by omega) low (by rw [group]; omega)
      have after : buf.drop (offset + 1) = Varint.encode (fuel + 1) (n / 128) ++ rest := by
        rw [← List.drop_drop, shape]
        rfl
      unfold readVarUInt64Loop
      simp only [byte]
      rw [if_neg (by rw [low_bit]; omega)]
      rw [group] at sum
      have shifted : (shift + 7).toNat = 7 * (idx + 1) := by
        rw [UInt64.toNat_add, place, show (7 : UInt64).toNat = 7 from rfl]
        omega
      have more := ih (by omega) shifted (by rw [sum]; exact Varint.group_lt low)
        (by rw [sum, Nat.mul_add, split]; exact fits) after
      rw [more, sum, Nat.mul_add, split, List.length_cons]
      congr 2
      omega

end

theorem readVarUInt64Loop_varUInt64Bytes {buf rest : List UInt8} {offset : Nat} {v : UInt64}
    (shape : buf.drop offset = varUInt64Bytes 10 v ++ rest) :
    readVarUInt64Loop buf 10 offset 0 0 = .ok (v, offset + (varUInt64Bytes 10 v).length) := by
  rw [varUInt64Bytes_eq] at shape ⊢
  have bound := v.toNat_lt
  have start : (0 : UInt64).toNat = 7 * 0 := rfl
  rw [readVarUInt64Loop_encode rfl start (by decide) (by simpa using bound) shape]
  simp

/-! ## Signed numbers -/

section
variable {x : BitVec 64}

theorem sign_false (positive : x.msb = false) : x.sshiftRight 63 = 0#64 ∧ x.toNat < 2 ^ 63 := by
  have sign := BitVec.msb_eq_decide x
  rw [positive] at sign
  have small : x.toNat < 2 ^ 63 := by simpa using sign.symm
  refine ⟨?_, small⟩
  rw [BitVec.sshiftRight_eq_of_msb_false positive]
  apply BitVec.eq_of_toNat_eq
  rw [BitVec.toNat_ushiftRight, Nat.shiftRight_eq_div_pow, Nat.div_eq_of_lt small]
  rfl

theorem sign_true (negative : x.msb = true) : x.sshiftRight 63 = BitVec.allOnes 64 ∧ 2 ^ 63 ≤ x.toNat := by
  have sign := BitVec.msb_eq_decide x
  rw [negative] at sign
  have large : 2 ^ 63 ≤ x.toNat := by simpa using sign.symm
  refine ⟨?_, large⟩
  have zero : ~~~x >>> 63 = 0#64 := by
    apply BitVec.eq_of_toNat_eq
    rw [BitVec.toNat_ushiftRight, BitVec.toNat_not, Nat.shiftRight_eq_div_pow, Nat.div_eq_of_lt (by omega)]
    rfl
  rw [BitVec.sshiftRight_eq_of_msb_true negative, zero]
  rfl

/-- The sign is moved to the last bit and back. -/
theorem zigzag_bits (x : BitVec 64) :
    (((x <<< 1) ^^^ x.sshiftRight 63) >>> 1) ^^^ (-(((x <<< 1) ^^^ x.sshiftRight 63) &&& 1#64)) = x := by
  have bound := x.isLt
  cases sign : x.msb with
  | false =>
    obtain ⟨fill, small⟩ := sign_false sign
    have low : (x <<< 1) &&& 1#64 = 0#64 := by
      apply BitVec.eq_of_toNat_eq
      simp [BitVec.toNat_and, Nat.shiftLeft_eq, Nat.and_one_is_mod]
    rw [fill, BitVec.xor_zero, low]
    apply BitVec.eq_of_toNat_eq
    simp [Nat.shiftLeft_eq, Nat.shiftRight_eq_div_pow]
    omega
  | true =>
    obtain ⟨fill, large⟩ := sign_true sign
    have low : ~~~(x <<< 1) &&& 1#64 = 1#64 := by
      apply BitVec.eq_of_toNat_eq
      rw [BitVec.toNat_and, BitVec.toNat_not]
      simp [Nat.shiftLeft_eq, Nat.and_one_is_mod]
      omega
    have ones : -1#64 = BitVec.allOnes 64 := by decide
    rw [fill, BitVec.xor_allOnes, low, ones, BitVec.xor_allOnes]
    apply BitVec.eq_of_toNat_eq
    rw [BitVec.toNat_not, BitVec.toNat_ushiftRight, BitVec.toNat_not, BitVec.toNat_shiftLeft]
    simp only [Nat.shiftLeft_eq, Nat.shiftRight_eq_div_pow]
    omega

end

theorem unzigzag_zigzag (v : Int64) : unzigzag (zigzag v) = v := Int64.toBitVec_inj.mp (zigzag_bits v.toBitVec)

/-! ## The memory after writing and reading -/

def Memory.appended (m : Memory) (bytes : List UInt8) : Memory :=
  { m with bb := { m.bb with buf := m.bb.buf.append bytes } }

def Memory.advanced (m : Memory) (count : Nat) : Memory :=
  { m with bb := { m.bb with offset := m.bb.offset + count } }

def Memory.unread (m : Memory) : List UInt8 := m.bb.buf.data.drop m.bb.offset

section
variable {m : Memory} {tail : List UInt8}

theorem unread_advanced {bytes : List UInt8} (input : m.unread = bytes ++ tail) :
    (m.advanced bytes.length).unread = tail := by
  unfold Memory.unread Memory.advanced at *
  rw [← List.drop_drop, input, List.drop_left]

theorem nextByte_eq {b : UInt8} (input : m.unread = b :: tail) : nextByte m = .ok b (m.advanced 1) := by
  have byte : m.bb.buf.data[m.bb.offset]? = some b := by
    rw [← List.head?_drop]
    exact congrArg List.head? input
  unfold nextByte
  rw [byte]
  rfl

theorem nextBytes_eq {bytes : List UInt8} (inside : m.bb.offset ≤ m.bb.buf.data.length)
    (input : m.unread = bytes ++ tail) : nextBytes bytes.length m = .ok bytes (m.advanced bytes.length) := by
  have count := congrArg List.length input
  simp only [Memory.unread, List.length_drop, List.length_append] at count
  have part : ((m.bb.buf.data ++ m.bb.buf.spare).drop m.bb.offset).take bytes.length = bytes := by
    rw [List.drop_append_of_le_length inside]
    change (m.unread ++ m.bb.buf.spare).take bytes.length = bytes
    rw [input, List.append_assoc, List.take_left]
  unfold nextBytes
  simp only [Int.toNat_natCast, part]
  rw [if_pos (by omega)]
  rfl

theorem readVarUInt64_eq {v : UInt64} (input : m.unread = varUInt64Bytes 10 v ++ tail) :
    readVarUInt64 m = .ok v (m.advanced (varUInt64Bytes 10 v).length) := by
  unfold readVarUInt64
  rw [readVarUInt64Loop_varUInt64Bytes input]
  rfl

theorem varUInt64Bytes_pos (v : UInt64) : 0 < (varUInt64Bytes 10 v).length := by
  rw [varUInt64Bytes_eq]
  exact Varint.encode_length_pos 9 v.toNat

end

end Xxlib.Go
