import Xxlib.Lib.Bytes
import Xxlib.Lib.Varint

/-! Integers of variable length (`xx_bytesutils.hpp`).

A buffer is the list of its bytes up to `dataLen`. What lies behind is never read.
-/

set_option autoImplicit false

namespace Xxlib.Uv4

open Lib

/-- The loop of `VarWrite7`. A `uint32_t` has five groups of seven bits. -/
def varWrite7Loop : Nat → Nat → List UInt8
  | 0, _ => []
  | fuel + 1, n =>
      let b7 := UInt8.ofNat n
      let n := n >>> 7
      if n ≠ 0 then (b7 ||| 0x80) :: varWrite7Loop fuel n else [b7]

def varWrite7 (n : UInt32) : List UInt8 := varWrite7Loop 5 n.toNat

/-- The loop of `VarRead7`: the number and the offset behind it, or the code that is returned. The
fifth byte ends it. -/
def varRead7Loop (srcBuf : List UInt8) (offset dataLen : Nat) : Nat → Nat → Nat → Nat → Except Int (Nat × Nat)
  | 0, _, _, _ => .error (-2)
  | fuel + 1, idx, lshift, i =>
      let b7 := byteAt srcBuf (offset + idx)
      let idx := idx + 1
      if b7 > 0x7F then
        if idx = 5 then .error (-2)
        else if idx ≥ dataLen then .error (-1)
        else varRead7Loop srcBuf offset dataLen fuel idx (lshift + 7)
          (i ||| ((b7 &&& 0x7F) <<< lshift) % 2 ^ 32)
      else if idx = 5 ∧ b7 > 15 then .error (-2)
      else .ok (i ||| (b7 <<< lshift) % 2 ^ 32, offset + idx)

def varRead7 (srcBuf : List UInt8) (offset : Nat) : Except Int (Nat × Nat) :=
  if offset ≥ srcBuf.length then .error (-1)
  else varRead7Loop srcBuf offset (srcBuf.length - offset) 5 0 0 0

/-- `VarWrite7` for a `uint16_t`. -/
def varWrite7U16 (n : UInt16) : List UInt8 := varWrite7Loop 3 n.toNat

/-- The loop of `VarRead7` for a `uint16_t`, and for a `uint32_t`: the byte `last` ends it, and is at most `top`. -/
def varRead7Groups (last top : Nat) (srcBuf : List UInt8) (offset dataLen : Nat) :
    Nat → Nat → Nat → Nat → Except Int (Nat × Nat)
  | 0, _, _, _ => .error (-2)
  | fuel + 1, idx, lshift, i =>
      let b7 := byteAt srcBuf (offset + idx)
      let idx := idx + 1
      if b7 > 0x7F then
        if idx = last then .error (-2)
        else if idx ≥ dataLen then .error (-1)
        else varRead7Groups last top srcBuf offset dataLen fuel idx (lshift + 7)
          (i ||| ((b7 &&& 0x7F) <<< lshift) % 2 ^ 32)
      else if idx = last ∧ b7 > top then .error (-2)
      else .ok (i ||| (b7 <<< lshift) % 2 ^ 32, offset + idx)

/-- `VarRead7` for a `uint16_t`. -/
def varRead7U16 (srcBuf : List UInt8) (offset : Nat) : Except Int (Nat × Nat) :=
  if offset ≥ srcBuf.length then .error (-1)
  else varRead7Groups 3 3 srcBuf offset (srcBuf.length - offset) 3 0 0 0

theorem varRead7Loop_eq (srcBuf : List UInt8) (offset dataLen fuel idx lshift i : Nat) :
    varRead7Loop srcBuf offset dataLen fuel idx lshift i =
      varRead7Groups 5 15 srcBuf offset dataLen fuel idx lshift i := by
  induction fuel generalizing idx lshift i with
  | zero => rfl
  | succ fuel ih => simp only [varRead7Loop, varRead7Groups, ih]

theorem mark_group : ∀ b : Fin 256, b.val ||| 128 = b.val % 128 + 128 := by decide +kernel

theorem marked (n : Nat) : UInt8.ofNat n ||| 0x80 = UInt8.ofNat (n % 128 + 128) := by
  apply UInt8.toNat_inj.mp
  have marked := mark_group ⟨n % 256, Nat.mod_lt n (by decide)⟩
  simp only [UInt8.toNat_or, UInt8.toNat_ofNat', UInt8.reduceToNat, Nat.reducePow] at marked ⊢
  omega

theorem varWrite7Loop_eq (fuel n : Nat) : varWrite7Loop fuel n = Varint.encode fuel n := by
  induction fuel generalizing n with
  | zero => rfl
  | succ fuel ih =>
    unfold varWrite7Loop
    simp only [Nat.shiftRight_eq_div_pow, ih]
    by_cases small : n < 128
    · rw [if_neg (by omega), Varint.encode_last small]
    · rw [if_pos (by omega), Varint.encode_more small, marked]

theorem inside_of_drop {buf bytes rest : List UInt8} {offset : Nat} (shape : buf.drop offset = bytes ++ rest)
    (some : 0 < bytes.length) : offset < buf.length := by
  have length := congrArg List.length shape
  rw [List.length_drop, List.length_append] at length
  omega

section
variable {last top bits : Nat} {srcBuf rest : List UInt8} {offset fuel idx i n dataLen : Nat}

/-- The last group of a number. -/
theorem varRead7Groups_last (small : n < 128) (limit : idx + 1 = last → n ≤ top) (low : i < 2 ^ (7 * idx))
    (fits : i + n * 2 ^ (7 * idx) < 2 ^ 32) (shape : srcBuf.drop (offset + idx) = UInt8.ofNat n :: rest) :
    varRead7Groups last top srcBuf offset dataLen (fuel + 1) idx (7 * idx) i =
      .ok (i + n * 2 ^ (7 * idx), offset + (idx + 1)) := by
  have byte : byteAt srcBuf (offset + idx) = n := by
    rw [byteAt_cons_of_drop shape, UInt8.toNat_ofNat']
    omega
  unfold varRead7Groups
  simp only [byte]
  rw [if_neg (by omega), if_neg (by omega), Varint.or_group low fits]

/-- The loop reads on where the writer wrote on: `n` is what remains of the number. -/
theorem varRead7Groups_encode (word : bits ≤ 32) (room : 2 ^ bits = (top + 1) * 2 ^ (7 * (last - 1))) (byte : top < 128)
    (round : idx + fuel + 1 = last) (low : i < 2 ^ (7 * idx)) (fits : i + n * 2 ^ (7 * idx) < 2 ^ bits)
    (shape : srcBuf.drop (offset + idx) = Varint.encode (fuel + 1) n ++ rest) :
    varRead7Groups last top srcBuf offset (srcBuf.length - offset) (fuel + 1) idx (7 * idx) i =
      .ok (i + n * 2 ^ (7 * idx), offset + idx + (Varint.encode (fuel + 1) n).length) := by
  have fits' : ∀ {value : Nat}, value < 2 ^ bits → value < 2 ^ 32 :=
    fun below => Nat.lt_of_lt_of_le below (Nat.pow_le_pow_right (by decide) word)
  have limit : ∀ {idx i n : Nat}, i + n * 2 ^ (7 * idx) < 2 ^ bits → idx + 1 = last → n ≤ top := by
    intro idx i n fits end'
    rw [room, ← end', Nat.add_sub_cancel] at fits
    exact Nat.lt_succ_iff.mp (Nat.lt_of_mul_lt_mul_right (Nat.lt_of_le_of_lt (Nat.le_add_left _ _) fits))
  induction fuel generalizing idx i n with
  | zero =>
    have small : n < 128 := Nat.lt_of_le_of_lt (limit fits round) byte
    rw [Varint.encode_last small] at shape ⊢
    exact varRead7Groups_last small (limit fits) low (fits' fits) shape
  | succ fuel ih =>
    by_cases small : n < 128
    · rw [Varint.encode_last small] at shape ⊢
      exact varRead7Groups_last small (limit fits) low (fits' fits) shape
    · rw [Varint.encode_more small] at shape ⊢
      have byte : byteAt srcBuf (offset + idx) = n % 128 + 128 := by
        rw [byteAt_cons_of_drop shape, UInt8.toNat_ofNat']
        omega
      have after : srcBuf.drop (offset + (idx + 1)) = Varint.encode (fuel + 1) (n / 128) ++ rest := by
        rw [show offset + (idx + 1) = (offset + idx) + 1 by omega, ← List.drop_drop, shape]
        rfl
      have behind : 0 < (srcBuf.drop (offset + (idx + 1))).length := by
        rw [after, List.length_append]
        have := Varint.encode_length_pos fuel (n / 128)
        omega
      rw [List.length_drop] at behind
      have split := Varint.group_split i n (7 * idx)
      have below := fits' fits
      have partial' : i ||| ((n % 128 + 128 &&& 0x7F) <<< (7 * idx)) % 2 ^ 32 = i + n % 128 * 2 ^ (7 * idx) := by
        rw [Varint.low_group, show (n % 128 + 128) % 128 = n % 128 by omega]
        exact Varint.or_group low (by omega)
      unfold varRead7Groups
      simp only [byte]
      rw [if_pos (by omega), if_neg (by omega), if_neg (by omega), partial']
      have next : varRead7Groups last top srcBuf offset (srcBuf.length - offset) (fuel + 1) (idx + 1) (7 * (idx + 1))
          (i + n % 128 * 2 ^ (7 * idx)) = .ok (i + n % 128 * 2 ^ (7 * idx) + n / 128 * 2 ^ (7 * (idx + 1)),
            offset + (idx + 1) + (Varint.encode (fuel + 1) (n / 128)).length) :=
        ih (by omega) (Varint.group_lt low) (by rw [Nat.mul_add, split]; exact fits) after
      rw [Nat.mul_add] at next
      rw [next, split, List.length_cons]
      congr 2
      omega

end

/-- `VarRead7` undoes `VarWrite7`, whatever follows. -/
theorem varRead7_varWrite7 {buf rest : List UInt8} {offset : Nat} {n : UInt32}
    (shape : buf.drop offset = varWrite7 n ++ rest) :
    varRead7 buf offset = .ok (n.toNat, offset + (varWrite7 n).length) := by
  unfold varWrite7 at shape ⊢
  rw [varWrite7Loop_eq] at shape ⊢
  have inside := inside_of_drop shape (Varint.encode_length_pos 4 n.toNat)
  unfold varRead7
  rw [if_neg (by omega), varRead7Loop_eq]
  have bound := n.toNat_lt
  have read : varRead7Groups 5 15 buf offset (buf.length - offset) 5 0 (7 * 0) 0 =
      .ok (0 + n.toNat * 2 ^ (7 * 0), offset + 0 + (Varint.encode 5 n.toNat).length) :=
    varRead7Groups_encode (Nat.le_refl 32) rfl (by decide) rfl (by decide) (by omega) shape
  simpa using read

theorem varRead7U16_varWrite7U16 {buf rest : List UInt8} {offset : Nat} {n : UInt16}
    (shape : buf.drop offset = varWrite7U16 n ++ rest) :
    varRead7U16 buf offset = .ok (n.toNat, offset + (varWrite7U16 n).length) := by
  unfold varWrite7U16 at shape ⊢
  rw [varWrite7Loop_eq] at shape ⊢
  have inside := inside_of_drop shape (Varint.encode_length_pos 2 n.toNat)
  unfold varRead7U16
  rw [if_neg (by omega)]
  have bound := n.toNat_lt
  have read : varRead7Groups 3 3 buf offset (buf.length - offset) 3 0 (7 * 0) 0 =
      .ok (0 + n.toNat * 2 ^ (7 * 0), offset + 0 + (Varint.encode 3 n.toNat).length) :=
    varRead7Groups_encode (by decide : 16 ≤ 32) rfl (by decide) rfl (by decide) (by omega) shape
  simpa using read

/-! ## Words of 64 bits -/

/-- The loop of `VarWrite7` for a `uint64_t`, with `rounds` groups left. The ninth byte holds what remains. -/
def varWrite7U64Loop : Nat → Nat → List UInt8
  | 0, n => [UInt8.ofNat n]
  | rounds + 1, n =>
      let b7 := UInt8.ofNat n
      let n := n >>> 7
      if n ≠ 0 then (b7 ||| 0x80) :: varWrite7U64Loop rounds n else [b7]

def varWrite7U64 (n : UInt64) : List UInt8 := varWrite7U64Loop 8 n.toNat

/-- The loop of `VarRead7` for a `uint64_t`. -/
def varRead7U64Loop (srcBuf : List UInt8) (offset dataLen : Nat) : Nat → Nat → Nat → Nat → Except Int (Nat × Nat)
  | 0, _, _, _ => .error (-1)
  | fuel + 1, idx, lshift, i =>
      let b7 := byteAt srcBuf (offset + idx)
      let idx := idx + 1
      if b7 > 0x7F then
        if idx ≥ dataLen then .error (-1)
        else
          let i := i ||| ((b7 &&& 0x7F) <<< lshift) % 2 ^ 64
          if idx < 8 then varRead7U64Loop srcBuf offset dataLen fuel idx (lshift + 7) i
          else .ok (i ||| (byteAt srcBuf (offset + idx) <<< 56) % 2 ^ 64, offset + (idx + 1))
      else .ok (i ||| (b7 <<< lshift) % 2 ^ 64, offset + idx)

def varRead7U64 (srcBuf : List UInt8) (offset : Nat) : Except Int (Nat × Nat) :=
  if offset ≥ srcBuf.length then .error (-1)
  else varRead7U64Loop srcBuf offset (srcBuf.length - offset) 8 0 0 0

theorem varWrite7U64Loop_eq (rounds n : Nat) : varWrite7U64Loop rounds n = Varint.encodeFull rounds n := by
  induction rounds generalizing n with
  | zero => rfl
  | succ rounds ih =>
    unfold varWrite7U64Loop
    simp only [Nat.shiftRight_eq_div_pow, ih]
    by_cases small : n < 128
    · rw [if_neg (by omega), Varint.encodeFull_last small]
    · rw [if_pos (by omega), Varint.encodeFull_more small, marked]

section
variable {srcBuf rest : List UInt8} {offset fuel idx i n : Nat}

/-- The last group of a number that ends before the whole byte. -/
theorem varRead7U64Loop_last {dataLen : Nat} (small : n < 128) (low : i < 2 ^ (7 * idx))
    (fits : i + n * 2 ^ (7 * idx) < 2 ^ 64) (shape : srcBuf.drop (offset + idx) = UInt8.ofNat n :: rest) :
    varRead7U64Loop srcBuf offset dataLen (fuel + 1) idx (7 * idx) i =
      .ok (i + n * 2 ^ (7 * idx), offset + (idx + 1)) := by
  have byte : byteAt srcBuf (offset + idx) = n := by
    rw [byteAt_cons_of_drop shape, UInt8.toNat_ofNat']
    omega
  unfold varRead7U64Loop
  simp only [byte]
  rw [if_neg (by omega), Varint.or_group low fits]

/-- A group that another one follows: what `varRead7U64Loop` does with it. -/
theorem varRead7U64Loop_more (low : i < 2 ^ (7 * idx)) (fits : i + n * 2 ^ (7 * idx) < 2 ^ 64)
    (shape : srcBuf.drop (offset + idx) = UInt8.ofNat (n % 128 + 128) :: rest) (behind : rest ≠ []) :
    varRead7U64Loop srcBuf offset (srcBuf.length - offset) (fuel + 1) idx (7 * idx) i =
      if idx + 1 < 8 then
        varRead7U64Loop srcBuf offset (srcBuf.length - offset) fuel (idx + 1) (7 * (idx + 1)) (i + n % 128 * 2 ^ (7 * idx))
      else .ok ((i + n % 128 * 2 ^ (7 * idx)) ||| (byteAt srcBuf (offset + (idx + 1)) <<< 56) % 2 ^ 64,
        offset + (idx + 1 + 1)) := by
  have byte : byteAt srcBuf (offset + idx) = n % 128 + 128 := by
    rw [byteAt_cons_of_drop shape, UInt8.toNat_ofNat']
    omega
  have length := congrArg List.length shape
  have some := List.length_pos_of_ne_nil behind
  rw [List.length_drop, List.length_cons] at length
  have split := Varint.group_split i n (7 * idx)
  have partial' : i ||| ((n % 128 + 128 &&& 0x7F) <<< (7 * idx)) % 2 ^ 64 = i + n % 128 * 2 ^ (7 * idx) := by
    rw [Varint.low_group, show (n % 128 + 128) % 128 = n % 128 by omega]
    exact Varint.or_group low (by omega)
  rw [varRead7U64Loop]
  simp only [byte]
  rw [if_pos (by omega), if_neg (by omega), partial']
  rfl

/-- The loop reads on where the writer wrote on. -/
theorem varRead7U64Loop_encode (round : idx + fuel = 7) (low : i < 2 ^ (7 * idx))
    (fits : i + n * 2 ^ (7 * idx) < 2 ^ 64) (shape : srcBuf.drop (offset + idx) = Varint.encodeFull (fuel + 1) n ++ rest) :
    varRead7U64Loop srcBuf offset (srcBuf.length - offset) (fuel + 1) idx (7 * idx) i =
      .ok (i + n * 2 ^ (7 * idx), offset + idx + (Varint.encodeFull (fuel + 1) n).length) := by
  induction fuel generalizing idx i n with
  | zero =>
    obtain rfl : idx = 7 := by omega
    by_cases small : n < 128
    · rw [Varint.encodeFull_last small] at shape ⊢
      exact varRead7U64Loop_last small low fits shape
    · -- the ninth byte is a whole one
      rw [Varint.encodeFull_more small] at shape ⊢
      rw [varRead7U64Loop_more low fits shape (by simp [Varint.encodeFull]), if_neg (by decide)]
      have after : srcBuf.drop (offset + (7 + 1)) = UInt8.ofNat (n / 128) :: rest := by
        rw [show offset + (7 + 1) = (offset + 7) + 1 by omega, ← List.drop_drop, shape]
        rfl
      have split := Varint.group_split i n (7 * 7)
      have low' := Varint.group_lt (b := n) low
      have byte : byteAt srcBuf (offset + (7 + 1)) = n / 128 := by
        rw [byteAt_cons_of_drop after, UInt8.toNat_ofNat']
        omega
      rw [byte, Varint.or_group low' (by omega), split]
      rfl
  | succ fuel ih =>
    by_cases small : n < 128
    · rw [Varint.encodeFull_last small] at shape ⊢
      exact varRead7U64Loop_last small low fits shape
    · rw [Varint.encodeFull_more small] at shape ⊢
      have some := Varint.encodeFull_length_pos (fuel + 1) (n / 128)
      have after : srcBuf.drop (offset + (idx + 1)) = Varint.encodeFull (fuel + 1) (n / 128) ++ rest := by
        rw [show offset + (idx + 1) = (offset + idx) + 1 by omega, ← List.drop_drop, shape]
        rfl
      have split := Varint.group_split i n (7 * idx)
      have next := ih (by omega) (Varint.group_lt low) (by rw [Nat.mul_add, split]; exact fits) after
      have behind : Varint.encodeFull (fuel + 1) (n / 128) ++ rest ≠ [] :=
        List.append_ne_nil_of_left_ne_nil (List.ne_nil_of_length_pos some) rest
      rw [varRead7U64Loop_more low fits shape behind, if_pos (by omega), next, Nat.mul_add, split, List.length_cons]
      congr 2
      omega

end

theorem varRead7U64_varWrite7U64 {buf rest : List UInt8} {offset : Nat} {n : UInt64}
    (shape : buf.drop offset = varWrite7U64 n ++ rest) :
    varRead7U64 buf offset = .ok (n.toNat, offset + (varWrite7U64 n).length) := by
  unfold varWrite7U64 at shape ⊢
  rw [varWrite7U64Loop_eq] at shape ⊢
  have inside := inside_of_drop shape (Varint.encodeFull_length_pos 8 n.toNat)
  unfold varRead7U64
  rw [if_neg (by omega)]
  have bound := n.toNat_lt
  have read : varRead7U64Loop buf offset (buf.length - offset) 8 0 (7 * 0) 0 =
      .ok (0 + n.toNat * 2 ^ (7 * 0), offset + 0 + (Varint.encodeFull 8 n.toNat).length) :=
    varRead7U64Loop_encode rfl (by decide) (by omega) shape
  simpa using read

end Xxlib.Uv4
