import Xxlib.Go.Methods
import Xxlib.Uv3.ObjectGraph

/-! Integers on the wire between Go (`xx_bbuffer.go`) and C++ (`test_uv_3/xx_bbuffer.h`).

Go widens every integer of more than a byte to 64 bits, while the templates of C++ work on its own width.
-/

set_option autoImplicit false

namespace Xxlib.Interop

open Lib

/-- The types that both sides have. -/
inductive IntType where
  | bool
  | int8
  | uint8
  | int16
  | uint16
  | int32
  | uint32
  | int64
  | uint64
  deriving DecidableEq

def IntType.Value : IntType → Type
  | .bool => Bool
  | .int8 | .uint8 => BitVec 8
  | .int16 | .uint16 => BitVec 16
  | .int32 | .uint32 => BitVec 32
  | .int64 | .uint64 => BitVec 64

/-! ## The two sides -/

/-- The typed writer of Go. -/
def goWrite : (type : IntType) → type.Value → Go.Run Unit
  | .bool, v => Go.writeBool v
  | .int8, v => Go.writeInt8 (.ofBitVec v)
  | .uint8, v => Go.writeUInt8 ⟨v⟩
  | .int16, v => Go.writeInt16 (.ofBitVec v)
  | .uint16, v => Go.writeUInt16 ⟨v⟩
  | .int32, v => Go.writeInt32 (.ofBitVec v)
  | .uint32, v => Go.writeUInt32 ⟨v⟩
  | .int64, v => Go.writeInt64 (.ofBitVec v)
  | .uint64, v => Go.writeUInt64 ⟨v⟩

def goRead : (type : IntType) → Go.Run type.Value
  | .bool => Go.readBool
  | .int8 => return (← Go.readInt8).toBitVec
  | .uint8 => return (← Go.readUInt8).toBitVec
  | .int16 => return (← Go.readInt16).toBitVec
  | .uint16 => return (← Go.readUInt16).toBitVec
  | .int32 => return (← Go.readInt32).toBitVec
  | .uint32 => return (← Go.readUInt32).toBitVec
  | .int64 => return (← Go.readInt64).toBitVec
  | .uint64 => return (← Go.readUInt64).toBitVec

/-- `BFuncs<T>::WriteTo` -/
def cppWrite : (type : IntType) → type.Value → Uv3.Run Unit
  | .bool, v => Uv3.append [Uv3.boolByte v]
  | .int8, v => Uv3.append [⟨v⟩]
  | .uint8, v => Uv3.append [⟨v⟩]
  | .int16, v => Uv3.writeVarIntger (w := 16) true v
  | .uint16, v => Uv3.writeVarIntger (w := 16) false v
  | .int32, v => Uv3.writeVarIntger (w := 32) true v
  | .uint32, v => Uv3.writeVarIntger (w := 32) false v
  | .int64, v => Uv3.writeVarIntger (w := 64) true v
  | .uint64, v => Uv3.writeVarIntger (w := 64) false v

/-- `BFuncs<T>::ReadFrom` -/
def cppRead : (type : IntType) → Uv3.Run type.Value
  | .bool => do
      -- any other byte is not a value of `bool`
      match ← Uv3.readFixed (.code (-12)) 1 with
      | [0] => return false
      | [1] => return true
      | _ => throw .invalid
  | .int8 | .uint8 => do
      match ← Uv3.readFixed (.code (-12)) 1 with
      | [b] => return b.toBitVec
      | _ => throw .invalid
  | .int16 => Uv3.readVarInteger true 16
  | .uint16 => Uv3.readVarInteger false 16
  | .int32 => Uv3.readVarInteger true 32
  | .uint32 => Uv3.readVarInteger false 32
  | .int64 => Uv3.readVarInteger true 64
  | .uint64 => Uv3.readVarInteger false 64

/-- Both sides write the same bytes, and each one reads the value back, wherever the bytes are. -/
def Agrees (type : IntType) (v : type.Value) : Prop :=
  ∃ bytes : List UInt8, (∀ m, goWrite type v m = .ok () (m.appended bytes)) ∧
    (∀ m, cppWrite type v m = .ok () (m.appended bytes)) ∧
    (∀ (m : Go.Memory) (tail : List UInt8), m.unread = bytes ++ tail →
      goRead type m = .ok v (m.advanced bytes.length)) ∧
    ∀ (m : Uv3.Memory) (tail : List UInt8), m.unread = bytes ++ tail →
      cppRead type m = .ok v (m.advanced bytes.length)

/-- The value, if it is one of 64 bits, also fits into 32 bits. -/
def Short : (type : IntType) → type.Value → Prop
  | .int64, v => -2 ^ 31 ≤ BitVec.toInt (n := 64) v ∧ BitVec.toInt (n := 64) v < 2 ^ 31
  | .uint64, v => BitVec.toNat (w := 64) v < 2 ^ 32
  | _, _ => True

/-! ## The bytes -/

/-- Go writes the bytes of the same number in a wider word. -/
theorem goBytes_eq {w : Nat} (u : BitVec w) {v : UInt64} (some : 0 < w) (same : v.toNat = u.toNat) (fits : w ≤ 64) :
    Go.varUInt64Bytes 10 v = Uv3.varInteger u := by
  have few : u.toNat < 2 ^ (7 * (w / 7 + 1)) :=
    Nat.lt_of_lt_of_le u.isLt (Nat.pow_le_pow_right (by decide) (by omega))
  -- Go allows ten groups for every type, C++ as many as the type needs
  have size : 10 = w / 7 + 1 + (9 - w / 7) := by omega
  rw [Go.varUInt64Bytes_eq, same, Uv3.varInteger, Uv3.varIntegerLoop_eq, size, Varint.encode_eq_encodeFull few]

/-- The same integer has the same number in a wider word. -/
theorem goZigzag_toNat {w : Nat} (x : BitVec w) {v : Int64} (some : 0 < w) (same : v.toBitVec.toInt = x.toInt) :
    (Go.zigzag v).toNat = (zigZagEncode x).toNat := by
  have wide : ((Go.zigzag v).toNat : Int) = _ := zigZagEncode_toNat (by decide) v.toBitVec
  have narrow := zigZagEncode_toNat some x
  rw [same] at wide
  omega

section
variable {m : Uv3.Memory} {tail : List UInt8}

theorem readVarInteger_signed {w : Nat} {x : BitVec w} (some : 0 < w) (word : (zigZagEncode x).toNat < 2 ^ 32)
    (input : m.unread = Uv3.varInteger (zigZagEncode x) ++ tail) : Uv3.readVarInteger true w m =
      .ok x (m.advanced (Uv3.varInteger (zigZagEncode x)).length) := by
  have read : Uv3.readVarInteger true w m = _ := Uv3.readVarInteger_eq some word input
  rwa [if_pos rfl, zigZagDecode_zigZagEncode] at read

theorem readVarInteger_unsigned {w : Nat} {x : BitVec w} (some : 0 < w) (word : x.toNat < 2 ^ 32)
    (input : m.unread = Uv3.varInteger x ++ tail) : Uv3.readVarInteger false w m =
      .ok x (m.advanced (Uv3.varInteger x).length) := by
  have read : Uv3.readVarInteger false w m = _ := Uv3.readVarInteger_eq some word input
  rwa [if_neg Bool.false_ne_true] at read

/-- Every group is cut to 32 bits before it is added. -/
theorem readVarIntegerLoop_word {w fuel shift u r : Nat} {m m' : Uv3.Memory} (low : u < 2 ^ 32)
    (read : Uv3.readVarIntegerLoop w fuel shift u m = .ok r m') : r < 2 ^ 32 := by
  induction fuel generalizing shift u m with
  | zero => cases read
  | succ fuel ih =>
    unfold Uv3.readVarIntegerLoop at read
    by_cases inside : shift < w
    · rw [if_pos inside] at read
      change EStateM.bind Uv3.nextByte _ m = _ at read
      unfold EStateM.bind at read
      cases byte : Uv3.nextByte m with
      | error fault m' =>
        rw [byte] at read
        cases read
      | ok b m' =>
        rw [byte] at read
        simp only at read
        by_cases wide : shift ≥ 32
        · rw [if_pos wide] at read
          cases read
        · rw [if_neg wide] at read
          -- the byte is promoted to an `int`, whatever the width of the result
          have group : ((b.toNat &&& 0x7F) <<< shift) % 2 ^ 32 % 2 ^ w < 2 ^ 32 :=
            Nat.lt_of_le_of_lt (Nat.mod_le _ _) (Nat.mod_lt _ (by decide))
          have sum := Nat.or_lt_two_pow low group
          by_cases last : b.toNat &&& 0x80 = 0
          · rw [if_pos last] at read
            cases read
            exact sum
          · rw [if_neg last] at read
            exact ih sum read
    · rw [if_neg inside] at read
      cases read

theorem readVarInteger_word {w : Nat} {signed : Bool} {v : BitVec w} {m' : Uv3.Memory}
    (read : Uv3.readVarInteger signed w m = .ok v m') :
    (if signed then zigZagEncode v else v).toNat < 2 ^ 32 := by
  unfold Uv3.readVarInteger at read
  change EStateM.bind (Uv3.readVarIntegerLoop w w 0 0) _ m = _ at read
  unfold EStateM.bind at read
  cases number : Uv3.readVarIntegerLoop w w 0 0 m with
  | error fault m' =>
    rw [number] at read
    cases read
  | ok u m' =>
    rw [number] at read
    have below := readVarIntegerLoop_word (by decide) number
    have small : (BitVec.ofNat w u).toNat < 2 ^ 32 := by
      rw [BitVec.toNat_ofNat]
      exact Nat.lt_of_le_of_lt (Nat.mod_le _ _) below
    cases signed with
    | false =>
      cases read
      exact small
    | true =>
      cases read
      rw [if_pos rfl, if_pos rfl, zigZagEncode_zigZagDecode]
      exact small

/-- A byte is read by `memcpy`. -/
theorem readFixed_byte {b : UInt8} (input : m.unread = [b] ++ tail) :
    Uv3.readFixed (.code (-12)) 1 m = .ok [b] (m.advanced 1) := by
  have inside : m.bb.offset ≤ m.bb.buf.length := by
    have length := congrArg List.length input
    simp only [Uv3.Memory.unread, List.length_drop, List.length_append, List.length_singleton] at length
    omega
  have read : Uv3.readFixed (.code (-12)) [b].length m = _ := Uv3.readFixed_eq _ inside input
  exact read

end

section
variable {m : Go.Memory} {tail : List UInt8}

theorem goReadVarInt64_eq {v : Int64} (input : m.unread = Go.varUInt64Bytes 10 (Go.zigzag v) ++ tail) :
    Go.readVarInt64 m = .ok v (m.advanced (Go.varUInt64Bytes 10 (Go.zigzag v)).length) := by
  have read : Go.readVarInt64 m = .ok (Go.unzigzag (Go.zigzag v)) _ := bind_run (Go.readVarUInt64_eq input) rfl
  rwa [Go.unzigzag_zigzag] at read

end

/-! ## Each type -/

/-- The four parts, once both sides write the same bytes. -/
theorem agrees_of_bytes {type : IntType} {v : type.Value} (other bytes : List UInt8) (same : other = bytes)
    (goWrites : ∀ m, goWrite type v m = .ok () (m.appended other))
    (cppWrites : ∀ m, cppWrite type v m = .ok () (m.appended bytes))
    (goReads : ∀ (m : Go.Memory) (tail : List UInt8), m.unread = other ++ tail →
      goRead type m = .ok v (m.advanced other.length))
    (cppReads : ∀ (m : Uv3.Memory) (tail : List UInt8), m.unread = bytes ++ tail →
      cppRead type m = .ok v (m.advanced bytes.length)) : Agrees type v := by
  subst same
  exact ⟨other, goWrites, cppWrites, goReads, cppReads⟩

theorem agrees_bool (v : Bool) : Agrees .bool v := by
  refine agrees_of_bytes [if v then 1 else 0] [Uv3.boolByte v] (by cases v <;> rfl) (fun _ => rfl)
    (fun _ => rfl) (fun m tail input => ?_) fun m tail input => ?_
  · have read := Go.nextByte_eq input
    cases v with
    | false => exact bind_run read rfl
    | true => exact bind_run read rfl
  · have read := readFixed_byte input
    cases v with
    | false => exact bind_run read rfl
    | true => exact bind_run read rfl

theorem agrees_int8 (v : BitVec 8) : Agrees .int8 v :=
  agrees_of_bytes [⟨v⟩] [⟨v⟩] rfl (fun _ => rfl) (fun _ => rfl)
    (fun _ _ input => bind_run (bind_run (Go.nextByte_eq input) rfl) rfl)
    fun _ _ input => bind_run (readFixed_byte input) rfl

theorem agrees_uint8 (v : BitVec 8) : Agrees .uint8 v :=
  agrees_of_bytes [⟨v⟩] [⟨v⟩] rfl (fun _ => rfl) (fun _ => rfl)
    (fun _ _ input => bind_run (Go.nextByte_eq input) rfl)
    fun _ _ input => bind_run (readFixed_byte input) rfl

theorem agrees_uint16 (v : BitVec 16) : Agrees .uint16 v := by
  have word := v.isLt
  refine agrees_of_bytes (Go.varUInt64Bytes 10 (UInt16.toUInt64 ⟨v⟩)) (Uv3.varInteger v)
    (goBytes_eq v (by decide) (UInt16.toNat_toUInt64 _) (by decide)) (fun _ => rfl) (fun _ => rfl)
    (fun m tail input => ?_) fun m tail input => readVarInteger_unsigned (by decide) (by omega) input
  have read : Go.readUInt16 m = .ok (UInt16.toUInt64 ⟨v⟩).toUInt16 _ := bind_run (Go.readVarUInt64_eq input) rfl
  rw [UInt16.toUInt16_toUInt64] at read
  exact bind_run read rfl

theorem agrees_uint32 (v : BitVec 32) : Agrees .uint32 v := by
  have word := v.isLt
  refine agrees_of_bytes (Go.varUInt64Bytes 10 (UInt32.toUInt64 ⟨v⟩)) (Uv3.varInteger v)
    (goBytes_eq v (by decide) (UInt32.toNat_toUInt64 _) (by decide)) (fun _ => rfl) (fun _ => rfl)
    (fun m tail input => ?_) fun m tail input => readVarInteger_unsigned (by decide) (by omega) input
  have read : Go.readUInt32 m = .ok (UInt32.toUInt64 ⟨v⟩).toUInt32 _ := bind_run (Go.readVarUInt64_eq input) rfl
  rw [UInt32.toUInt32_toUInt64] at read
  exact bind_run read rfl

theorem agrees_uint64 (v : BitVec 64) (short : v.toNat < 2 ^ 32) : Agrees .uint64 v :=
  agrees_of_bytes (Go.varUInt64Bytes 10 ⟨v⟩) (Uv3.varInteger v) (goBytes_eq v (by decide) rfl (by decide))
    (fun _ => rfl) (fun _ => rfl) (fun _ _ input => bind_run (Go.readVarUInt64_eq input) rfl)
    fun _ _ input => readVarInteger_unsigned (by decide) short input

theorem agrees_int16 (v : BitVec 16) : Agrees .int16 v := by
  have word := (zigZagEncode v).isLt
  refine agrees_of_bytes (Go.varUInt64Bytes 10 (Go.zigzag (Int16.ofBitVec v).toInt64))
    (Uv3.varInteger (zigZagEncode v))
    (goBytes_eq _ (by decide) (goZigzag_toNat v (by decide) (Int16.toInt_toInt64 _)) (by decide)) (fun _ => rfl)
    (fun _ => rfl) (fun m tail input => ?_) fun m tail input => readVarInteger_signed (by decide) (by omega) input
  have read : Go.readInt16 m = .ok (Int16.ofBitVec v).toInt64.toInt16 _ := bind_run (goReadVarInt64_eq input) rfl
  rw [Int16.toInt16_toInt64] at read
  exact bind_run read rfl

theorem agrees_int32 (v : BitVec 32) : Agrees .int32 v := by
  have word := (zigZagEncode v).isLt
  refine agrees_of_bytes (Go.varUInt64Bytes 10 (Go.zigzag (Int32.ofBitVec v).toInt64))
    (Uv3.varInteger (zigZagEncode v))
    (goBytes_eq _ (by decide) (goZigzag_toNat v (by decide) (Int32.toInt_toInt64 _)) (by decide)) (fun _ => rfl)
    (fun _ => rfl) (fun m tail input => ?_) fun m tail input => readVarInteger_signed (by decide) (by omega) input
  have read : Go.readInt32 m = .ok (Int32.ofBitVec v).toInt64.toInt32 _ := bind_run (goReadVarInt64_eq input) rfl
  rw [Int32.toInt32_toInt64] at read
  exact bind_run read rfl

theorem agrees_int64 (v : BitVec 64) (short : (zigZagEncode v).toNat < 2 ^ 32) : Agrees .int64 v :=
  agrees_of_bytes (Go.varUInt64Bytes 10 (Go.zigzag (.ofBitVec v))) (Uv3.varInteger (zigZagEncode v))
    (goBytes_eq _ (by decide) (goZigzag_toNat v (by decide) rfl) (by decide)) (fun _ => rfl) (fun _ => rfl)
    (fun _ _ input => bind_run (goReadVarInt64_eq input) rfl)
    fun _ _ input => readVarInteger_signed (by decide) short input

/-- What C++ reads back has less than 32 bits on the wire. -/
theorem Agrees.word (signed : Bool) {v : BitVec 64} (bytes : List UInt8)
    (reads : ∀ (m : Uv3.Memory) (tail : List UInt8), m.unread = bytes ++ tail →
      Uv3.readVarInteger signed 64 m = .ok v (m.advanced bytes.length)) :
    (if signed then zigZagEncode v else v).toNat < 2 ^ 32 :=
  readVarInteger_word (reads { bb := { buf := bytes } } [] (List.append_nil bytes).symm)

theorem zigZag_short_iff (v : BitVec 64) :
    (zigZagEncode v).toNat < 2 ^ 32 ↔ -2 ^ 31 ≤ v.toInt ∧ v.toInt < 2 ^ 31 := by
  have value := zigZagEncode_toNat (by decide) v
  by_cases positive : 0 ≤ v.toInt
  · rw [if_pos positive] at value
    omega
  · rw [if_neg positive] at value
    omega

/-- Both sides agree on a value exactly if it has 32 bits at most. -/
theorem integers_agree_iff (type : IntType) (v : type.Value) : Agrees type v ↔ Short type v := by
  cases type with
  | bool => exact iff_of_true (agrees_bool v) trivial
  | int8 => exact iff_of_true (agrees_int8 v) trivial
  | uint8 => exact iff_of_true (agrees_uint8 v) trivial
  | int16 => exact iff_of_true (agrees_int16 v) trivial
  | uint16 => exact iff_of_true (agrees_uint16 v) trivial
  | int32 => exact iff_of_true (agrees_int32 v) trivial
  | uint32 => exact iff_of_true (agrees_uint32 v) trivial
  | int64 =>
    refine Iff.trans ?_ (zigZag_short_iff v)
    constructor
    · rintro ⟨bytes, -, -, -, reads⟩
      exact Agrees.word true bytes reads
    · exact agrees_int64 v
  | uint64 =>
    constructor
    · rintro ⟨bytes, -, -, -, reads⟩
      exact Agrees.word false bytes reads
    · exact agrees_uint64 v

/-- C++ does not read back the first number that needs more than 32 bits. -/
theorem long_integer_lost : ¬ ∀ (type : IntType) (v : type.Value), Agrees type v := by
  intro always
  obtain ⟨bytes, -, -, -, reads⟩ := always .uint64 4294967296#64
  have short := Agrees.word false bytes reads
  exact absurd short (by decide)

end Xxlib.Interop
