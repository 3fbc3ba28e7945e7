import Xxlib.Go.Methods

/-! The typed functions `Write*` and `Read*` of `xx_bbuffer.go` for scalars and for their
nullable types, in sequences. A float is its bit pattern.
-/

set_option autoImplicit false

namespace Xxlib.Go

open Lib

/-! ## Floats -/

/-- `zs.Buf[zs.Offset + i]`. -/
def byteAhead (i : Nat) : Run UInt8 := fun m =>
  match m.bb.buf.data[m.bb.offset + i]? with
  | none => .error .index m
  | some b => .ok b m

/-- `zs.Offset += count`. -/
def skip (count : Nat) : Run Unit := modify fun m => { m with bb := { m.bb with offset := m.bb.offset + count } }

/-- `uint32(b) << count`. What is shifted beyond the 32 bits is lost, also for a count above 31. -/
def shifted32 (b : UInt8) (count : Nat) : UInt32 := UInt32.ofNat (b.toNat <<< count)

def writeFloat32 (f : UInt32) : Run Unit :=
  append [f.toUInt8, (f >>> 8).toUInt8, (f >>> 16).toUInt8, (f >>> 24).toUInt8]

def readFloat32 : Run UInt32 := do
  let v := (← byteAhead 0).toUInt32 ||| shifted32 (← byteAhead 1) 8 ||| shifted32 (← byteAhead 2) 16 |||
    shifted32 (← byteAhead 3) 24
  skip 4
  return v

def writeFloat64 (d : UInt64) : Run Unit :=
  append [d.toUInt8, (d >>> 8).toUInt8, (d >>> 16).toUInt8, (d >>> 24).toUInt8, (d >>> 32).toUInt8,
    (d >>> 40).toUInt8, (d >>> 48).toUInt8, (d >>> 56).toUInt8]

/-- The eight bytes at the address of a `uint32`: the variable, and the four bytes behind it. -/
def eightBytes (v behind : UInt32) : UInt64 := v.toUInt64 ||| behind.toUInt64 <<< 32

/-- The bytes are put together in a `uint32`, which is then read as a `float64`. `behind` is what the memory of
the program holds next to that variable. -/
def readFloat64 (behind : Memory → UInt32) : Run UInt64 := do
  let v := (← byteAhead 0).toUInt32 ||| shifted32 (← byteAhead 1) 8 ||| shifted32 (← byteAhead 2) 16 |||
    shifted32 (← byteAhead 3) 24 ||| shifted32 (← byteAhead 4) 32 ||| shifted32 (← byteAhead 5) 40 |||
    shifted32 (← byteAhead 6) 48 ||| shifted32 (← byteAhead 7) 56
  let r := eightBytes v (behind (← get))
  skip 8
  return r

/-! ## Nullable types -/

structure Nullable (α : Type) where
  value : α
  hasValue : Bool := false
  deriving DecidableEq

abbrev NullableBool := Nullable Bool
abbrev NullableFloat32 := Nullable UInt32
abbrev NullableFloat64 := Nullable UInt64
abbrev NullableUInt8 := Nullable UInt8
abbrev NullableUInt16 := Nullable UInt16
abbrev NullableUInt32 := Nullable UInt32
abbrev NullableUInt64 := Nullable UInt64
abbrev NullableInt8 := Nullable Int8
abbrev NullableInt16 := Nullable Int16
abbrev NullableInt64 := Nullable Int64

section
variable {α : Type}

def writeNullable (write : α → Run Unit) (v : Nullable α) : Run Unit :=
  if v.hasValue then do
    append [1]
    write v.value
  else append [0]

/-- A result that is not assigned to has the zero of its type. -/
def readNullable [Inhabited α] (read : Run α) : Run (Nullable α) := do
  if ← readBool then return { value := ← read, hasValue := true } else return { value := default }

end

def writeNullableBool (v : NullableBool) : Run Unit := writeNullable writeBool v

def readNullableBool : Run NullableBool := readNullable readBool

def writeNullableFloat32 (v : NullableFloat32) : Run Unit := writeNullable writeFloat32 v

def readNullableFloat32 : Run NullableFloat32 := readNullable readFloat32

def writeNullableFloat64 (v : NullableFloat64) : Run Unit := writeNullable writeFloat64 v

def readNullableFloat64 (behind : Memory → UInt32) : Run NullableFloat64 := readNullable (readFloat64 behind)

def writeNullableUInt8 (v : NullableUInt8) : Run Unit :=
  if v.hasValue then append [1, v.value] else append [0]

def readNullableUInt8 : Run NullableUInt8 := readNullable readUInt8

def writeNullableUInt16 (v : NullableUInt16) : Run Unit := writeNullable (fun v => writeVarUInt64 v.toUInt64) v

def readNullableUInt16 : Run NullableUInt16 := readNullable readUInt16

def writeNullableUInt32 (v : NullableUInt32) : Run Unit := writeNullable (fun v => writeVarUInt64 v.toUInt64) v

def readNullableUInt32 : Run NullableUInt32 := readNullable readUInt32

def writeNullableUInt64 (v : NullableUInt64) : Run Unit := writeNullable writeVarUInt64 v

def readNullableUInt64 : Run NullableUInt64 := readNullable readUInt64

def writeNullableInt8 (v : NullableInt8) : Run Unit :=
  if v.hasValue then append [1, v.value.toUInt8] else append [0]

def readNullableInt8 : Run NullableInt8 := readNullable readInt8

def writeNullableInt16 (v : NullableInt16) : Run Unit := writeNullable (fun v => writeVarInt64 v.toInt64) v

def readNullableInt16 : Run NullableInt16 := readNullable readInt16

def writeNullableInt64 (v : NullableInt64) : Run Unit := writeNullable writeVarInt64 v

def readNullableInt64 : Run NullableInt64 := readNullable readInt64

/-! ## Values of all these types -/

inductive ValueType where
  | bool | int8 | uint8 | int16 | uint16 | int32 | uint32 | int64 | uint64 | float32 | float64
  | nullableBool | nullableInt8 | nullableUInt8 | nullableInt16 | nullableUInt16 | nullableInt32
  | nullableUInt32 | nullableInt64 | nullableUInt64 | nullableFloat32 | nullableFloat64
  deriving DecidableEq

namespace ValueType

abbrev Carrier : ValueType → Type
  | bool => Bool
  | int8 => Int8
  | uint8 => UInt8
  | int16 => Int16
  | uint16 => UInt16
  | int32 => Int32
  | uint32 => UInt32
  | int64 => Int64
  | uint64 => UInt64
  | float32 => UInt32
  | float64 => UInt64
  | nullableBool => NullableBool
  | nullableInt8 => NullableInt8
  | nullableUInt8 => NullableUInt8
  | nullableInt16 => NullableInt16
  | nullableUInt16 => NullableUInt16
  | nullableInt32 => NullableInt32
  | nullableUInt32 => NullableUInt32
  | nullableInt64 => NullableInt64
  | nullableUInt64 => NullableUInt64
  | nullableFloat32 => NullableFloat32
  | nullableFloat64 => NullableFloat64

def write : (t : ValueType) → t.Carrier → Run Unit
  | bool => writeBool
  | int8 => writeInt8
  | uint8 => writeUInt8
  | int16 => writeInt16
  | uint16 => writeUInt16
  | int32 => writeInt32
  | uint32 => writeUInt32
  | int64 => writeInt64
  | uint64 => writeUInt64
  | float32 => writeFloat32
  | float64 => writeFloat64
  | nullableBool => writeNullableBool
  | nullableInt8 => writeNullableInt8
  | nullableUInt8 => writeNullableUInt8
  | nullableInt16 => writeNullableInt16
  | nullableUInt16 => writeNullableUInt16
  | nullableInt32 => writeNullableInt32
  | nullableUInt32 => writeNullableUInt32
  | nullableInt64 => writeNullableInt64
  | nullableUInt64 => writeNullableUInt64
  | nullableFloat32 => writeNullableFloat32
  | nullableFloat64 => writeNullableFloat64

def read (behind : Memory → UInt32) : (t : ValueType) → Run t.Carrier
  | bool => readBool
  | int8 => readInt8
  | uint8 => readUInt8
  | int16 => readInt16
  | uint16 => readUInt16
  | int32 => readInt32
  | uint32 => readUInt32
  | int64 => readInt64
  | uint64 => readUInt64
  | float32 => readFloat32
  | float64 => readFloat64 behind
  | nullableBool => readNullableBool
  | nullableInt8 => readNullableInt8
  | nullableUInt8 => readNullableUInt8
  | nullableInt16 => readNullableInt16
  | nullableUInt16 => readNullableUInt16
  | nullableInt32 => readNullableInt32
  | nullableUInt32 => readNullableUInt32
  | nullableInt64 => readNullableInt64
  | nullableUInt64 => readNullableUInt64
  | nullableFloat32 => readNullableFloat32
  | nullableFloat64 => readNullableFloat64 behind

end ValueType

/-- A value with its type. -/
structure Value where
  type : ValueType
  value : type.Carrier

def writeValues (vs : List Value) : Run Unit := vs.forM fun v => v.type.write v.value

def readValues (behind : Memory → UInt32) : List ValueType → Run (List Value)
  | [] => return []
  | t :: ts => do
      let v ← t.read behind
      let vs ← readValues behind ts
      return ⟨t, v⟩ :: vs

/-! ## What is written and read -/

/-- `write` appends `bytes`, and of these `read` makes what `Back` accepts, whatever follows. -/
structure Transfers {α : Type} (bytes : List UInt8) (write : Run Unit) (read : Run α) (Back : α → Prop) : Prop where
  writes : ∀ m, write m = .ok () (m.appended bytes)
  reads : ∀ m tail, m.unread = bytes ++ tail → ∃ y, read m = .ok y (m.advanced bytes.length) ∧ Back y

namespace Transfers

variable {α β : Type} {bytes more : List UInt8} {write : Run Unit} {read : Run α} {Back : α → Prop} {Back' : β → Prop}

theorem map (transfers : Transfers bytes write read Back) {f : α → β} (back : ∀ y, Back y → Back' (f y)) :
    Transfers bytes write (do return f (← read)) Back' := by
  refine ⟨transfers.writes, fun m tail input => ?_⟩
  obtain ⟨y, ran, holds⟩ := transfers.reads m tail input
  exact ⟨f y, bind_run ran rfl, back y holds⟩

theorem bind {write' : Run Unit} {read' : α → Run β} (first : Transfers bytes write read Back)
    (second : ∀ y, Back y → Transfers more write' (read' y) Back') :
    Transfers (bytes ++ more) (do write; write') (do read' (← read)) Back' := by
  refine ⟨fun m => ?_, fun m tail input => ?_⟩
  · obtain ⟨y, -, holds⟩ := first.reads ⟨[], { buf := ⟨bytes, []⟩ }⟩ [] (List.append_nil _).symm
    rw [← appended_appended]
    exact bind_run (first.writes m) ((second y holds).writes _)
  · rw [List.append_assoc] at input
    obtain ⟨y, ran, holds⟩ := first.reads m (more ++ tail) input
    obtain ⟨z, ran', holds'⟩ := (second y holds).reads (m.advanced bytes.length) tail (unread_advanced input)
    refine ⟨z, ?_, holds'⟩
    rw [List.length_append, ← advanced_advanced]
    exact bind_run ran ran'

end Transfers

theorem transfers_byte (b : UInt8) : Transfers [b] (append [b]) nextByte (· = b) :=
  ⟨fun _ => rfl, fun _ _ input => ⟨b, nextByte_eq input, rfl⟩⟩

theorem transfers_bool (v : Bool) : Transfers [if v then 1 else 0] (writeBool v) readBool (· = v) :=
  (transfers_byte _).map fun _ read => by rw [read]; cases v <;> rfl

theorem transfers_varUInt64 (v : UInt64) : Transfers (varUInt64Bytes 10 v) (writeVarUInt64 v) readVarUInt64 (· = v) :=
  ⟨fun _ => rfl, fun _ _ input => ⟨v, readVarUInt64_eq input, rfl⟩⟩

theorem transfers_varInt64 (v : Int64) :
    Transfers (varUInt64Bytes 10 (zigzag v)) (writeVarInt64 v) readVarInt64 (· = v) :=
  (transfers_varUInt64 _).map fun _ read => by rw [read, unzigzag_zigzag]

/-! ## The bytes of a float -/

theorem byteAhead_eq {m : Memory} {bytes tail : List UInt8} {i : Nat} {b : UInt8} (input : m.unread = bytes ++ tail)
    (found : bytes[i]? = some b) : byteAhead i m = .ok b m := by
  have byte : m.bb.buf.data[m.bb.offset + i]? = some b := by
    rw [← List.getElem?_drop]
    change m.unread[i]? = some b
    rw [input, List.getElem?_append_left (List.getElem?_eq_some_iff.mp found).1, found]
  unfold byteAhead
  rw [byte]

theorem shifted32_lost (b : UInt8) {count : Nat} (beyond : 32 ≤ count) : shifted32 b count = 0 := by
  obtain ⟨more, rfl⟩ := Nat.exists_eq_add_of_le beyond
  apply UInt32.toNat_inj.mp
  rw [shifted32, UInt32.toNat_ofNat', Nat.shiftLeft_eq, Nat.pow_add, ← Nat.mul_assoc, Nat.mul_right_comm]
  exact Nat.mul_mod_left _ _

/-- Four bytes of a number, put together again. -/
theorem four_bytes {n : Nat} {b₀ b₁ b₂ b₃ : UInt8} (first : b₀.toNat = n % 2 ^ 8) (second : b₁.toNat = n / 2 ^ 8 % 2 ^ 8)
    (third : b₂.toNat = n / 2 ^ 16 % 2 ^ 8) (fourth : b₃.toNat = n / 2 ^ 24 % 2 ^ 8) :
    (b₀.toUInt32 ||| shifted32 b₁ 8 ||| shifted32 b₂ 16 ||| shifted32 b₃ 24).toNat = n % 2 ^ 32 := by
  simp only [UInt32.toNat_or, shifted32, UInt32.toNat_ofNat', UInt8.toNat_toUInt32, first, second, third, fourth]
  have two : n % 2 ^ 8 ||| (n / 2 ^ 8 % 2 ^ 8) <<< 8 % 2 ^ 32 = n % 2 ^ 16 := by
    rw [Varint.or_group (by omega) (by omega)]
    omega
  have three : n % 2 ^ 16 ||| (n / 2 ^ 16 % 2 ^ 8) <<< 16 % 2 ^ 32 = n % 2 ^ 24 := by
    rw [Varint.or_group (by omega) (by omega)]
    omega
  rw [two, three, Varint.or_group (by omega) (by omega)]
  omega

theorem transfers_float32 (f : UInt32) : ∃ bytes, Transfers bytes (writeFloat32 f) readFloat32 (· = f) := by
  refine ⟨_, fun _ => rfl, fun m tail input => ⟨f, ?_, rfl⟩⟩
  have whole : f.toUInt8.toUInt32 ||| shifted32 (f >>> 8).toUInt8 8 ||| shifted32 (f >>> 16).toUInt8 16 |||
      shifted32 (f >>> 24).toUInt8 24 = f := by
    apply UInt32.toNat_inj.mp
    rw [four_bytes (n := f.toNat)]
    · exact Nat.mod_eq_of_lt f.toNat_lt
    all_goals simp [Nat.shiftRight_eq_div_pow]
  apply bind_run (byteAhead_eq input rfl)
  apply bind_run (byteAhead_eq input rfl)
  apply bind_run (byteAhead_eq input rfl)
  apply bind_run (byteAhead_eq input rfl)
  rw [whole]
  rfl

theorem eightBytes_toNat (v behind : UInt32) : (eightBytes v behind).toNat = v.toNat + behind.toNat * 2 ^ 32 := by
  have low := v.toNat_lt
  have high := behind.toNat_lt
  simp only [eightBytes, UInt64.toNat_or, UInt64.toNat_shiftLeft, UInt32.toNat_toUInt64,
    show (32 : UInt64).toNat % 64 = 32 from rfl]
  have sum : v.toNat ||| behind.toNat <<< 32 % 2 ^ 64 = v.toNat + behind.toNat * 2 ^ 32 :=
    Varint.or_group low (by omega)
  exact sum

/-- The low half of a `float64` and what lies behind the variable. -/
def pieced (d : UInt64) (behind : UInt32) : UInt64 := eightBytes d.toUInt32 behind

theorem pieced_toNat (d : UInt64) (behind : UInt32) :
    (pieced d behind).toNat = d.toNat % 2 ^ 32 + behind.toNat * 2 ^ 32 := by
  rw [pieced, eightBytes_toNat, UInt64.toNat_toUInt32]

theorem pieced_eq_iff (d : UInt64) (behind : UInt32) : pieced d behind = d ↔ behind.toNat = d.toNat / 2 ^ 32 := by
  rw [← UInt64.toNat_inj, pieced_toNat]
  omega

theorem pieced_ne (d : UInt64) : ∃ behind, pieced d behind ≠ d := by
  by_cases zero : d.toNat / 2 ^ 32 = 0
  · exact ⟨1, by rw [ne_eq, pieced_eq_iff, zero]; decide⟩
  · exact ⟨0, by rw [ne_eq, pieced_eq_iff]; exact fun same => zero same.symm⟩

theorem transfers_float64 (behind : Memory → UInt32) (d : UInt64) :
    ∃ bytes, Transfers bytes (writeFloat64 d) (readFloat64 behind) fun y => ∃ m, y = pieced d (behind m) := by
  refine ⟨_, fun _ => rfl, fun m tail input => ⟨pieced d (behind m), ?_, m, rfl⟩⟩
  have low : d.toUInt8.toUInt32 ||| shifted32 (d >>> 8).toUInt8 8 ||| shifted32 (d >>> 16).toUInt8 16 |||
      shifted32 (d >>> 24).toUInt8 24 = d.toUInt32 := by
    apply UInt32.toNat_inj.mp
    rw [four_bytes (n := d.toNat)]
    · rfl
    all_goals simp [Nat.shiftRight_eq_div_pow]
  apply bind_run (byteAhead_eq input rfl)
  apply bind_run (byteAhead_eq input rfl)
  apply bind_run (byteAhead_eq input rfl)
  apply bind_run (byteAhead_eq input rfl)
  apply bind_run (byteAhead_eq input rfl)
  apply bind_run (byteAhead_eq input rfl)
  apply bind_run (byteAhead_eq input rfl)
  apply bind_run (byteAhead_eq input rfl)
  have zero (b : UInt8) {count : Nat} (beyond : 32 ≤ count) (v : UInt32) : v ||| shifted32 b count = v := by
    rw [shifted32_lost b beyond, UInt32.or_zero]
  rw [zero _ (by decide), zero _ (by decide), zero _ (by decide), zero _ (by decide), low]
  rfl

/-! ## Nullable values -/

namespace Nullable

variable {α : Type}

/-- A nullable value that has a value when `v` has one, and then one that `Back` accepts. -/
def Returns (v : Nullable α) (Back : α → Prop) (w : Nullable α) : Prop :=
  w.hasValue = v.hasValue ∧ (v.hasValue = true → Back w.value)

/-- `Value` is ignored when `HasValue` is false. -/
def Same (v : Nullable α) : Nullable α → Prop := v.Returns (· = v.value)

end Nullable

section
variable {α : Type} [Inhabited α] {bytes : List UInt8} {read : Run α} {v : Nullable α} {Back : α → Prop}

theorem transfers_nullable (write : α → Run Unit) (value : Transfers bytes (write v.value) read Back) :
    ∃ bytes, Transfers bytes (writeNullable write v) (readNullable read) (v.Returns Back) := by
  unfold writeNullable readNullable
  cases given : v.hasValue with
  | true =>
    refine ⟨[1] ++ bytes, (transfers_bool true).bind fun has yes => ?_⟩
    subst yes
    exact value.map fun y holds => ⟨given.symm, fun _ => holds⟩
  | false =>
    refine ⟨_, (transfers_bool false).writes, fun m tail input => ?_⟩
    obtain ⟨has, ran, rfl⟩ := (transfers_bool false).reads m tail input
    refine ⟨_, bind_run ran rfl, given.symm, fun yes => ?_⟩
    rw [given] at yes
    cases yes

/-- The two bytes appended at once are those of the general function. -/
theorem transfers_nullable_byte (byte : α → UInt8) (value : Transfers bytes (append [byte v.value]) read Back) :
    ∃ bytes, Transfers bytes (if v.hasValue then append [1, byte v.value] else append [0]) (readNullable read)
      (v.Returns Back) := by
  have both : writeNullable (fun x => append [byte x]) v =
      if v.hasValue then append [1, byte v.value] else append [0] := by
    unfold writeNullable
    split
    · funext m
      exact congrArg (EStateM.Result.ok ()) (appended_appended m [1] [byte v.value])
    · rfl
  rw [← both]
  exact transfers_nullable _ value

end

def NullableInt32.Same (v w : NullableInt32) : Prop := w.hasValue = v.hasValue ∧ (v.hasValue = true → w.value = v.value)

theorem readNullableInt32_eq : readNullableInt32 = do
    let v ← readNullable readInt32
    return { value := v.value, hasValue := v.hasValue } := by
  unfold readNullableInt32 readNullable
  rw [bind_assoc]
  congr 1
  funext has
  cases has with
  | true => simp only [if_true, bind_assoc, pure_bind]
  | false => rfl

theorem transfers_nullableInt32 (v : NullableInt32) :
    ∃ bytes, Transfers bytes (writeNullableInt32 v) readNullableInt32 v.Same := by
  have value : Transfers _ (writeVarInt64 v.value.toInt64) readInt32 (· = v.value) :=
    (transfers_varInt64 _).map fun y read => by rw [read, Int32.toInt32_toInt64]
  obtain ⟨bytes, transfers⟩ := transfers_nullable (v := ⟨v.value, v.hasValue⟩) (fun v => writeVarInt64 v.toInt64) value
  rw [readNullableInt32_eq]
  exact ⟨bytes, transfers.map fun _ returned => returned⟩

/-! ## Every type -/

namespace ValueType

/-- The same value, as far as it counts. -/
def Same : (t : ValueType) → t.Carrier → t.Carrier → Prop
  | nullableBool => Nullable.Same
  | nullableInt8 => Nullable.Same
  | nullableUInt8 => Nullable.Same
  | nullableInt16 => Nullable.Same
  | nullableUInt16 => Nullable.Same
  | nullableInt32 => NullableInt32.Same
  | nullableUInt32 => Nullable.Same
  | nullableInt64 => Nullable.Same
  | nullableUInt64 => Nullable.Same
  | nullableFloat32 => Nullable.Same
  | nullableFloat64 => Nullable.Same
  | _ => fun v w => w = v

/-- The value is a `float64`, or a nullable one that has a value. -/
def HasFloat64 : (t : ValueType) → t.Carrier → Prop
  | float64, _ => True
  | nullableFloat64, v => Nullable.hasValue v = true
  | _, _ => False

/-- What comes back of a value: of a `float64` the low half. -/
def Returned (behind : Memory → UInt32) : (t : ValueType) → t.Carrier → t.Carrier → Prop
  | float64, v, w => ∃ m, w = pieced v (behind m)
  | nullableFloat64, v, w => Nullable.Returns v (fun y => ∃ m, y = pieced v.value (behind m)) w
  | t, v, w => t.Same v w

theorem transfers (behind : Memory → UInt32) (t : ValueType) (v : t.Carrier) :
    ∃ bytes, Transfers bytes (t.write v) (t.read behind) (t.Returned behind v) := by
  have int16 (v : Int16) : Transfers _ (writeVarInt64 v.toInt64) readInt16 (· = v) :=
    (transfers_varInt64 _).map fun y read => by rw [read, Int16.toInt16_toInt64]
  have int32 (v : Int32) : Transfers _ (writeVarInt64 v.toInt64) readInt32 (· = v) :=
    (transfers_varInt64 _).map fun y read => by rw [read, Int32.toInt32_toInt64]
  have uint16 (v : UInt16) : Transfers _ (writeVarUInt64 v.toUInt64) readUInt16 (· = v) :=
    (transfers_varUInt64 _).map fun y read => by rw [read, UInt16.toUInt16_toUInt64]
  have uint32 (v : UInt32) : Transfers _ (writeVarUInt64 v.toUInt64) readUInt32 (· = v) :=
    (transfers_varUInt64 _).map fun y read => by rw [read, UInt32.toUInt32_toUInt64]
  have int8 (v : Int8) : Transfers _ (append [v.toUInt8]) readInt8 (· = v) :=
    (transfers_byte _).map fun y read => by rw [read, Int8.toInt8_toUInt8]
  cases t with
  | bool => exact ⟨_, transfers_bool v⟩
  | int8 => exact ⟨_, int8 v⟩
  | uint8 => exact ⟨_, transfers_byte v⟩
  | int16 => exact ⟨_, int16 v⟩
  | uint16 => exact ⟨_, uint16 v⟩
  | int32 => exact ⟨_, int32 v⟩
  | uint32 => exact ⟨_, uint32 v⟩
  | int64 => exact ⟨_, transfers_varInt64 v⟩
  | uint64 => exact ⟨_, transfers_varUInt64 v⟩
  | float32 => exact transfers_float32 v
  | float64 => exact transfers_float64 behind v
  | nullableBool => exact transfers_nullable (v := v) writeBool (transfers_bool _)
  | nullableInt8 => exact transfers_nullable_byte (v := v) Int8.toUInt8 (int8 _)
  | nullableUInt8 => exact transfers_nullable_byte (v := v) (fun b => b) (transfers_byte _)
  | nullableInt16 => exact transfers_nullable (v := v) (fun v => writeVarInt64 v.toInt64) (int16 _)
  | nullableUInt16 => exact transfers_nullable (v := v) (fun v => writeVarUInt64 v.toUInt64) (uint16 _)
  | nullableInt32 => exact transfers_nullableInt32 v
  | nullableUInt32 => exact transfers_nullable (v := v) (fun v => writeVarUInt64 v.toUInt64) (uint32 _)
  | nullableInt64 => exact transfers_nullable (v := v) writeVarInt64 (transfers_varInt64 _)
  | nullableUInt64 => exact transfers_nullable (v := v) writeVarUInt64 (transfers_varUInt64 _)
  | nullableFloat32 =>
    obtain ⟨_, value⟩ := transfers_float32 v.value
    exact transfers_nullable (v := v) writeFloat32 value
  | nullableFloat64 =>
    obtain ⟨_, value⟩ := transfers_float64 behind v.value
    exact transfers_nullable (v := v) writeFloat64 value

theorem Returned.same {behind : Memory → UInt32} {t : ValueType} {v w : t.Carrier} (returned : t.Returned behind v w)
    (none : ¬ t.HasFloat64 v) : t.Same v w := by
  cases t with
  | float64 => exact absurd trivial none
  | nullableFloat64 => exact ⟨returned.1, fun has => absurd has none⟩
  | _ => exact returned

/-- If the high half does not happen to lie behind the variable, a `float64` comes back as another one. -/
theorem Returned.differs {t : ValueType} {v : t.Carrier} (has : t.HasFloat64 v) :
    ∃ behind, ∀ w, t.Returned (fun _ => behind) v w → ¬ t.Same v w := by
  cases t with
  | float64 =>
    obtain ⟨behind, other⟩ := pieced_ne v
    refine ⟨behind, fun w returned same => ?_⟩
    obtain ⟨_, rfl⟩ := returned
    exact other same
  | nullableFloat64 =>
    obtain ⟨behind, other⟩ := pieced_ne (Nullable.value v)
    refine ⟨behind, fun w returned same => ?_⟩
    obtain ⟨_, pieces⟩ := returned.2 has
    exact other (pieces.symm.trans (same.2 has))
  | _ => exact has.elim

end ValueType

/-! ## Sequences -/

namespace Value

def Same (v w : Value) : Prop := ∃ x, w = ⟨v.type, x⟩ ∧ v.type.Same v.value x

def HasFloat64 (v : Value) : Prop := v.type.HasFloat64 v.value

def Returned (behind : Memory → UInt32) (v w : Value) : Prop :=
  ∃ x, w = ⟨v.type, x⟩ ∧ v.type.Returned behind v.value x

end Value

theorem transfers_values (behind : Memory → UInt32) (vs : List Value) :
    ∃ bytes, Transfers bytes (writeValues vs) (readValues behind (vs.map Value.type))
      fun ws => List.Forall₂ (Value.Returned behind) vs ws := by
  induction vs with
  | nil => exact ⟨[], fun m => by simp [writeValues, Memory.appended, Slice.append]; rfl, fun m tail input => ⟨[], rfl, .nil⟩⟩
  | cons v vs ih =>
    obtain ⟨bytes, first⟩ := v.type.transfers behind v.value
    obtain ⟨more, rest⟩ := ih
    refine ⟨bytes ++ more, first.bind fun x returned => ?_⟩
    exact rest.map fun ws others => .cons ⟨x, rfl, returned⟩ others

/-- The values are written behind what the buffer holds, and read from there: the same values come back, and
the buffer has been read to its end. -/
def RoundTrips (m : Memory) (vs : List Value) : Prop :=
  ∀ behind, ∃ written ws m', writeValues vs m = .ok () written ∧
    readValues behind (vs.map Value.type) { written with bb := { written.bb with offset := m.bb.buf.data.length } } =
      .ok ws m' ∧
    List.Forall₂ Value.Same vs ws ∧ m'.bb.offset = m'.bb.buf.data.length

section
variable {m : Memory} {vs : List Value}

/-- One run of the writer and of the reader. -/
theorem values_run (m : Memory) (vs : List Value) (behind : Memory → UInt32) :
    ∃ written ws m', writeValues vs m = .ok () written ∧
      readValues behind (vs.map Value.type) { written with bb := { written.bb with offset := m.bb.buf.data.length } } =
        .ok ws m' ∧
      List.Forall₂ (Value.Returned behind) vs ws ∧ m'.bb.offset = m'.bb.buf.data.length := by
  obtain ⟨bytes, transfers⟩ := transfers_values behind vs
  have input : ({ m.appended bytes with bb := { (m.appended bytes).bb with offset := m.bb.buf.data.length } } :
      Memory).unread = bytes ++ [] := by
    simp [Memory.unread, Memory.appended, Slice.append]
  obtain ⟨ws, ran, returned⟩ := transfers.reads _ [] input
  refine ⟨_, ws, _, transfers.writes m, ran, returned, ?_⟩
  simp [Memory.advanced, Memory.appended, Slice.append]

theorem returned_same {behind : Memory → UInt32} {ws : List Value} (none : ∀ v ∈ vs, ¬ v.HasFloat64)
    (returned : List.Forall₂ (Value.Returned behind) vs ws) : List.Forall₂ Value.Same vs ws := by
  induction returned with
  | nil => exact .nil
  | cons first _ ih =>
    obtain ⟨x, shape, back⟩ := first
    have same := back.same (none _ List.mem_cons_self)
    exact .cons ⟨x, shape, same⟩ (ih fun v member => none v (List.mem_cons_of_mem _ member))

theorem returned_differs {behind : Memory → UInt32} {v : Value} {ws : List Value} (member : v ∈ vs)
    (differs : ∀ x, v.type.Returned behind v.value x → ¬ v.type.Same v.value x)
    (returned : List.Forall₂ (Value.Returned behind) vs ws) : ¬ List.Forall₂ Value.Same vs ws := by
  intro same
  induction returned with
  | nil => cases member
  | cons first _ ih =>
    cases same with
    | cons equal others =>
      rcases List.mem_cons.mp member with rfl | further
      · obtain ⟨x, rfl, back⟩ := first
        obtain ⟨x', shape, equal⟩ := equal
        obtain rfl : x = x' := eq_of_heq (Value.mk.inj shape).2
        exact differs x back equal
      · exact ih further others

end

theorem round_trips_iff (m : Memory) (vs : List Value) : RoundTrips m vs ↔ ∀ v ∈ vs, ¬ v.HasFloat64 := by
  constructor
  · intro holds v member has
    obtain ⟨behind, differs⟩ := ValueType.Returned.differs has
    obtain ⟨written, ws, m', wrote, ran, same, -⟩ := holds fun _ => behind
    obtain ⟨written', ws', m'', wrote', ran', returned, -⟩ := values_run m vs fun _ => behind
    rw [wrote] at wrote'
    cases wrote'
    rw [ran] at ran'
    cases ran'
    exact returned_differs member differs returned same
  · intro none behind
    obtain ⟨written, ws, m', wrote, ran, returned, done⟩ := values_run m vs behind
    exact ⟨written, ws, m', wrote, ran, returned_same none returned, done⟩

/-- The bit pattern of `1.0`, with zeros behind the variable: all its bits are in the half that is lost. -/
theorem float64_lost : ¬ RoundTrips ⟨[], {}⟩ [⟨.float64, 0x3FF0000000000000⟩] := by
  intro holds
  obtain ⟨written, ws, m', wrote, ran, same, -⟩ := holds fun _ => 0
  cases wrote
  cases ran
  cases same with
  | cons equal _ =>
    obtain ⟨x, shape, equal⟩ := equal
    obtain rfl := eq_of_heq (Value.mk.inj shape).2
    exact absurd (show (0 : UInt64) = 0x3FF0000000000000 from equal) (by decide)

end Xxlib.Go
