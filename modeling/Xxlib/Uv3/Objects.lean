import Mathlib.Logic.Function.Basic
import Xxlib.Lib.AssocMap
import Xxlib.Lib.Codec
import Xxlib.Lib.Ownership
import Xxlib.Lib.ZigZag

/-! Objects behind `std::shared_ptr` and `std::weak_ptr`, and the graphs that a `BBuffer` writes and reads
(`test_uv_3/xx_bbuffer.h`).

An address is the number of an object, the same for every type of pointer. What is destroyed leaves a hole, to which
a `weak_ptr` may still lead. The buffer that is written to is not an object of the graph.
-/

set_option autoImplicit false

namespace Xxlib.Uv3

open Lib

abbrev Addr := Nat

/-! ## Types -/

/-- What a pointer points to by its type: a `std::string`, or one of the types that derive from `Object`. -/
inductive PtrType where
  | string
  | object (type : Nat)
  deriving DecidableEq

/-- The types of members, and of the elements of a `List`. -/
inductive FieldType where
  | bool
  | int8
  | uint8
  | int16
  | uint16
  | int32
  | uint32
  | float
  | string
  | shared (T : PtrType)
  | weak (T : PtrType)
  deriving DecidableEq

/-- A float is its bits. -/
def FieldType.Value : FieldType → Type
  | .bool => Bool
  | .int8 | .uint8 => BitVec 8
  | .int16 | .uint16 => BitVec 16
  | .int32 | .uint32 | .float => BitVec 32
  | .string => List UInt8
  | .shared _ | .weak _ => Option Addr

/-- A member, with its type. -/
abbrev Cell := (type : FieldType) × type.Value

inductive Class where
  | string
  | bbuffer
  | list (type : FieldType)
  | user (type : Nat)
  deriving DecidableEq

/-- What an object holds. Of a `BBuffer` it is the bytes: its other members are neither written nor read. -/
inductive Object where
  | string (data : List UInt8)
  | bbuffer (data : List UInt8)
  | list (type : FieldType) (items : List type.Value)
  | user (type : Nat) (cells : List Cell)

def Object.class : Object → Class
  | .string _ => .string
  | .bbuffer _ => .bbuffer
  | .list type _ => .list type
  | .user type _ => .user type

/-- What a program defines: the members of its classes in the order of `ToBBuffer`, the ids of types, what `Register` has
put into `creators`, and of which types a class is. -/
structure Types where
  fields : Nat → List FieldType
  listId : FieldType → UInt16
  userId : Nat → UInt16
  creators : UInt16 → Option Class
  derives : Class → Nat → Bool

/-- `GetTypeId`. Strings have the id that `WritePtr` gives them. -/
def Types.typeId (types : Types) : Class → UInt16
  | .string => 1
  | .bbuffer => 2
  | .list type => types.listId type
  | .user type => types.userId type

/-- `Register<T>` -/
def Types.register (types : Types) (T : Class) (typeId : UInt16) : Types :=
  { types with creators := Function.update types.creators typeId (some T) }

def FieldType.zero : (type : FieldType) → type.Value
  | .bool => false
  | .int8 | .uint8 => 0#8
  | .int16 | .uint16 => 0#16
  | .int32 | .uint32 | .float => 0#32
  | .string => []
  | .shared _ | .weak _ => (none : Option Addr)

/-- What a constructor leaves. Reading overwrites it. -/
def Types.make (types : Types) : Class → Object
  | .string => .string []
  | .bbuffer => .bbuffer []
  | .list type => .list type []
  | .user type => .user type ((types.fields type).map fun field => ⟨field, field.zero⟩)

/-! ## Memory -/

/-- What a member owns. -/
def Cell.edges : Cell → List Addr
  | ⟨.shared _, v⟩ => Option.toList (α := Addr) v
  | _ => []

def Object.cells : Object → List Cell
  | .list type items => items.map fun item => ⟨type, item⟩
  | .user _ cells => cells
  | _ => []

/-- What an object owns, as often as it does. -/
def Object.edges (object : Object) : List Addr := object.cells.flatMap Cell.edges

/-- The bytes up to `len`, and the members that reading and writing use. -/
structure BBuffer where
  buf : List UInt8 := []
  offset : Nat := 0
  offsetRoot : Nat := 0
  readLengthLimit : Nat := 0
  ptrs : Addr → Option Nat := fun _ => none
  objIdxs : List (Nat × Addr) := []
  strIdxs : List (Nat × Addr) := []

/-- `owners` are the `shared_ptr`s outside of the heap and of the buffer. -/
structure Memory where
  heap : List (Option Object) := []
  owners : List Addr := []
  bb : BBuffer := {}

/-- An error code, or that the code does not come back, or what a program must not do. -/
inductive Fault where
  | code (r : Int)
  | endless
  | invalid
  deriving DecidableEq

abbrev Run := EStateM Fault Memory

def Memory.appended (m : Memory) (bytes : List UInt8) : Memory :=
  { m with bb := { m.bb with buf := m.bb.buf ++ bytes } }

def Memory.advanced (m : Memory) (count : Nat) : Memory :=
  { m with bb := { m.bb with offset := m.bb.offset + count } }

def append (bytes : List UInt8) : Run Unit := modify fun m => m.appended bytes

def load (addr : Addr) : Run Object := fun m =>
  match m.heap[addr]? with
  | some (some object) => .ok object m
  | _ => .error .invalid m

/-- `weak_ptr::lock` -/
def lock (heap : List (Option Object)) (v : Option Addr) : Option Addr :=
  v.filter fun a => (heap[a]?.join).isSome

/-- `idxs[offset] = addr` -/
def insert (idxs : List (Nat × Addr)) (offset : Nat) (addr : Addr) : List (Nat × Addr) :=
  AssocMap.put (fun a b => a == b) idxs offset addr true

def find (idxs : List (Nat × Addr)) (offset : Nat) : Option Addr := AssocMap.lookup (fun a b => a == b) idxs offset

/-! ## Numbers -/

/-- The loop of `WriteVarIntger`. -/
def varIntegerLoop : Nat → Nat → List UInt8
  | 0, u => [UInt8.ofNat u]
  | fuel + 1, u =>
      if u ≥ 1 <<< 7 then UInt8.ofNat (u &&& 0x7F ||| 0x80) :: varIntegerLoop fuel (u >>> 7) else [UInt8.ofNat u]

def varInteger {w : Nat} (u : BitVec w) : List UInt8 := varIntegerLoop (w / 7) u.toNat

def writeVarIntger (signed : Bool) {w : Nat} (v : BitVec w) : Run Unit :=
  append (varInteger (if signed then zigZagEncode v else v))

/-- The next byte of `ReadVarInteger`. -/
def nextByte : Run UInt8 := fun m =>
  match m.bb.buf[m.bb.offset]? with
  | some b => .ok b (m.advanced 1)
  | none => if m.bb.offset = m.bb.buf.length then .error (.code (-9)) m else .error .invalid m

/-- The loop of `ReadVarInteger`. A group is an `unsigned int` when it is shifted. -/
def readVarIntegerLoop (w : Nat) : Nat → Nat → Nat → Run Nat
  | 0, _, _ => throw (.code (-10))
  | fuel + 1, shift, u =>
      if shift < w then do
        let b ← nextByte
        if shift ≥ 32 then throw .invalid
        else
          let u := u ||| ((b.toNat &&& 0x7F) <<< shift) % 2 ^ 32 % 2 ^ w
          if b.toNat &&& 0x80 = 0 then return u else readVarIntegerLoop w fuel (shift + 7) u
      else throw (.code (-10))

def readVarInteger (signed : Bool) (w : Nat) : Run (BitVec w) := do
  let u ← readVarIntegerLoop w w 0 0
  return if signed then zigZagDecode (BitVec.ofNat w u) else BitVec.ofNat w u

/-- A `size_t` has 64 bits. -/
def writeSize (n : Nat) : Run Unit := writeVarIntger false (BitVec.ofNat 64 n)

def readSize : Run Nat := do return (← readVarInteger false 64).toNat

def writeUInt16 (n : UInt16) : Run Unit := writeVarIntger false n.toBitVec

def readUInt16 : Run UInt16 := do return ⟨← readVarInteger false 16⟩

/-! ## Values -/

/-- The bytes of a float, as `memcpy` takes them. -/
def floatBytes (v : BitVec 32) : List UInt8 :=
  [⟨v.setWidth 8⟩, ⟨(v >>> 8).setWidth 8⟩, ⟨(v >>> 16).setWidth 8⟩, ⟨(v >>> 24).setWidth 8⟩]

def boolByte : Bool → UInt8
  | false => 0
  | true => 1

def writeString (data : List UInt8) : Run Unit := do
  writeSize data.length
  append data

/-- `BFuncs<T>::WriteTo` -/
def writeValue (write : Option Addr → Run Unit) : (type : FieldType) → type.Value → Run Unit
  | .bool, v => append [boolByte v]
  | .int8, v => append [⟨v⟩]
  | .uint8, v => append [⟨v⟩]
  | .int16, v => writeVarIntger (w := 16) true v
  | .uint16, v => writeVarIntger (w := 16) false v
  | .int32, v => writeVarIntger (w := 32) true v
  | .uint32, v => writeVarIntger (w := 32) false v
  | .float, v => append (floatBytes v)
  | .string, v => writeString v
  | .shared _, v => write v
  | .weak _, v => do
      let m ← get
      match lock m.heap v with
      | some p => write (some p)
      | none => writeUInt16 0

/-- `memcpy` of the next bytes, and what happens if there are not as many. -/
def readFixed (short : Fault) (count : Nat) : Run (List UInt8) := fun m =>
  if m.bb.offset + count > m.bb.buf.length then .error short m
  else .ok ((m.bb.buf.drop m.bb.offset).take count) (m.advanced count)

/-- The check that there are as many bytes. The sum is a `size_t`. -/
def checkEnd (beyond : Int) (len : Nat) : Run Nat := fun m =>
  if (m.bb.offset + len) % 2 ^ 64 > m.bb.buf.length then .error (.code beyond) m else .ok len m

/-- The check of a length that is read. -/
def checkLimit (above : Int) (len : Nat) : Run Nat := fun m =>
  if m.bb.readLengthLimit ≠ 0 ∧ len > m.bb.readLengthLimit then .error (.code above) m else .ok len m

/-- A length, with the codes for one above the limit and for one beyond the end. -/
def readLength (above beyond : Int) : Run Nat := do checkEnd beyond (← checkLimit above (← readSize))

def readString : Run (List UInt8) := do readFixed .invalid (← readLength (-16) (-17))

/-- `BFuncs<T>::ReadFrom`. A `weak_ptr` gets what a `shared_ptr` was read for, which one of the maps keeps alive. -/
def readValue (short : Fault) (read : PtrType → Run (Option Addr)) : (type : FieldType) → Run type.Value
  | .bool => do
      match ← readFixed short 1 with
      | [0] => return false
      | [1] => return true
      | _ => throw .invalid
  | .int8 | .uint8 => do
      match ← readFixed short 1 with
      | [b] => return b.toBitVec
      | _ => throw .invalid
  | .int16 => readVarInteger true 16
  | .uint16 => readVarInteger false 16
  | .int32 => readVarInteger true 32
  | .uint32 => readVarInteger false 32
  | .float => do
      match ← readFixed short 4 with
      | [a, b, c, d] => return d.toBitVec ++ c.toBitVec ++ b.toBitVec ++ a.toBitVec
      | _ => throw .invalid
  | .string => readString
  | .shared T => read T
  | .weak T => read T

/-! ## Objects -/

def writeCell (write : Option Addr → Run Unit) (cell : Cell) : Run Unit := writeValue write cell.1 cell.2

/-- `ToBBuffer`. Elements of one byte and floats are copied as a block, which is what the loop does. -/
def toBBuffer (write : Option Addr → Run Unit) : Object → Run Unit
  | .string data => writeString data
  | .bbuffer data => do
      writeSize data.length
      append data
  | .list type items => do
      writeSize items.length
      items.forM (writeValue write type)
  | .user _ cells => cells.forM (writeCell write)

/-- `WritePtr`. `fuel` bounds how deep objects nest. -/
def writePtr (types : Types) : Nat → Option Addr → Run Unit
  | 0, _ => throw .endless
  | _ + 1, none => writeUInt16 0
  | fuel + 1, some v => do
      let object ← load v
      writeUInt16 (types.typeId object.class)
      let m ← get
      match m.bb.ptrs v with
      | some offs => writeSize offs
      | none =>
          let offs := m.bb.buf.length - m.bb.offsetRoot
          set { m with bb := { m.bb with ptrs := Function.update m.bb.ptrs v (some offs) } }
          writeSize offs
          toBBuffer (writePtr types fuel) object

def readCell (read : PtrType → Run (Option Addr)) (type : FieldType) : Run Cell := do
  return ⟨type, ← readValue (.code (-12)) read type⟩

/-- `FromBBuffer` of a `BBuffer`, for which there is no limit. -/
def readBuffer : Run (List UInt8) := do readFixed .invalid (← checkEnd (-11) (← readSize))

/-- `FromBBuffer`. There is no check for a block of elements, of which each may have more than one byte. -/
def fromBBuffer (types : Types) (read : PtrType → Run (Option Addr)) : Class → Run Object
  | .string => do return .string (← readString)
  | .bbuffer => do return .bbuffer (← readBuffer)
  | .list type => do return .list type (← collect (readValue .invalid read type) (← readLength (-1) (-2)))
  | .user type => do return .user type (← collectAll ((types.fields type).map (readCell read)))

/-- A new object, with an entry for it in one of the maps. -/
def Memory.published (m : Memory) (types : Types) (ptrOffset : Nat) (C : Class) : Memory :=
  let heap := m.heap ++ [some (types.make C)]
  if C = .string then
    { m with heap := heap, bb := { m.bb with strIdxs := insert m.bb.strIdxs ptrOffset m.heap.length } }
  else { m with heap := heap, bb := { m.bb with objIdxs := insert m.bb.objIdxs ptrOffset m.heap.length } }

def publish (types : Types) (ptrOffset : Nat) (C : Class) : Run Addr := fun m =>
  .ok m.heap.length (m.published types ptrOffset C)

def store (p : Addr) (object : Object) : Run Unit := modify fun m => { m with heap := m.heap.set p (some object) }

/-- The code for a type id that a pointer of the type `T` does not take. -/
def Types.refused (types : Types) (T : PtrType) (typeId : UInt16) : Option Int :=
  if T = .string ∧ typeId ≠ 1 then some (-1)
  else if T ≠ .string ∧ typeId < 2 then some (-2)
  else if typeId > 2 ∧ types.creators typeId = none then some (-3)
  else none

/-- `CreateByTypeId`, where the id of a `BBuffer` needs no entry. -/
def Types.create (types : Types) (typeId : UInt16) : Option Class :=
  if typeId = 2 then some .bbuffer else types.creators typeId

/-- The class of a new object for a pointer of the type `T`. -/
def Types.createFor (types : Types) (typeId : UInt16) : PtrType → Except Int Class
  | .string => .ok .string
  | .object type =>
      match types.create typeId with
      | none => .error (-3)
      | some C => if types.derives C type then .ok C else .error (-4)

/-- A new object is read. -/
def readNew (types : Types) (read : PtrType → Run (Option Addr)) (ptrOffset : Nat) (C : Class) : Run (Option Addr) := do
  let p ← publish types ptrOffset C
  let object ← fromBBuffer types read C
  store p object
  return some p

/-- An object that was read before. -/
def readBack (types : Types) (typeId : UInt16) (ptrOffset : Nat) : PtrType → Run (Option Addr)
  | .string => fun m =>
      match find m.bb.strIdxs ptrOffset with
      | none => .error (.code (-5)) m
      | some p => .ok (some p) m
  | .object type => fun m =>
      match find m.bb.objIdxs ptrOffset with
      | none => .error (.code (-6)) m
      | some p =>
          match load p m with
          | .error fault m => .error fault m
          | .ok object m =>
              if types.typeId object.class ≠ typeId then .error (.code (-7)) m
              else if types.derives object.class type then .ok (some p) m
              else .error (.code (-8)) m

/-- `ReadPtr` for a pointer of the type `T` that is empty. -/
def readPtr (types : Types) : Nat → PtrType → Run (Option Addr)
  | 0, _ => throw .endless
  | fuel + 1, T => do
      let typeId ← readUInt16
      if typeId = 0 then return none
      match types.refused T typeId with
      | some r => throw (.code r)
      | none => do
          let m ← get
          let ptrOffset ← readSize
          if ptrOffset = m.bb.offset - m.bb.offsetRoot then
            match types.createFor typeId T with
            | .error r => throw (.code r)
            | .ok C => readNew types (readPtr types fuel) ptrOffset C
          else readBack types typeId ptrOffset T

/-! ## Roots -/

/-- `WriteRoot`: there are as many objects as the heap has. -/
def writeRoot (types : Types) (v : Option Addr) : Run Unit := do
  modify fun m => { m with bb := { m.bb with offsetRoot := m.bb.buf.length } }
  let m ← get
  writePtr types (m.heap.length + 1) v
  modify fun m => { m with bb := { m.bb with ptrs := fun _ => none } }

/-- Both maps let go of their objects. The pointers of an `unordered_map` go in some order, here in that of the list. -/
def Memory.cleared (m : Memory) (r : Option Addr) : Memory :=
  let objs := m.bb.objIdxs.map Prod.snd
  let strs := m.bb.strIdxs.map Prod.snd
  let heap := release Object.edges (strs ++ (r.toList ++ m.owners)) m.heap objs
  { m with
    heap := release Object.edges (r.toList ++ m.owners) heap strs
    bb := { m.bb with objIdxs := [], strIdxs := [] } }

/-- `v.reset()` -/
def Memory.reset (m : Memory) (v : Option Addr) : Memory :=
  { m with heap := release Object.edges m.owners m.heap v.toList }

/-- `ReadRoot` into the pointer `v`, which is not one of `owners`. An object has at least one byte. What is destroyed
after an error is not followed. -/
def readRoot (types : Types) (T : PtrType) (v : Option Addr) : Run (Option Addr) := do
  modify fun m => { m.reset v with bb := { m.bb with offsetRoot := m.bb.offset } }
  let m ← get
  tryCatch (do
      let r ← readPtr types (m.bb.buf.length + 1) T
      modify fun m => m.cleared r
      return r)
    fun fault => do
      modify fun m => { m with bb := { m.bb with objIdxs := [], strIdxs := [] } }
      throw fault

end Xxlib.Uv3
