import Xxlib.Gens.ClassCpp
import Xxlib.Interop.Integers
import Xxlib.Lib.Ownership

/-! Values of generated classes, and what `ToBBuffer` and `FromBBuffer` do with them (the C++ of
`gens/pkggen/GenCPP_Class.cs`, over `test_uv_3/xx_bbuffer.h`).

A member of a class, and an element of a `List`, is a pointer where the template has a string, a `BBuffer`, a `List` or
a class. A struct is a part of the object, and a string in it is a part of the struct. For lists, buffers and classes in
a struct, and for nullables, tuples and dates, there is no `BFuncs` but the one that asserts.

A type with a number is a generated class or an instance of `List`. What is destroyed is not followed.
-/

set_option autoImplicit false

namespace Xxlib.Gens.Messages

open Lib
open Interop (IntType)
open Uv3 (Addr PtrType Fault)

/-! ## Types -/

/-- What `BFuncs` has a case for. An enum is the integer below it. -/
inductive WireType where
  | number (type : IntType)
  | float
  | double
  | string
  | shared (T : PtrType)
  | weak (T : PtrType)

/-- A float is its bits. -/
def WireType.Value : WireType → Type
  | .number type => type.Value
  | .float => BitVec 32
  | .double => Float
  | .string => List UInt8
  | .shared _ | .weak _ => Option Addr

abbrev Cell := (type : WireType) × type.Value

/-- The type of a member, or of the elements of a `List`. -/
inductive Layout where
  | wire (type : WireType)
  | struct (S : Struct) (layout : FieldInfo → Layout)

inductive Value where
  | cell (cell : Cell)
  | struct (S : Struct) (member : FieldInfo → Value)

abbrev Members := FieldInfo → Value

inductive Shape where
  | list (item : Layout)
  | generated (c : Class)

/-- The classes of the template and the instances of `List`, with the types of all fields, the values that a constructor
gives them, and what `Register` has put into `creators`. -/
structure Schema where
  shape : Nat → Shape
  layout : FieldInfo → Layout
  initial : Members
  typeId : Nat → UInt16
  creators : UInt16 → Option Nat
  derives : Uv3.Class → Nat → Bool

/-- For `BBuffer`, a type with a number is some class of the program. -/
def Schema.types (schema : Schema) : Uv3.Types where
  fields := fun _ => []
  listId := fun _ => 0
  userId := schema.typeId
  creators := fun typeId => (schema.creators typeId).map .user
  derives := schema.derives

/-! ## Memory -/

inductive Object where
  | string (data : List UInt8)
  | bbuffer (data : List UInt8)
  | list (type : Nat) (items : List Value)
  | generated (type : Nat) (member : Members)

def Object.class : Object → Uv3.Class
  | .string _ => .string
  | .bbuffer _ => .bbuffer
  | .list type _ | .generated type _ => .user type

structure Store where
  heap : List (Option Object) := []
  bb : Uv3.BBuffer := {}

abbrev Run := EStateM Fault Store

/-- The buffer, where no object matters. -/
def Store.core (s : Store) : Uv3.Memory := { bb := s.bb }

/-- What a buffer does without looking at objects. -/
def onBuffer {α : Type} (run : Uv3.Run α) : Run α := fun s =>
  match run s.core with
  | .ok x m => .ok x { s with bb := m.bb }
  | .error fault m => .error fault { s with bb := m.bb }

def load (addr : Addr) : Run Object := fun s =>
  match s.heap[addr]? with
  | some (some object) => .ok object s
  | _ => .error .invalid s

/-- `weak_ptr::lock` -/
def lock (heap : List (Option Object)) (v : Option Addr) : Option Addr :=
  v.filter fun a => (heap[a]?.join).isSome

/-! ## Numbers -/

def infinity : Float := Float.ofBits 0x7FF0000000000000

def quietNaN : Float := Float.ofBits 0x7FF8000000000000

/-- The bytes of a double, as `memcpy` takes them. -/
def doubleBytes (v : Float) : List UInt8 :=
  (List.range 8).map fun i => ⟨(v.toBits.toBitVec >>> (8 * i)).setWidth 8⟩

def doubleOf (bytes : List UInt8) : Float :=
  Float.ofBits ⟨bytes.foldr (fun b bits => bits <<< 8 ||| b.toBitVec.setWidth 64) 0#64⟩

/-- `BFuncs<double>::WriteTo` -/
def writeDouble (v : Float) : Uv3.Run Unit :=
  if v == 0 then Uv3.append [0]
  else if v.isNaN then Uv3.append [1]
  else if v == -infinity then Uv3.append [2]
  else if v == infinity then Uv3.append [3]
  else if v == v.toInt32.toFloat then do
    Uv3.append [4]
    Uv3.writeVarIntger true v.toInt32.toBitVec
  else Uv3.append (5 :: doubleBytes v)

/-- What follows the first byte of a double. -/
def readTagged (b : UInt8) : Uv3.Run Float :=
  if b = 0 then return 0
  else if b = 1 then return quietNaN
  else if b = 2 then return -infinity
  else if b = 3 then return infinity
  else if b = 4 then do return (Int32.ofBitVec (← Uv3.readVarInteger true 32)).toFloat
  else if b = 5 then do return doubleOf (← Uv3.readFixed (.code (-14)) 8)
  else throw (.code (-15))

/-- `BFuncs<double>::ReadFrom` -/
def readDouble : Uv3.Run Float := do
  match ← Uv3.readFixed (.code (-13)) 1 with
  | [b] => readTagged b
  | _ => throw .invalid

def readFloat (short : Fault) : Uv3.Run (BitVec 32) := do
  match ← Uv3.readFixed short 4 with
  | [a, b, c, d] => return d.toBitVec ++ c.toBitVec ++ b.toBitVec ++ a.toBitVec
  | _ => throw .invalid

/-! ## Values -/

/-- `BFuncs<T>::WriteTo` -/
def writeWire (write : Option Addr → Run Unit) : (type : WireType) → type.Value → Run Unit
  | .number type, v => onBuffer (Interop.cppWrite type v)
  | .float, v => onBuffer (Uv3.append (Uv3.floatBytes v))
  | .double, v => onBuffer (writeDouble v)
  | .string, v => onBuffer (Uv3.writeString v)
  | .shared _, v => write v
  | .weak _, v => do
      let s ← get
      match lock s.heap v with
      | some p => write (some p)
      | none => onBuffer (Uv3.writeUInt16 0)

/-- `BFuncs<T>::ReadFrom` -/
def readWire (short : Fault) (read : PtrType → Run (Option Addr)) : (type : WireType) → Run type.Value
  | .number type => onBuffer (Interop.cppRead type)
  | .float => onBuffer (readFloat short)
  | .double => onBuffer readDouble
  | .string => onBuffer Uv3.readString
  | .shared T => read T
  | .weak T => read T

/-- A struct is written by the call that `genWriteTo` gives the arguments of. -/
def writeValue (write : Option Addr → Run Unit) : Value → Run Unit
  | .cell cell => writeWire write cell.1 cell.2
  | .struct S member => ((genWriteTo S.fields).map Prod.snd).forM fun f => writeValue write (member f)

/-- One member after the other. -/
def readMembers (read : FieldInfo → Run Value) : List FieldInfo → Members → Run Members
  | [], member => pure member
  | f :: fs, member => do
      let v ← read f
      readMembers read fs (Function.update member f v)

/-- A struct is read by the call that `genReadFrom` gives the arguments of. No limit is set there. -/
def readValue (initial : Members) (read : PtrType → Run (Option Addr)) : Layout → Run Value
  | .wire type => do return .cell ⟨type, ← readWire (.code (-12)) read type⟩
  | .struct S layout => do
      let fs := (genReadFrom S.fields).map Prod.snd
      return .struct S (← readMembers (fun f => readValue initial read (layout f)) fs initial)

/-- An element of a `List`. Floats are copied as a block, without a check that there are as many. -/
def readItem (initial : Members) (read : PtrType → Run (Option Addr)) : Layout → Run Value
  | .wire .float => do return .cell ⟨.float, ← readWire .invalid read .float⟩
  | item => readValue initial read item

/-! ## Objects -/

def Class.levels (c : Class) : List (List FieldInfo) := c.own :: c.bases

/-- The fields that the emitted `ToBBuffer` writes. There is no `CustomSerialize`, for which nothing is emitted. -/
def Class.written (c : Class) : List FieldInfo := (Gens.written (levels c)).toOption.getD []

def Schema.written (schema : Schema) (type : Nat) : List FieldInfo :=
  match schema.shape type with
  | .list _ => []
  | .generated c => Class.written c

/-- `ToBBuffer` -/
def toBBuffer (schema : Schema) (write : Option Addr → Run Unit) : Object → Run Unit
  | .string data | .bbuffer data => onBuffer (Uv3.writeString data)
  | .list _ items => do
      onBuffer (Uv3.writeSize items.length)
      items.forM (writeValue write)
  | .generated type member => (schema.written type).forM fun f => writeValue write (member f)

/-- `bb.readLengthLimit = limit`, which makes a `size_t` of an `int`. -/
def setLimit (limit : Int) : Run Unit :=
  modify fun s => { s with bb := { s.bb with readLengthLimit := (limit % 2 ^ 64).toNat } }

/-- What the statements of a method do that reads. `base` and `core` are the methods that it calls. -/
def execute (base core : Members → Run Members) (read : FieldInfo → Run Value) : List Stmt → Members → Run Members
  | [], member => pure member
  | .baseFromBBuffer :: rest, member => do execute base core read rest (← base member)
  | .fromBBufferCore :: _, member => core member
  | .readLengthLimit limit :: rest, member => do
      setLimit limit
      execute base core read rest member
  | .read f :: rest, member => do
      let v ← read f
      execute base core read rest (Function.update member f v)
  | .returnZero :: _, member => pure member
  -- these two write
  | .baseToBBuffer :: rest, member | .write _ :: rest, member => execute base core read rest member

/-- The emitted `FromBBufferCore`. -/
def fromBBufferCore (read : FieldInfo → Run Value) (own : List FieldInfo) (bases : List (List FieldInfo)) :
    Members → Run Members :=
  execute pure pure read (genFromBBufferCore own bases)

/-- The emitted `FromBBuffer` of a class, which is called for its base first. -/
def fromBBufferLevels (read : FieldInfo → Run Value) : List (List FieldInfo) → Members → Run Members
  | [] => pure
  | own :: bases =>
      execute (fromBBufferLevels read bases) (fromBBufferCore read own bases) read (genFromBBuffer bases)

/-- `FromBBuffer` -/
def fromBBuffer (schema : Schema) (read : PtrType → Run (Option Addr)) : Uv3.Class → Run Object
  | .string => do return .string (← onBuffer Uv3.readString)
  | .bbuffer => do return .bbuffer (← onBuffer Uv3.readBuffer)
  | .user type =>
      match schema.shape type with
      | .list item => do
          let count ← onBuffer (Uv3.readLength (-1) (-2))
          return .list type (← Lib.collect (readItem schema.initial read item) count)
      | .generated c => do
          let readField := fun f => readValue schema.initial read (schema.layout f)
          return .generated type (← fromBBufferLevels readField (Class.levels c) schema.initial)
  -- a `List` is a type with a number
  | .list _ => throw .invalid

/-- What a constructor leaves. -/
def Schema.make (schema : Schema) : Uv3.Class → Object
  | .string => .string []
  | .bbuffer | .list _ => .bbuffer []
  | .user type =>
      match schema.shape type with
      | .list _ => .list type []
      | .generated _ => .generated type schema.initial

/-! ## Pointers -/

/-- `WritePtr`. `fuel` bounds how deep objects nest. -/
def writePtr (schema : Schema) : Nat → Option Addr → Run Unit
  | 0, _ => throw .endless
  | _ + 1, none => onBuffer (Uv3.writeUInt16 0)
  | fuel + 1, some v => do
      let object ← load v
      onBuffer (Uv3.writeUInt16 (schema.types.typeId object.class))
      let s ← get
      match s.bb.ptrs v with
      | some offs => onBuffer (Uv3.writeSize offs)
      | none =>
          let offs := s.bb.buf.length - s.bb.offsetRoot
          set { s with bb := { s.bb with ptrs := Function.update s.bb.ptrs v (some offs) } }
          onBuffer (Uv3.writeSize offs)
          toBBuffer schema (writePtr schema fuel) object

/-- `strIdxs[ptrOffset] = p` or `objIdxs[ptrOffset] = p` -/
def entered (bb : Uv3.BBuffer) (ptrOffset : Nat) (C : Uv3.Class) (p : Addr) : Uv3.BBuffer :=
  if C = .string then { bb with strIdxs := Uv3.insert bb.strIdxs ptrOffset p }
  else { bb with objIdxs := Uv3.insert bb.objIdxs ptrOffset p }

/-- A new object, with an entry for it in one of the maps. -/
def Store.published (s : Store) (schema : Schema) (ptrOffset : Nat) (C : Uv3.Class) : Store where
  heap := s.heap ++ [some (schema.make C)]
  bb := entered s.bb ptrOffset C s.heap.length

def publish (schema : Schema) (ptrOffset : Nat) (C : Uv3.Class) : Run Addr := fun s =>
  .ok s.heap.length (s.published schema ptrOffset C)

def store (p : Addr) (object : Object) : Run Unit := modify fun s => { s with heap := s.heap.set p (some object) }

/-- A new object is read. -/
def readNew (schema : Schema) (read : PtrType → Run (Option Addr)) (ptrOffset : Nat) (C : Uv3.Class) :
    Run (Option Addr) := do
  let p ← publish schema ptrOffset C
  let object ← fromBBuffer schema read C
  store p object
  return some p

/-- An object that was read before. -/
def readKnown (schema : Schema) (typeId : UInt16) (ptrOffset : Nat) : PtrType → Run (Option Addr)
  | .string => fun s =>
      match Uv3.find s.bb.strIdxs ptrOffset with
      | none => .error (.code (-5)) s
      | some p => .ok (some p) s
  | .object type => fun s =>
      match Uv3.find s.bb.objIdxs ptrOffset with
      | none => .error (.code (-6)) s
      | some p =>
          match load p s with
          | .error fault s => .error fault s
          | .ok object s =>
              if schema.types.typeId object.class ≠ typeId then .error (.code (-7)) s
              else if schema.derives object.class type then .ok (some p) s
              else .error (.code (-8)) s

/-- `ReadPtr` -/
def readPtr (schema : Schema) : Nat → PtrType → Run (Option Addr)
  | 0, _ => throw .endless
  | fuel + 1, T => do
      let typeId ← onBuffer Uv3.readUInt16
      if typeId = 0 then return none
      match schema.types.refused T typeId with
      | some r => throw (.code r)
      | none => do
          let s ← get
          let ptrOffset ← onBuffer Uv3.readSize
          if ptrOffset = s.bb.offset - s.bb.offsetRoot then
            match schema.types.createFor typeId T with
            | .error r => throw (.code r)
            | .ok C => readNew schema (readPtr schema fuel) ptrOffset C
          else readKnown schema typeId ptrOffset T

/-- `WriteRoot`: there are as many objects as the heap has. -/
def writeRoot (schema : Schema) (v : Option Addr) : Run Unit := do
  modify fun s => { s with bb := { s.bb with offsetRoot := s.bb.buf.length } }
  let s ← get
  writePtr schema (s.heap.length + 1) v
  modify fun s => { s with bb := { s.bb with ptrs := fun _ => none } }

def Store.cleared (s : Store) : Store := { s with bb := { s.bb with objIdxs := [], strIdxs := [] } }

/-- `ReadRoot`: an object has at least one byte. -/
def readRoot (schema : Schema) (T : PtrType) : Run (Option Addr) := do
  modify fun s => { s with bb := { s.bb with offsetRoot := s.bb.offset } }
  let s ← get
  tryCatch (do
      let r ← readPtr schema (s.bb.buf.length + 1) T
      modify Store.cleared
      return r)
    fun fault => do
      modify Store.cleared
      throw fault

end Xxlib.Gens.Messages
