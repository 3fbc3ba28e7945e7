import Xxlib.Lib.Codec
import Xxlib.Lib.Varint
import Mathlib.Data.List.Basic

/-! `BBuffer`: objects and values as bytes (`xx_bbuffer.go`, `xx_iobject.go`,
`xx_nullables.go`), with the generated packages of `sim_pkg_gen.go`.

A method works on the memory of the program: the objects, by address, and the buffer that
is written or read. A panic leaves the memory as it was then.
-/

set_option autoImplicit false

namespace Xxlib.Go

/-! ## Memory -/

/-- A `[]uint8`. `spare` is what its array holds between the length and the capacity. -/
structure Slice where
  data : List UInt8 := []
  spare : List UInt8 := []
  deriving DecidableEq, Inhabited

/-- `append(s, bytes...)`. If the capacity does not suffice the array is a new one, here without room. -/
def Slice.append (s : Slice) (bytes : List UInt8) : Slice := ⟨s.data ++ bytes, s.spare.drop bytes.length⟩

/-- `s[:length]`, for a length that the slice has. -/
def Slice.cut (s : Slice) (length : Nat) : Slice := ⟨s.data.take length, s.data.drop length ++ s.spare⟩

abbrev Addr := Nat

/-- The dynamic types, by package id. -/
inductive Kind where
  | string
  | bbuffer
  | foo
  | listInt32
  | fooExt1
  | listFooExt1
  deriving DecidableEq

def Kind.packageId : Kind → UInt16
  | .string => 1
  | .bbuffer => 2
  | .foo => 3
  | .listInt32 => 4
  | .fooExt1 => 5
  | .listFooExt1 => 6

/-- A value of an interface type: `nil`, a nil pointer of some type, or a pointer to an object. -/
inductive IObject where
  | nil
  | typedNil (kind : Kind)
  | ptr (addr : Addr)
  deriving DecidableEq, Inhabited

structure NullableInt32 where
  value : Int32 := 0
  hasValue : Bool := false
  deriving DecidableEq, Inhabited

/-- A string is the list of its bytes. -/
structure NullableString where
  value : List UInt8 := []
  hasValue : Bool := false
  deriving DecidableEq, Inhabited

/-- A map is the list of its entries, the last one first. -/
structure BBuffer where
  buf : Slice := {}
  offset : Nat := 0
  readLengthLimit : Int := 0
  dataLenBak : Int := 0
  offsetRoot : Nat := 0
  strStore : List (List UInt8 × Addr) := []
  ptrStore : List (Addr × Nat) := []
  idxStore : List (Int × Addr) := []
  deriving DecidableEq, Inhabited

/-- `PKG_Foo`. -/
structure Foo where
  id : Int32 := 0
  name : NullableString := {}
  age : NullableInt32 := {}
  parent : IObject := .nil
  deriving DecidableEq, Inhabited

/-- `PKG_FooExt1`. -/
structure FooExt1 extends Foo where
  childIds : IObject := .nil
  deriving DecidableEq, Inhabited

inductive Obj where
  | string (value : List UInt8)
  | bbuffer (bb : BBuffer)
  | foo (value : Foo)
  | listInt32 (items : List Int32)
  | fooExt1 (value : FooExt1)
  | listFooExt1 (items : List IObject)
  deriving DecidableEq, Inhabited

def Obj.kind : Obj → Kind
  | .string _ => .string
  | .bbuffer _ => .bbuffer
  | .foo _ => .foo
  | .listInt32 _ => .listInt32
  | .fooExt1 _ => .fooExt1
  | .listFooExt1 _ => .listFooExt1

/-- `panic(code)`, and the panics of the runtime. The last one is none of the program: the model came to
the end of the nesting that it follows. -/
inductive Panic where
  | code (n : Int)
  | index
  | slice
  | assertion
  | address
  | fuel
  deriving DecidableEq

structure Memory where
  heap : List Obj
  bb : BBuffer
  deriving DecidableEq

abbrev Run := EStateM Panic Memory

def raise {α : Type} (panic : Panic) : Run α := throw panic

/-- What is appended to `zs.Buf`. -/
def append (bytes : List UInt8) : Run Unit :=
  modify fun m => { m with bb := { m.bb with buf := m.bb.buf.append bytes } }

/-- `zs.Buf[zs.Offset]`, with `zs.Offset++`. -/
def nextByte : Run UInt8 := fun m =>
  match m.bb.buf.data[m.bb.offset]? with
  | none => .error .index m
  | some b => .ok b { m with bb := { m.bb with offset := m.bb.offset + 1 } }

/-- `zs.Buf[zs.Offset:zs.Offset + bufLen]`, with `zs.Offset += bufLen`. A slice may reach up to the
capacity. -/
def nextBytes (bufLen : Int) : Run (List UInt8) := fun m =>
  let buf := m.bb.buf
  if 0 ≤ bufLen ∧ m.bb.offset + bufLen ≤ buf.data.length + buf.spare.length then
    .ok (((buf.data ++ buf.spare).drop m.bb.offset).take bufLen.toNat)
      { m with bb := { m.bb with offset := m.bb.offset + bufLen.toNat } }
  else .error .slice m

/-! ## Numbers -/

/-- What the loop of `WriteVarUInt64` appends. A `uint64` has ten groups of seven bits. -/
def varUInt64Bytes : Nat → UInt64 → List UInt8
  | 0, _ => []
  | fuel + 1, v =>
      if v ≥ (1 : UInt64) <<< 7 then (v &&& 0x7f ||| 0x80).toUInt8 :: varUInt64Bytes fuel (v >>> 7) else [v.toUInt8]

def writeVarUInt64 (v : UInt64) : Run Unit := append (varUInt64Bytes 10 v)

/-- The loop of `ReadVarUInt64`: the number, and the offset behind it. -/
def readVarUInt64Loop (buf : List UInt8) : Nat → Nat → UInt64 → UInt64 → Except Panic (UInt64 × Nat)
  | 0, _, _, _ => .error (.code (-1))
  | fuel + 1, offset, shift, r =>
      match buf[offset]? with
      | none => .error .index
      | some b =>
          let r := r ||| (b.toUInt64 &&& 0x7F) <<< shift
          if b.toUInt64 &&& 0x80 = 0 then .ok (r, offset + 1)
          else readVarUInt64Loop buf fuel (offset + 1) (shift + 7) r

def readVarUInt64 : Run UInt64 := fun m =>
  match readVarUInt64Loop m.bb.buf.data 10 m.bb.offset 0 0 with
  | .error panic => .error panic m
  | .ok (r, offset) => .ok r { m with bb := { m.bb with offset := offset } }

def zigzag (v : Int64) : UInt64 := (v <<< 1).toUInt64 ^^^ (v >>> 63).toUInt64

def unzigzag (v : UInt64) : Int64 := (v >>> 1).toInt64 ^^^ -(v &&& 1).toInt64

def writeVarInt64 (v : Int64) : Run Unit := writeVarUInt64 (zigzag v)

def readVarInt64 : Run Int64 := return unzigzag (← readVarUInt64)

def writeLength (v : Nat) : Run Unit := writeVarUInt64 (UInt64.ofNat v)

/-- An `int` has 64 bits. -/
def readLength : Run Int := return (← readVarUInt64).toInt64.toInt

def writeBool (v : Bool) : Run Unit := append [if v then 1 else 0]

def readBool : Run Bool := return decide ((← nextByte) > 0)

def writeInt8 (v : Int8) : Run Unit := append [v.toUInt8]

def readInt8 : Run Int8 := return (← nextByte).toInt8

def writeInt16 (v : Int16) : Run Unit := writeVarInt64 v.toInt64

def readInt16 : Run Int16 := return (← readVarInt64).toInt16

def writeInt32 (v : Int32) : Run Unit := writeVarInt64 v.toInt64

def readInt32 : Run Int32 := return (← readVarInt64).toInt32

def writeInt64 (v : Int64) : Run Unit := writeVarInt64 v

def readInt64 : Run Int64 := readVarInt64

def writeUInt8 (v : UInt8) : Run Unit := append [v]

def readUInt8 : Run UInt8 := nextByte

def writeUInt16 (v : UInt16) : Run Unit := writeVarUInt64 v.toUInt64

def readUInt16 : Run UInt16 := return (← readVarUInt64).toUInt16

def writeUInt32 (v : UInt32) : Run Unit := writeVarUInt64 v.toUInt64

def readUInt32 : Run UInt32 := return (← readVarUInt64).toUInt32

def writeUInt64 (v : UInt64) : Run Unit := writeVarUInt64 v

def readUInt64 : Run UInt64 := readVarUInt64

def writeNullableInt32 (v : NullableInt32) : Run Unit :=
  if v.hasValue then do
    append [1]
    writeVarInt64 v.value.toInt64
  else append [0]

def readNullableInt32 : Run NullableInt32 := do
  if ← readBool then return { value := ← readInt32, hasValue := true } else return {}

/-! ## Objects -/

def alloc (obj : Obj) : Run Addr := fun m => .ok m.heap.length { m with heap := m.heap ++ [obj] }

def load (addr : Addr) : Run Obj := fun m =>
  match m.heap[addr]? with
  | none => .error .address m
  | some obj => .ok obj m

def store (addr : Addr) (obj : Obj) : Run Unit := modify fun m => { m with heap := m.heap.set addr obj }

/-- The pointer that `strStore` has for a string, which is a new one if it has none. -/
def intern (value : List UInt8) : Run IObject := do
  match (← get).bb.strStore.lookup value with
  | some addr => return .ptr addr
  | none => do
      let addr ← alloc (.string value)
      modify fun m => { m with bb := { m.bb with strStore := (value, addr) :: m.bb.strStore } }
      return .ptr addr

/-! The methods of the objects call `WriteIObject` and `ReadIObject`, which call them. -/

section
variable (writeIObject : IObject → Run Unit)

def writeNullableString (v : NullableString) : Run Unit := do
  if v.hasValue then writeIObject (← intern v.value) else append [0]

def writeFoo (v : Foo) : Run Unit := do
  writeInt32 v.id
  writeNullableString writeIObject v.name
  writeNullableInt32 v.age
  writeIObject v.parent

def toBBuffer : Obj → Run Unit
  | .string value => do
      writeLength value.length
      append value
  | .bbuffer bb => do
      writeLength bb.buf.data.length
      append bb.buf.data
  | .foo v => writeFoo writeIObject v
  | .listInt32 items => do
      writeLength items.length
      items.forM writeInt32
  | .fooExt1 v => do
      writeFoo writeIObject v.toFoo
      writeIObject v.childIds
  | .listFooExt1 items => do
      writeLength items.length
      items.forM writeIObject

end

section
variable (readIObject : Run IObject)

def readNullableString : Run NullableString := do
  match ← readIObject with
  | .ptr addr =>
      match ← load addr with
      | .string value => return { value := value, hasValue := true }
      | _ => raise (.code (-1))
  | .nil => return {}
  | .typedNil _ => raise (.code (-1))

/-- A type assertion: `nil` stays, and an object has to be of one of `kinds`. -/
def assertKind (kinds : List Kind) : IObject → Run IObject
  | .nil => return .nil
  | .typedNil kind => if kind ∈ kinds then return .typedNil kind else raise .assertion
  | .ptr addr => do
      if (← load addr).kind ∈ kinds then return .ptr addr else raise .assertion

/-- The types that have a method `GetFoo`. -/
def fooKinds : List Kind := [.foo, .fooExt1]

def readPkgFoo : Run IObject := do assertKind fooKinds (← readIObject)

def readListInt32 : Run IObject := do assertKind [.listInt32] (← readIObject)

def readPkgFooExt1 : Run IObject := do assertKind [.fooExt1] (← readIObject)

def readFoo : Run Foo := do
  return { id := ← readInt32, name := ← readNullableString readIObject, age := ← readNullableInt32,
           parent := ← readPkgFoo readIObject }

/-- The check of a length against `ReadLengthLimit`. -/
def readCount : Run Int := do
  let count ← readLength
  let limit := (← get).bb.readLengthLimit
  if limit ≠ 0 ∧ count > limit then raise (.code (-1)) else return count

/-- What `FromBBuffer` makes of a new object. -/
def fromBBuffer : Kind → Run Obj
  | .string => return .string (← nextBytes (← readLength))
  | .bbuffer => return .bbuffer { buf := { data := ← nextBytes (← readCount) } }
  | .foo => return .foo (← readFoo readIObject)
  | .listInt32 => return .listInt32 (← Lib.collect readInt32 (← readCount).toNat)
  | .fooExt1 => do
      let foo ← readFoo readIObject
      return .fooExt1 { toFoo := foo, childIds := ← readListInt32 readIObject }
  | .listFooExt1 => return .listFooExt1 (← Lib.collect (readPkgFooExt1 readIObject) (← readCount).toNat)

end

/-- `typeIdCreatorMappings`, after `PKG_RegisterAll`. -/
def creators : List (UInt16 × Obj) :=
  [(1, .string []), (2, .bbuffer {}), (3, .foo {}), (4, .listInt32 []), (5, .fooExt1 {}), (6, .listFooExt1 [])]

def createByTypeId (typeId : UInt16) : Run (Addr × Kind) := do
  match creators.lookup typeId with
  | some obj => return (← alloc obj, obj.kind)
  | none => raise (.code (-3))

def writeIObject : Nat → IObject → Run Unit
  | 0, _ => raise .fuel
  | fuel + 1, v => do
      match v with
      | .nil => append [0]
      | .typedNil _ => append [0]
      | .ptr addr => do
          let obj ← load addr
          writeUInt16 obj.kind.packageId
          let bb := (← get).bb
          match bb.ptrStore.lookup addr with
          | some offset => writeLength offset
          | none => do
              let offset := bb.buf.data.length - bb.offsetRoot
              modify fun m => { m with bb := { m.bb with ptrStore := (addr, offset) :: m.bb.ptrStore } }
              writeLength offset
              toBBuffer (writeIObject fuel) obj

/-- The object is stored when it is complete: until then only its package id is asked for. -/
def readIObject : Nat → Run IObject
  | 0 => raise .fuel
  | fuel + 1 => do
      let typeId ← readUInt16
      if typeId = 0 then return .nil
      else do
        let bb := (← get).bb
        let offset : Int := bb.offset - bb.offsetRoot
        let ptrOffset ← readLength
        if ptrOffset = offset then do
          let (addr, kind) ← createByTypeId typeId
          modify fun m => { m with bb := { m.bb with idxStore := (ptrOffset, addr) :: m.bb.idxStore } }
          store addr (← fromBBuffer (readIObject fuel) kind)
          return .ptr addr
        else
          match (← get).bb.idxStore.lookup ptrOffset with
          | none => raise (.code (-5))
          | some addr =>
              if (← load addr).kind.packageId ≠ typeId then raise (.code (-6)) else return .ptr addr

def beginWrite : Run Unit :=
  modify fun m => { m with bb := { m.bb with strStore := [], ptrStore := [], offsetRoot := m.bb.buf.data.length } }

def beginRead : Run Unit :=
  modify fun m => { m with bb := { m.bb with idxStore := [], offsetRoot := m.bb.offset } }

/-- Objects are written when they are met for the first time, so that the nesting is not deeper than there
are objects, and one string. -/
def writeRoot (v : IObject) : Run Unit := do
  beginWrite
  writeIObject ((← get).heap.length + 2) v

/-- Each level of nesting takes a byte. -/
def readRoot : Run IObject := do
  beginRead
  let buf := (← get).bb.buf
  readIObject (buf.data.length + buf.spare.length + 1)

end Xxlib.Go
