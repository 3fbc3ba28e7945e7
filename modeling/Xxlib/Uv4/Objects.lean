import Mathlib.Logic.Function.Basic
import Xxlib.Lib.Codec
import Xxlib.Lib.ZigZag
import Xxlib.Uv4.Bytes

/-! Objects of a `MemPool`, and the graphs that a `BBuffer` writes and reads (`xx_bbuffer.hpp`, `xx_mempool.hpp`,
`xx_list.hpp`, `xx_bytesutils.hpp`).

An address is the number of an object. The buffer that is written to is not an object of the graph. The two
dictionaries of the pool are finite maps.
-/

set_option autoImplicit false

namespace Xxlib.Uv4

open Lib

abbrev Addr := Nat

/-- The element types of lists of integers. -/
inductive Integer where
  | int8
  | uint8
  | int16
  | uint16
  | int32
  | uint32
  | int64
  | uint64
  deriving DecidableEq

def Integer.bits : Integer → Nat
  | .int8 | .uint8 => 8
  | .int16 | .uint16 => 16
  | .int32 | .uint32 => 32
  | .int64 | .uint64 => 64

inductive Class where
  | string
  | bbuffer
  | list (type : Integer)
  | listOfPtr
  deriving DecidableEq

/-- What an object holds. Of a `BBuffer` it is the bytes: its other members are neither written nor read. -/
inductive Object where
  | string (data : List UInt8)
  | bbuffer (data : List UInt8)
  | list (type : Integer) (items : List (BitVec type.bits))
  | listOfPtr (items : List (Option Addr))

def Object.class : Object → Class
  | .string _ => .string
  | .bbuffer _ => .bbuffer
  | .list type _ => .list type
  | .listOfPtr _ => .listOfPtr

/-- What the constructors for an empty object leave. -/
def Class.empty : Class → Object
  | .string => .string []
  | .bbuffer => .bbuffer []
  | .list type => .list type []
  | .listOfPtr => .listOfPtr []

/-! ## Types -/

/-- `TypeId_v`, and the tables that `Register` fills. `Object` has the id 0. -/
structure Types where
  typeId : Class → UInt16
  pids : UInt16 → UInt16
  creators : UInt16 → Option Class

/-- `Register<T, PT>` -/
def Types.register (types : Types) (T : Class) (PT : UInt16) : Types :=
  { types with
    pids := Function.update types.pids (types.typeId T) PT
    creators := Function.update types.creators (types.typeId T) (some T) }

/-- The loop of `IsBaseOf`. No answer means that it goes round for ever. -/
def Types.isBaseOfLoop (types : Types) (baseTypeId : UInt16) : Nat → UInt16 → Option Bool
  | 0, _ => none
  | fuel + 1, typeId =>
      if typeId = baseTypeId then some true
      else if typeId = 0 ∨ typeId = types.pids typeId then some false
      else types.isBaseOfLoop baseTypeId fuel (types.pids typeId)

/-- There are 2 ^ 16 ids, so that a longer chain has come round. -/
def Types.isBaseOf (types : Types) (baseTypeId typeId : UInt16) : Option Bool :=
  types.isBaseOfLoop baseTypeId (2 ^ 16) typeId

/-! ## Memory -/

/-- The bytes up to `dataLen`, and the members that reading and writing use. -/
structure BBuffer where
  data : List UInt8 := []
  offset : Nat := 0
  offsetRoot : Nat := 0
  readLengthLimit : Nat := 0

/-- An object behind its header. `refs` of the header is kept apart. -/
structure Block where
  typeId : UInt16
  object : Object

structure Memory where
  heap : List Block := []
  refs : Addr → UInt32 := fun _ => 0
  ptrStore : Addr → Option Nat := fun _ => none
  idxStore : Nat → Option (Addr × UInt16) := fun _ => none
  bb : BBuffer := {}

/-- An error code, or that the code does not come back, or what a program must not do. -/
inductive Fault where
  | code (r : Int)
  | endless
  | invalid
  deriving DecidableEq

abbrev Run := EStateM Fault Memory

def Memory.appended (m : Memory) (bytes : List UInt8) : Memory :=
  { m with bb := { m.bb with data := m.bb.data ++ bytes } }

def Memory.advanced (m : Memory) (count : Nat) : Memory :=
  { m with bb := { m.bb with offset := m.bb.offset + count } }

def append (bytes : List UInt8) : Run Unit := modify fun m => m.appended bytes

def load (addr : Addr) : Run Block := fun m =>
  match m.heap[addr]? with
  | none => .error .invalid m
  | some block => .ok block m

/-! ## Numbers -/

/-- A `size_t` has 64 bits. -/
def sizeBytes (n : Nat) : List UInt8 := varWrite7U64 (UInt64.ofNat n)

def writeSize (n : Nat) : Run Unit := append (sizeBytes n)

def writeUInt16 (n : UInt16) : Run Unit := append (varWrite7U16 n)

/-- `VarRead7`, with the offset behind what was read. -/
def varRead {α : Type} (varRead7 : List UInt8 → Nat → Except Int (Nat × Nat)) (out : Nat → α) : Run α := fun m =>
  match varRead7 m.bb.data m.bb.offset with
  | .ok (n, offset) => .ok (out n) { m with bb := { m.bb with offset := offset } }
  | .error r => .error (.code r) m

def readUInt16 : Run UInt16 := varRead varRead7U16 UInt16.ofNat

def readSize : Run Nat := varRead varRead7U64 id

/-- One byte. -/
def readByte : Run UInt8 := fun m =>
  match m.bb.data[m.bb.offset]? with
  | some b => .ok b (m.advanced 1)
  | none => .error (.code (-1)) m

/-- `BytesFunc<T>::WriteTo` for the integers. -/
def Integer.bytes : (type : Integer) → BitVec type.bits → List UInt8
  | .int8, v => [⟨v⟩]
  | .uint8, v => [⟨v⟩]
  | .int16, v => varWrite7U16 ⟨zigZagEncode v⟩
  | .uint16, v => varWrite7U16 ⟨v⟩
  | .int32, v => varWrite7 ⟨zigZagEncode v⟩
  | .uint32, v => varWrite7 ⟨v⟩
  | .int64, v => varWrite7U64 ⟨zigZagEncode v⟩
  | .uint64, v => varWrite7U64 ⟨v⟩

def writeInteger (type : Integer) (v : BitVec type.bits) : Run Unit := append (type.bytes v)

/-- `BytesFunc<T>::ReadFrom` for the integers. -/
def readInteger : (type : Integer) → Run (BitVec type.bits)
  | .int8 => do return (← readByte).toBitVec
  | .uint8 => do return (← readByte).toBitVec
  | .int16 => varRead varRead7U16 fun n => zigZagDecode (BitVec.ofNat 16 n)
  | .uint16 => varRead varRead7U16 (BitVec.ofNat 16)
  | .int32 => varRead varRead7 fun n => zigZagDecode (BitVec.ofNat 32 n)
  | .uint32 => varRead varRead7 (BitVec.ofNat 32)
  | .int64 => varRead varRead7U64 fun n => zigZagDecode (BitVec.ofNat 64 n)
  | .uint64 => varRead varRead7U64 (BitVec.ofNat 64)

/-! ## Objects -/

/-- `ToBBuffer`. Elements of one byte are copied as a block, which is what the loop does. -/
def toBBuffer (write : Option Addr → Run Unit) : Object → Run Unit
  | .string data => do
      writeSize data.length
      append data
  | .bbuffer data => do
      writeSize data.length
      append data
  | .list type items => do
      writeSize items.length
      items.forM (writeInteger type)
  | .listOfPtr items => do
      writeSize items.length
      items.forM write

/-- `WritePtr`. `fuel` bounds how deep objects nest. -/
def writePtr : Nat → Option Addr → Run Unit
  | 0, _ => throw .endless
  | _ + 1, none => append [0]
  | fuel + 1, some v => do
      let block ← load v
      writeUInt16 block.typeId
      let m ← get
      match m.ptrStore v with
      | some offset => writeSize offset
      | none =>
          let offset := m.bb.data.length - m.bb.offsetRoot
          set { m with ptrStore := Function.update m.ptrStore v (some offset) }
          writeSize offset
          toBBuffer (writePtr fuel) block.object

/-- The number of elements, with the checks of `FromBBuffer`. The sum is a `size_t`. -/
def readLength : Run Nat := do
  let len ← readSize
  let m ← get
  if m.bb.readLengthLimit ≠ 0 ∧ len > m.bb.readLengthLimit then throw (.code (-1))
  if (m.bb.offset + len) % 2 ^ 64 > m.bb.data.length then throw (.code (-2))
  return len

/-- `memcpy` of the next bytes. -/
def readBytes (len : Nat) : Run (List UInt8) := fun m =>
  if m.bb.offset + len ≤ m.bb.data.length then .ok ((m.bb.data.drop m.bb.offset).take len) (m.advanced len)
  else .error .invalid m

/-- `out = t` of `Ptr`, for an empty `out`. -/
def assign (t : Option Addr) : Run Unit :=
  match t with
  | none => pure ()
  | some p => modify fun m => { m with refs := Function.update m.refs p (m.refs p + 1) }

/-- `ReadFrom` of a `Ptr` that is empty. -/
def readTo (read : Run (Option Addr)) : Run (Option Addr) := do
  let t ← read
  assign t
  return t

/-- The constructors from a `BBuffer`. -/
def fromBBuffer (read : Run (Option Addr)) : Class → Run Object
  | .string => do return .string (← readBytes (← readLength))
  | .bbuffer => do return .bbuffer (← readBytes (← readLength))
  | .list type => do return .list type (← collect (readInteger type) (← readLength))
  | .listOfPtr => do return .listOfPtr (← collect (readTo read) (← readLength))

/-- The address that the next object gets, with an entry for it. -/
def publish (types : Types) (ptrOffset : Nat) (T : Class) : Run Addr := fun m =>
  .ok m.heap.length { m with
    heap := m.heap ++ [⟨types.typeId T, T.empty⟩]
    refs := Function.update m.refs m.heap.length 0
    idxStore := Function.update m.idxStore ptrOffset (some (m.heap.length, types.typeId T)) }

def store (p : Addr) (block : Block) : Run Unit := modify fun m => { m with heap := m.heap.set p block }

/-- The function that `Register` puts into `creators`. A constructor that throws leaves no entry; what it had
counted is not undone here. -/
def create (types : Types) (read : Run (Option Addr)) (ptrOffset : Nat) (T : Class) : Run Addr := do
  let p ← publish types ptrOffset T
  tryCatch (do
      let object ← fromBBuffer read T
      store p ⟨types.typeId T, object⟩
      return p)
    fun
      | .code _ => do
          modify fun m => { m with idxStore := Function.update m.idxStore ptrOffset none }
          throw (.code (-3))
      | fault => throw fault

/-- `ReadPtr`, for a static type with the id `base`. -/
def readPtr (types : Types) (base : UInt16) : Nat → Run (Option Addr)
  | 0 => throw .endless
  | fuel + 1 => do
      let tid ← readUInt16
      if tid = 0 then return none
      match types.creators tid with
      | none => throw (.code (-5))
      | some T => do
          let m ← get
          let ptrOffset ← readSize
          if ptrOffset = m.bb.offset - m.bb.offsetRoot then
            match types.isBaseOf base tid with
            | none => throw .endless
            | some false => throw (.code (-2))
            | some true => return some (← create types (readPtr types 0 fuel) ptrOffset T)
          else
            match (← get).idxStore ptrOffset with
            | none => throw (.code (-4))
            | some (p, typeId) =>
                match types.isBaseOf base typeId with
                | none => throw .endless
                | some false => throw (.code (-2))
                | some true => return some p

/-! ## Roots -/

/-- `WriteRoot`: there are as many objects as the heap has. -/
def writeRoot (v : Option Addr) : Run Unit := do
  modify fun m => { m with ptrStore := fun _ => none, bb := { m.bb with offsetRoot := m.bb.data.length } }
  let m ← get
  writePtr (m.heap.length + 1) v

/-- `ReadRoot` into an empty `Ptr`. An object has at least one byte. -/
def readRoot (types : Types) (base : UInt16) : Run (Option Addr) := do
  modify fun m => { m with idxStore := fun _ => none, bb := { m.bb with offsetRoot := m.bb.offset } }
  let m ← get
  readTo (readPtr types base (m.bb.data.length + 1))

end Xxlib.Uv4
