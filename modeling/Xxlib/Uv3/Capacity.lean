import Xxlib.Lib.Rounding
import Xxlib.Uv3.ObjectGraph

/-! The memory that a `Buffer` and a `BBuffer` write to (`test_uv_3/xx_list.h`, `test_uv_3/xx_bbuffer.h`).

Here a buffer is its `cap`, its `len` and the size of its block, and what is stored is where it goes. Which bytes these are
is not told, except for how many of them there are. A `size_t` has 64 bits. An assertion that fails ends the
program, so does a block that cannot be had where it is asserted.
-/

set_option autoImplicit false

namespace Xxlib.Uv3.Capacity

open Lib

/-! ## The buffer -/

def calc2n (n : Nat) : Nat := n.log2

def round2n (n : Nat) : Nat := if 1 <<< calc2n n = n then n else (1 <<< calc2n n <<< 1) % 2 ^ 64

/-- Bytes that go to a block which has room for `cap`. -/
structure Store where
  index : Nat
  count : Nat
  cap : Nat

/-- Each byte is stored at an index below the capacity. -/
def Store.Within (s : Store) : Prop := ∀ i < s.count, s.index + i < s.cap

/-- What a program asks for at once. -/
inductive Request where
  | copy (len front : Nat)
  | append (count : Nat)
  | varInteger (size u : Nat)
  | double (count : Nat)
  | block (bytes count : Nat)
  | reserve (bytes : Nat)
  | resize (len : Nat)

/-- A request, and the buffer that it comes to. -/
structure Step where
  cap : Nat
  len : Nat
  request : Request

/-- `buf` is the size of the block. `blocks` counts how often `malloc` was called. -/
structure Machine where
  buf : Option Nat := none
  cap : Nat := 0
  len : Nat := 0
  offsetRoot : Nat := 0
  ptrs : List (Addr × Nat) := []
  blocks : Nat := 0
  stores : List Store := []
  steps : List Step := []

/-- Why a program ends. -/
inductive Halt where
  | noBlock
  | asserted
  | invalid
  | endless
  deriving DecidableEq

abbrev Run := EStateM Halt Machine

def Machine.noted (m : Machine) (request : Request) : Machine :=
  { m with steps := ⟨m.cap, m.len, request⟩ :: m.steps }

def note (request : Request) : Run Unit := modify fun m => m.noted request

/-- The bytes before `len` are in a block for `cap` bytes. -/
def Machine.grown (m : Machine) (cap : Nat) : Machine :=
  { m with
    buf := some cap
    cap := cap
    blocks := m.blocks + 1
    stores := ⟨0, m.len, cap⟩ :: m.stores }

def Machine.refused (m : Machine) : Machine := { m with blocks := m.blocks + 1 }

def Machine.stored (m : Machine) (count : Nat) : Machine :=
  { m with
    len := (m.len + count) % 2 ^ 64
    stores := ⟨m.len, count, m.cap⟩ :: m.stores }

/-- The next bytes, and `len` beyond them. -/
def put (count : Nat) : Run Unit := modify fun m => m.stored count

section
variable (malloc : Nat → Bool)

/-- `malloc` tells which calls of `malloc` get a block. -/
def reserve (cap : Nat) : Run Unit := fun m =>
  if cap ≤ m.cap then .ok () m
  else if malloc m.blocks then .ok () (m.grown (round2n cap))
  else .error .noBlock m.refused

/-- `Reserve` for `asked` bytes more, and the bytes that are then stored without a check. -/
def extend (asked count : Nat) : Run Unit := do
  let m ← get
  reserve malloc ((m.len + asked) % 2 ^ 64)
  put count

def addRange (count : Nat) : Run Unit := do
  note (.append count)
  extend malloc count count

def writeFixed (sizeofT : Nat) : Run Unit := do
  note (.append sizeofT)
  extend malloc sizeofT sizeofT

def resize (len : Nat) : Run Unit := do
  note (.resize len)
  let m ← get
  if len = m.len then return
  else if len < m.len then set { m with len := len }
  else
    reserve malloc len
    modify fun m => { m with len := len, stores := ⟨m.len, len - m.len, m.cap⟩ :: m.stores }

def removeFront (len : Nat) : Run Unit := fun m =>
  if ¬ len ≤ m.len then .error .asserted m
  else if len = 0 then .ok () m
  else if m.len - len = 0 then .ok () { m with len := 0 }
  else .ok () { m with len := m.len - len, stores := ⟨0, m.len - len, m.cap⟩ :: m.stores }

def clear (freeBuf : Bool) : Run Unit := modify fun m =>
  match m.buf, freeBuf with
  | none, _ => m
  | some _, false => { m with len := 0 }
  | some _, true => { m with len := 0, buf := none, cap := 0 }

/-! ## Values -/

/-- The widths of the integers that are not copied. -/
inductive Width where
  | w16 | w32 | w64

def Width.bits : Width → Nat
  | .w16 => 16
  | .w32 => 32
  | .w64 => 64

def writeVarIntger {w : Nat} (u : BitVec w) : Run Unit := extend malloc (w / 8 + 1) (varInteger u).length

def writeInteger (width : Width) (signed : Bool) (v : BitVec width.bits) : Run Unit := do
  let u := if signed then zigZagEncode v else v
  note (.varInteger (width.bits / 8) u.toNat)
  writeVarIntger malloc u

def writeSize (n : Nat) : Run Unit := writeInteger malloc .w64 false (BitVec.ofNat 64 n)

/-- What `WriteTo` tells apart of a double. -/
inductive DoubleKind where
  | zero | nan | negativeInfinity | positiveInfinity
  | integer (i : BitVec 32)
  | other

/-- The `int32_t` that a finite double other than zero is. -/
def exactInt32 (negative : Bool) (exponent fraction : Nat) : Option (BitVec 32) :=
  let mantissa := 2 ^ 52 + fraction
  let whole := mantissa / 2 ^ (1075 - exponent)
  if exponent ≤ 1075 ∧ mantissa % 2 ^ (1075 - exponent) = 0 ∧ whole < 2 ^ 31 + (if negative then 1 else 0) then
    some (if negative then -BitVec.ofNat 32 whole else BitVec.ofNat 32 whole)
  else none

def doubleKind (bits : BitVec 64) : DoubleKind :=
  let negative := bits.msb
  let exponent := bits.toNat / 2 ^ 52 % 2 ^ 11
  let fraction := bits.toNat % 2 ^ 52
  if exponent = 0 ∧ fraction = 0 then .zero
  else if exponent = 2 ^ 11 - 1 then
    if fraction ≠ 0 then .nan else if negative then .negativeInfinity else .positiveInfinity
  else
    match exactInt32 negative exponent fraction with
    | some i => .integer i
    | none => .other

def writeDouble (bits : BitVec 64) : Run Unit :=
  match doubleKind bits with
  | .zero | .nan | .negativeInfinity | .positiveInfinity => do
      note (.double 1)
      extend malloc 9 1
  | .integer i => do
      note (.double 1)
      extend malloc 9 1
      writeInteger malloc .w32 true i
  | .other => do
      note (.double 9)
      extend malloc 9 9

def writeString (size : Nat) : Run Unit := do
  writeSize malloc size
  addRange malloc size

/-- `ToBBuffer` of a `BBuffer` -/
def writeBBuffer (len : Nat) : Run Unit := do
  writeSize malloc len
  addRange malloc len

/-- `ToBBuffer` of a `List` with elements of one byte, or of floats. -/
def writeBlock (sizeofT count : Nat) : Run Unit := do
  let bytes := count * sizeofT % 2 ^ 64
  note (.block bytes count)
  let m ← get
  reserve malloc ((m.len + 5 + bytes) % 2 ^ 64)
  writeVarIntger malloc (BitVec.ofNat 64 count)
  if count = 0 then return
  put bytes

inductive BlockType where
  | byte | float

def BlockType.size : BlockType → Nat
  | .byte => 1
  | .float => 4

/-- What `Write` takes, and `ToBBuffer` of lists. Bytes, floats and a `Guid` are copied as they are. -/
inductive Value where
  | integer (width : Width) (signed : Bool) (v : BitVec width.bits)
  | byte
  | float
  | guid
  | double (bits : BitVec 64)
  | string (size : UInt64)
  | bbuffer (len : UInt64)
  | block (type : BlockType) (count : UInt64)

def write : Value → Run Unit
  | .integer width signed v => writeInteger malloc width signed v
  | .byte => writeFixed malloc 1
  | .float => writeFixed malloc 4
  | .guid => addRange malloc 16
  | .double bits => writeDouble malloc bits
  | .string size => writeString malloc size.toNat
  | .bbuffer len => writeBBuffer malloc len.toNat
  | .block type count => writeBlock malloc type.size count.toNat

/-! ## Objects -/

/-- A member, or an element of a list. -/
inductive Item where
  | value (v : Value)
  | shared (p : Option Addr)
  | weak (p : Option Addr)

/-- What `ToBBuffer` of an object writes. A list of elements that are not copied reserves `sizeofT` bytes for each. -/
inductive Object where
  | string (size : UInt64)
  | members (typeId : UInt16) (items : List Item)
  | list (typeId : UInt16) (sizeofT : Nat) (items : List Item)

def Object.typeId : Object → UInt16
  | .string _ => 1
  | .members typeId _ => typeId
  | .list typeId _ _ => typeId

abbrev Heap := List (Option Object)

def writeTypeId (typeId : UInt16) : Run Unit := writeInteger malloc .w16 false typeId.toBitVec

def writeItem (heap : Heap) (writePtr : Option Addr → Run Unit) : Item → Run Unit
  | .value v => write malloc v
  | .shared p => writePtr p
  | .weak p =>
      -- `lock`
      match p.filter fun a => (heap[a]?.join).isSome with
      | some a => writePtr (some a)
      | none => writeTypeId malloc 0

def toBBuffer (heap : Heap) (writePtr : Option Addr → Run Unit) : Object → Run Unit
  | .string size => writeString malloc size.toNat
  | .members _ items => items.forM (writeItem malloc heap writePtr)
  | .list _ sizeofT items => do
      let bytes := items.length * sizeofT % 2 ^ 64
      note (.reserve bytes)
      let m ← get
      reserve malloc ((m.len + 5 + bytes) % 2 ^ 64)
      writeSize malloc items.length
      items.forM (writeItem malloc heap writePtr)

/-- `fuel` bounds how deep objects nest. -/
def writePtr (heap : Heap) : Nat → Option Addr → Run Unit
  | 0, _ => throw .endless
  | _ + 1, none => writeTypeId malloc 0
  | fuel + 1, some v =>
      match heap[v]?.join with
      | none => throw .invalid
      | some object =>
          if object.typeId = 0 then throw .asserted
          else do
            writeTypeId malloc object.typeId
            let m ← get
            match m.ptrs.lookup v with
            | some offs => writeSize malloc offs
            | none =>
                let offs := (m.len + (2 ^ 64 - m.offsetRoot)) % 2 ^ 64
                set { m with ptrs := (v, offs) :: m.ptrs }
                writeSize malloc offs
                toBBuffer malloc heap (writePtr heap fuel) object

def writeRoot (heap : Heap) (fuel : Nat) (v : Option Addr) : Run Unit := do
  modify fun m => { m with offsetRoot := m.len }
  let m ← get
  if m.ptrs ≠ [] then throw .asserted
  else
    writePtr malloc heap fuel v
    modify fun m => { m with ptrs := [] }

/-! ## Programs -/

inductive Constructor where
  | default
  | capacity (cap : UInt64)
  | copy (len front : UInt64)

/-- The last constructor takes `cap` for what it has been, and does not look at what `malloc` returns. -/
def construct : Constructor → Run Unit
  | .default => return
  | .capacity cap => fun m =>
      if cap = 0 then .ok () m
      else if malloc m.blocks then
        .ok () { m with
          buf := some (round2n cap.toNat)
          cap := round2n cap.toNat
          blocks := m.blocks + 1 }
      else .error .noBlock m.refused
  | .copy len front =>
      if len = 0 then throw .asserted
      else do
        note (.copy len.toNat front.toNat)
        modify fun m =>
          let bytes := (len.toNat + front.toNat) % 2 ^ 64
          let cap := (m.cap + front.toNat) % 2 ^ 64
          { m with
            buf := if malloc m.blocks then some bytes else none
            len := bytes
            cap := cap
            blocks := m.blocks + 1
            stores := ⟨front.toNat, len.toNat, cap⟩ :: m.stores }

inductive Call where
  | write (v : Value)
  | writeFixed (sizeofT : UInt64)
  | writeRoot (heap : Heap) (fuel : Nat) (v : Option Addr)
  | addRange (count : UInt64)
  | resize (len : UInt64)
  | removeFront (len : UInt64)
  | clear (freeBuf : Bool)

def perform : Call → Run Unit
  | .write v => write malloc v
  | .writeFixed sizeofT => writeFixed malloc sizeofT.toNat
  | .writeRoot heap fuel v => writeRoot malloc heap fuel v
  | .addRange count => addRange malloc count.toNat
  | .resize len => resize malloc len.toNat
  | .removeFront len => removeFront len.toNat
  | .clear freeBuf => clear freeBuf

def program (start : Constructor) (calls : List Call) : Run Unit := do
  construct malloc start
  calls.forM (perform malloc)

/-- What a program does with a buffer, from its constructor on. -/
def run (start : Constructor) (calls : List Call) : EStateM.Result Halt Machine Unit := program malloc start calls {}

end

end Xxlib.Uv3.Capacity
