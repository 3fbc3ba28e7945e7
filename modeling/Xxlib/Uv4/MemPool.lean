import Xxlib.Lib.FreeLists
import Xxlib.Uv4.Queue

/-! The memory pool and the handles that notice a released object (`xx_mempool.h`, `xx_mempool.hpp`).

A block is what `malloc` returned, and is known by its address. Its first eight bytes are
one word: while the block is in use the version number and, in the highest byte, the index
of its list; on a list the address of the next block. Access outside of a block, an index
outside of `headers`, a copy to null and a failed assertion have no result.
-/

set_option autoImplicit false

namespace Xxlib.Uv4

open Function (update)

/-- `Alloc` and `Free` are told which of the two headers a block has. -/
inductive HeaderType where
  | memHeader
  | memHeaderObject
  deriving DecidableEq

def HeaderType.sizeof : HeaderType → Nat
  | .memHeader => sizeofMemHeader
  | .memHeaderObject => 16

/-- `vnArea[7]` -/
def mpIndex (versionNumber : Nat) : Nat := versionNumber / 2 ^ 56 % 256

def setMpIndex (versionNumber idx : Nat) : Nat := versionNumber % 2 ^ 56 + idx % 256 * 2 ^ 56

structure MemPool where
  headers : Nat → Nat := fun _ => 0
  versionNumber : Nat := 0
  /-- The blocks that `malloc` has returned, with their sizes. -/
  size : Nat → Option Nat := fun _ => none
  /-- The first eight bytes of a block. -/
  word : Nat → Nat
  /-- The field of a `MemHeader_Object`. -/
  refs : Nat → Nat
  /-- What comes behind the word, at its distance from the block's address. -/
  bytes : Nat → Nat → UInt8

namespace MemPool

/-- The index of the list, and the size that is asked of `malloc`, for a size with its header. -/
def sizeClass (siz : Nat) : Nat × Nat :=
  let idx := calc2n siz
  if 1 <<< idx < siz then (idx + 1, 1 <<< (idx + 1)) else (idx, siz)

/-- The version number, and then the index over its highest byte. -/
def fill (m : MemPool) (h idx : Nat) : Option MemPool :=
  if (m.size h).getD 0 < 8 then none
  else
    let versionNumber := (m.versionNumber + 1) % 2 ^ 64
    some { m with versionNumber, word := update m.word h (setMpIndex versionNumber idx) }

/-- `fresh` is what `malloc` returns, if it is called. -/
def alloc (m : MemPool) (mh : HeaderType) (siz fresh : Nat) : Option (MemPool × Nat) :=
  if siz = 0 then none
  else
    let siz := (siz + mh.sizeof) % 2 ^ 64
    if siz = 0 then none
    else
      let (idx, siz) := sizeClass siz
      if 64 ≤ idx then none
      else
        let p := m.headers idx
        -- a block that was freed: its first word is the next one of the list
        if p ≠ 0 then
          ({ m with headers := update m.headers idx (m.word p) }.fill p idx).map (·, p + mh.sizeof)
        else if fresh = 0 then some (m, 0)
        else ({ m with size := update m.size fresh (some siz) }.fill fresh idx).map (·, fresh + mh.sizeof)

/-- `*(void**)h = headers[idx]; headers[idx] = h;` -/
def link (m : MemPool) (h idx : Nat) : MemPool :=
  { m with word := update m.word h (m.headers idx), headers := update m.headers idx h }

def free (m : MemPool) (mh : HeaderType) (p : Nat) : Option MemPool :=
  if p = 0 then some m
  else
    let h := p - mh.sizeof
    let idx := mpIndex (m.word h)
    -- the word of a released object has no index, and the assertion fails
    if 0 < idx ∧ idx < 64 then some (m.link h idx) else none

/-- `memcpy` between two blocks that `Alloc` returned without an object header. -/
def memcpy (m : MemPool) (np p n : Nat) : Option MemPool :=
  let target := np - sizeofMemHeader
  let source := p - sizeofMemHeader
  if np = 0 ∨ (m.size target).getD 0 < sizeofMemHeader + n ∨ (m.size source).getD 0 < sizeofMemHeader + n then none
  else
    some { m with bytes := update m.bytes target fun offset =>
      if sizeofMemHeader ≤ offset ∧ offset < sizeofMemHeader + n then m.bytes source offset
      else m.bytes target offset }

def realloc (m : MemPool) (p newSize dataLen fresh : Nat) : Option (MemPool × Nat) :=
  if newSize = 0 then (m.free .memHeader p).map (·, 0)
  else if p = 0 then m.alloc .memHeader newSize fresh
  else
    let idx := mpIndex (m.word (p - sizeofMemHeader))
    if 64 ≤ idx then none
    else
      let originalSize := (1 <<< idx + (2 ^ 64 - sizeofMemHeader)) % 2 ^ 64
      -- the block was rounded up, and may have room as it is
      if newSize ≤ originalSize then some (m, p)
      else do
        let (m, np) ← m.alloc .memHeader newSize fresh
        let m ← m.memcpy np p (min originalSize dataLen)
        let m ← m.free .memHeader p
        return (m, np)

/-- `Create` up to the call of the constructor. -/
def createBegin (m : MemPool) (sizeofT fresh : Nat) : Option (MemPool × Nat) := do
  let (m, p) ← m.alloc .memHeaderObject sizeofT fresh
  if p = 0 then return (m, 0)
  return ({ m with refs := update m.refs (p - HeaderType.memHeaderObject.sizeof) 0 }, p)

/-- `Release` up to the call of the destructor, and the list that the block goes to behind it.
A released object has no list: its destructor is not called again. -/
def releaseBegin (m : MemPool) (p : Nat) : Option (MemPool × Option Nat) :=
  if p = 0 then some (m, none)
  else
    let h := p - HeaderType.memHeaderObject.sizeof
    if m.word h = 0 then some (m, none)
    else if m.refs h ≠ 0 then none
    else
      let idx := mpIndex (m.word h)
      if 0 < idx ∧ idx < 64 then some ({ m with word := update m.word h 0 }, some idx) else none

end MemPool

/-- A `Weak` or a `Ref`. -/
structure Weak where
  pointer : Nat := 0
  versionNumber : Nat := 0
  deriving DecidableEq

namespace Weak

/-- Also what assigning a pointer does. -/
def ofPointer (m : MemPool) (o : Nat) : Weak :=
  ⟨o, if o = 0 then 0 else m.word (o - HeaderType.memHeaderObject.sizeof)⟩

/-- `operator bool` -/
def test (m : MemPool) (w : Weak) : Bool :=
  w.pointer ≠ 0 && m.word (w.pointer - HeaderType.memHeaderObject.sizeof) = w.versionNumber

/-- What testing a `Weak`, and `Lock` of a `Ref`, leave of the handle. -/
def settle (m : MemPool) (w : Weak) : Weak := if w.test m then w else {}

end Weak

end Xxlib.Uv4
