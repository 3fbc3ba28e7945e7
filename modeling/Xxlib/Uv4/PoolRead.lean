import Xxlib.Uv4.Objects
import Xxlib.Uv4.Ptr

/-! `ReadRoot` into a `Ptr<Object>`, and what a failed one leaves in the pool (`xx_bbuffer.hpp`, `xx_mempool.hpp`,
`xx_list.hpp`, `xx_bytesutils.hpp`).

Of the objects only the `Ptr` they hold are kept. `String`, `BBuffer` and `List<Ptr<Object>>` are registered, all of
them with the parent `Object`, so that `IsBaseOf` always holds. A buffer of elements belongs to its list.
-/

set_option autoImplicit false

namespace Xxlib.Uv4

open Function (update)

/-! ## Bytes -/

def takeTypeId (bb : BBuffer) : Except Int (UInt16 × BBuffer) :=
  match varRead7U16 bb.data bb.offset with
  | .ok (n, offset) => .ok (UInt16.ofNat n, { bb with offset })
  | .error r => .error r

def takeSize (bb : BBuffer) : Except Int (Nat × BBuffer) :=
  match varRead7U64 bb.data bb.offset with
  | .ok (n, offset) => .ok (n, { bb with offset })
  | .error r => .error r

/-- The number of elements, with the checks of `FromBBuffer`. The sum is a `size_t`. -/
def takeLength (bb : BBuffer) : Except Int (Nat × BBuffer) :=
  match takeSize bb with
  | .error r => .error r
  | .ok (len, bb) =>
      -- a limit of zero is none
      if bb.readLengthLimit ≠ 0 ∧ len > bb.readLengthLimit then .error (-1)
      else if (bb.offset + len) % 2 ^ 64 > bb.data.length then .error (-2)
      else .ok (len, bb)

/-- The sum has wrapped around, and there are not so many bytes left. -/
def Wraps (bb : BBuffer) (len : Nat) : Prop := bb.data.length < bb.offset + len

instance (bb : BBuffer) (len : Nat) : Decidable (Wraps bb len) := inferInstanceAs (Decidable (_ < _))

inductive Creator where
  | string
  | bbuffer
  | listOfPtr
  deriving DecidableEq

/-- `creators`, once `Register` has been called for all three. -/
def creators (listId tid : UInt16) : Option Creator :=
  if tid = listId then some .listOfPtr
  else if tid = 2 then some .bbuffer
  else if tid = 1 then some .string
  else none

/-! ## Objects under construction -/

namespace PtrHeap

/-- The block of an object whose constructor is about to be called. -/
def allocate (h : PtrHeap) : PtrHeap := (h.create 0).setStatus h.made .constructing

/-- `Resize` of a list that has no elements. -/
def resize (h : PtrHeap) (p n : Nat) : PtrHeap :=
  { h with
    fields := update h.fields p n
    pointer := fun
      | .var v => h.pointer (.var v)
      | .field a i => if a = p then none else h.pointer (.field a i) }

/-- `Free` of the block of an object whose constructor has thrown. -/
def free (h : PtrHeap) (p : Nat) : Option PtrHeap :=
  if h.status p = .constructing then some (h.setStatus p .freed) else none

/-- `Clear(true)` -/
def clear (h : PtrHeap) (p : Nat) : Option PtrHeap := resetAll (release h.made) (h.members p) h

end PtrHeap

/-! ## Reading -/

structure PoolReader where
  bb : BBuffer
  heap : PtrHeap
  idxStore : Nat → Option Nat := fun _ => none

inductive Outcome (α : Type) where
  | ok (value : α) (r : PoolReader)
  | error (code : Int) (r : PoolReader)
  /-- What a program must not do: a block goes back twice, or memory is used that does not belong to it. -/
  | undefined
  /-- The fuel was not enough. -/
  | endless

namespace PoolReader

/-- `out = t` -/
def assign (l : PtrLoc) (t : Option Nat) (r : PoolReader) : Option PoolReader :=
  (r.heap.assign l (.value t)).map fun heap => { r with heap }

/-- `BytesFunc<Ptr<T>>::ReadFrom` -/
def readFrom (readPtr : PoolReader → Outcome (Option Nat)) (l : PtrLoc) (r : PoolReader) : Outcome Unit :=
  match readPtr r with
  | .ok t r =>
      match r.assign l t with
      | some r => .ok () r
      | none => .undefined
  | .error code r =>
      match r.assign l none with
      | some r => .error code r
      | none => .undefined
  | .undefined => .undefined
  | .endless => .endless

/-- The elements of the list `p` from `i` on. -/
def readItems (readPtr : PoolReader → Outcome (Option Nat)) (p : Nat) : Nat → Nat → PoolReader → Outcome Unit
  | _, 0, r => .ok () r
  | i, n + 1, r =>
      match readFrom readPtr (.field p i) r with
      | .ok () r => readItems readPtr p (i + 1) n r
      | other => other

/-- The constructors from a `BBuffer`. -/
def construct (readPtr : PoolReader → Outcome (Option Nat)) (p : Nat) (T : Creator) (r : PoolReader) : Outcome Unit :=
  match takeLength r.bb with
  | .error code => .error code r
  | .ok (len, bb) =>
      if Wraps bb len then .undefined
      else
        match T with
        | .string | .bbuffer => .ok () { r with bb := { bb with offset := bb.offset + len } }
        | .listOfPtr =>
            match readItems readPtr p 0 len { r with bb, heap := r.heap.resize p len } with
            -- `FromBBuffer` empties the list before it returns the error, and only then the constructor throws
            | .error code r =>
                match r.heap.clear p with
                | some heap => .error code { r with heap }
                | none => .undefined
            | other => other

/-- The function that `Register` puts into `creators`. -/
def create (readPtr : PoolReader → Outcome (Option Nat)) (ptrOffset : Nat) (T : Creator) (r : PoolReader) :
    Outcome (Option Nat) :=
  let p := r.heap.made
  match construct readPtr p T
      { r with heap := r.heap.allocate, idxStore := update r.idxStore ptrOffset (some p) } with
  | .ok () r => .ok (some p) { r with heap := r.heap.setStatus p .live }
  -- the catch does not ask whether a `Ptr` has been made to `p` meanwhile
  | .error _ r =>
      match r.heap.free p with
      | some heap => .error (-3) { r with heap, idxStore := update r.idxStore ptrOffset none }
      | none => .undefined
  | .undefined => .undefined
  | .endless => .endless

/-- `ReadPtr`. An entry that leads to a freed object must not be used. -/
def readPtr (listId : UInt16) : Nat → PoolReader → Outcome (Option Nat)
  | 0, _ => .endless
  | fuel + 1, r =>
      match takeTypeId r.bb with
      | .error code => .error code r
      | .ok (tid, bb) =>
          if tid = 0 then .ok none { r with bb }
          else
            match creators listId tid with
            | none => .error (-5) { r with bb }
            | some T =>
                match takeSize bb with
                | .error code => .error code { r with bb }
                | .ok (ptrOffset, bb') =>
                    -- `bb_offset_bak` is the place behind the type id
                    if ptrOffset = bb.offset - bb.offsetRoot then
                      create (readPtr listId fuel) ptrOffset T { r with bb := bb' }
                    else
                      match r.idxStore ptrOffset with
                      | none => .error (-4) { r with bb := bb' }
                      | some p =>
                          if r.heap.status p = .freed then .undefined else .ok (some p) { r with bb := bb' }

end PoolReader

/-- `ReadRoot` into the variable `v`. An object has at least one byte. -/
def poolReadRoot (listId : UInt16) (h : PtrHeap) (bb : BBuffer) (v : Nat) : Outcome Unit :=
  PoolReader.readFrom (PoolReader.readPtr listId (bb.data.length + 1)) (.var v)
    { bb := { bb with offsetRoot := bb.offset }, heap := h }

/-! ## The bytes alone -/

/-- What a reader knows that keeps no objects: where objects began, and which of them a reference has named. -/
structure Seen where
  bb : BBuffer
  begun : List Nat := []
  named : List Nat := []

inductive Scan where
  | ok (s : Seen)
  /-- An error, and the objects that were not complete by then. -/
  | error (opened : List Nat) (s : Seen)
  | undefined
  /-- One object has more references than `refs` can count. -/
  | crowded
  | endless

namespace Seen

def scanItems (scanPtr : Seen → Scan) : Nat → Seen → Scan
  | 0, s => .ok s
  | n + 1, s =>
      match scanPtr s with
      | .ok s => scanItems scanPtr n s
      | other => other

def scanObject (scanPtr : Seen → Scan) (T : Creator) (s : Seen) : Scan :=
  match takeLength s.bb with
  | .error _ => .error [] s
  | .ok (len, bb) =>
      if Wraps bb len then .undefined
      else
        match T with
        | .string | .bbuffer => .ok { s with bb := { bb with offset := bb.offset + len } }
        | .listOfPtr => scanItems scanPtr len { s with bb }

def scanPtr (listId : UInt16) : Nat → Seen → Scan
  | 0, _ => .endless
  | fuel + 1, s =>
      match takeTypeId s.bb with
      | .error _ => .error [] s
      | .ok (tid, bb) =>
          if tid = 0 then .ok { s with bb }
          else
            match creators listId tid with
            | none => .error [] { s with bb }
            | some T =>
                match takeSize bb with
                | .error _ => .error [] { s with bb }
                | .ok (ptrOffset, bb') =>
                    if ptrOffset = bb.offset - bb.offsetRoot then
                      match scanObject (scanPtr listId fuel) T
                          { s with bb := bb', begun := ptrOffset :: s.begun } with
                      | .error opened s => .error (ptrOffset :: opened) s
                      | other => other
                    else if ptrOffset ∈ s.begun then
                      if s.named.count ptrOffset + 2 < 2 ^ 32 then
                        .ok { s with bb := bb', named := ptrOffset :: s.named }
                      else .crowded
                    else .error [] { s with bb := bb' }

end Seen

def scanRoot (listId : UInt16) (bb : BBuffer) : Scan :=
  Seen.scanPtr listId (bb.data.length + 1) { bb := { bb with offsetRoot := bb.offset } }

/-! ## What a read is to leave -/

/-- The pool is in order, and what was constructed during the read is gone or has a `Ptr`. -/
def Intact (h h' : PtrHeap) : Prop :=
  PtrHeap.Exact h' ∧ (∀ a, h'.status a = .live ∨ h'.status a = .freed) ∧
    ∀ a, h.made ≤ a → h'.status a = .live → 0 < Lib.pointing h'.existing h'.pointer a

/-- The read returns, and leaves the pool intact. -/
def ReadsIntact (listId : UInt16) (h : PtrHeap) (bb : BBuffer) (v : Nat) : Prop :=
  ∃ r', (poolReadRoot listId h bb v = .ok () r' ∨ ∃ code, poolReadRoot listId h bb v = .error code r') ∧
    Intact h r'.heap

/-- No length and no count wraps around, and where the bytes end in an error no reference has named an object that is
not complete. -/
def Clean (listId : UInt16) (bb : BBuffer) : Prop :=
  match scanRoot listId bb with
  | .ok _ => True
  | .error opened s => ∀ k ∈ opened, k ∉ s.named
  | .undefined | .crowded | .endless => False

instance (listId : UInt16) (bb : BBuffer) : Decidable (Clean listId bb) :=
  match scanned : scanRoot listId bb with
  | .ok _ => isTrue (by simp only [Clean, scanned])
  | .error opened s => decidable_of_iff (∀ k ∈ opened, k ∉ s.named) (by simp only [Clean, scanned])
  | .undefined => isFalse (by simp only [Clean, scanned, not_false_eq_true])
  | .crowded => isFalse (by simp only [Clean, scanned, not_false_eq_true])
  | .endless => isFalse (by simp only [Clean, scanned, not_false_eq_true])

/-- A pool that regular programs have used, and reads of clean bytes. -/
inductive InUse (listId : UInt16) : PtrHeap → Prop where
  | start : InUse listId {}
  | step {h h' : PtrHeap} {e : PtrHeap.Event} : InUse listId h → h.Permitted e → h.Regular e → h.step e = some h' →
      InUse listId h'
  | read {h : PtrHeap} {bb : BBuffer} {v : Nat} {r' : PoolReader} : InUse listId h → v ∈ h.vars → Clean listId bb →
      (poolReadRoot listId h bb v = .ok () r' ∨ ∃ code, poolReadRoot listId h bb v = .error code r') →
      InUse listId r'.heap

end Xxlib.Uv4
