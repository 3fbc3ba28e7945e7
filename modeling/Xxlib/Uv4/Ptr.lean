import Mathlib.Algebra.Group.Int.Defs
import Mathlib.Algebra.Group.Nat.Defs
import Xxlib.Lib.RefCount

/-! The counted pointer `Ptr<T>` (`xx_mempool.h`, `xx_mempool.hpp`).

A `Ptr` is a variable or a member of an object. An object is known by a number that no other object gets. The memory
of an object stays readable when it is freed: the pool keeps the block, and only writes to the header. To release an
object that is freed, or whose constructor has not returned, has no result: its block would go back twice.
-/

set_option autoImplicit false

namespace Xxlib.Uv4

open Function (update)
open Lib

/-- Where a `Ptr` lies. -/
inductive PtrLoc where
  | var (v : Nat)
  | field (a i : Nat)
  deriving DecidableEq

inductive Status where
  | constructing
  | live
  | releasing
  | freed
  deriving DecidableEq

structure PtrHeap where
  /-- The variables that exist. -/
  vars : List Nat := []
  /-- The number of objects that were created. -/
  made : Nat := 0
  /-- How many `Ptr` an object holds. -/
  fields : Nat → Nat := fun _ => 0
  status : Nat → Status := fun _ => .freed
  /-- A `Ptr` has pointed to the object. -/
  held : Nat → Bool := fun _ => false
  refs : Nat → Nat := fun _ => 0
  pointer : PtrLoc → Option Nat := fun _ => none

namespace PtrHeap

def setRefs (h : PtrHeap) (a n : Nat) : PtrHeap := { h with refs := update h.refs a n }

def setPointer (h : PtrHeap) (l : PtrLoc) (value : Option Nat) : PtrHeap :=
  { h with pointer := update h.pointer l value }

def setStatus (h : PtrHeap) (a : Nat) (status : Status) : PtrHeap := { h with status := update h.status a status }

/-- The members of an object, as its destructor meets them. -/
def members (h : PtrHeap) (a : Nat) : List PtrLoc := (List.range (h.fields a)).reverse.map (.field a)

/-! ## Reset and Release -/

/-- `Reset` -/
def resetWith (release : Nat → PtrHeap → Option PtrHeap) (l : PtrLoc) (h : PtrHeap) : Option PtrHeap :=
  match h.pointer l with
  | none => some h
  | some a =>
      let h := h.setRefs a ((h.refs a + (2 ^ 32 - 1)) % 2 ^ 32)
      -- the member is set to null behind `Release`: a destructor can still meet it
      (if h.refs a = 0 then release a h else some h).map (·.setPointer l none)

/-- The destructors of several `Ptr`. -/
def resetAll (release : Nat → PtrHeap → Option PtrHeap) : List PtrLoc → PtrHeap → Option PtrHeap
  | [], h => some h
  | l :: ls, h => (resetWith release l h).bind (resetAll release ls)

/-- `MemPool::Release`. `fuel` bounds how deep destructors nest. -/
def release : Nat → Nat → PtrHeap → Option PtrHeap
  | 0, a, h => if h.status a = .releasing then some h else none
  | fuel + 1, a, h =>
      match h.status a with
      -- `versionNumber` is zero: the destructor is running further out
      | .releasing => some h
      | .constructing | .freed => none
      | .live => (resetAll (release fuel) (h.members a) (h.setStatus a .releasing)).map (·.setStatus a .freed)

def reset (h : PtrHeap) (l : PtrLoc) : Option PtrHeap := resetWith (release h.made) l h

/-! ## Construction and assignment -/

/-- What an argument `O* const&` refers to: a variable of the caller, or the member of a `Ptr`. -/
inductive Source where
  | value (x : Option Nat)
  | ptr (q : PtrLoc)

def read (h : PtrHeap) : Source → Option Nat
  | .value x => x
  | .ptr q => h.pointer q

/-- `pointer = x; if (x) ++x->memHeader().refs;` -/
def point (h : PtrHeap) (l : PtrLoc) (x : Option Nat) : PtrHeap :=
  match x with
  | none => h.setPointer l none
  | some a =>
      { (h.setPointer l x).setRefs a ((h.refs a + 1) % 2 ^ 32) with held := update h.held a true }

/-- The constructors that copy a pointer. -/
def construct (h : PtrHeap) (v : Nat) (x : Option Nat) : PtrHeap := { h with vars := v :: h.vars }.point (.var v) x

/-- The constructor `Ptr(Ptr&&)` -/
def constructMove (h : PtrHeap) (v : Nat) (q : PtrLoc) : PtrHeap :=
  ({ h with vars := v :: h.vars }.setPointer (.var v) (h.pointer q)).setPointer q none

/-- `operator=(O* const&)`, through which the assignments of a `Ptr` and a `Ref` go, and `Reset(O* const&)`. The
argument is read again behind `Reset`. -/
def assign (h : PtrHeap) (l : PtrLoc) (o : Source) : Option PtrHeap :=
  if h.pointer l = h.read o then some h
  else
    (h.reset l).map fun h =>
      match h.read o with
      | none => h
      | some a => h.point l (some a)

/-- `operator=(Ptr&&)` -/
def assignMove (h : PtrHeap) (l q : PtrLoc) : Option PtrHeap :=
  if h.pointer l = h.pointer q then some h
  else (h.reset l).map fun h => (h.setPointer l (h.pointer q)).setPointer q none

/-- `Lock` of a `Ref` that was made on the object `a`. -/
def lock (h : PtrHeap) (a : Nat) : Option Nat := if h.status a = .live then some a else none

/-- `Create` of an object with `n` members, all of them null. -/
def create (h : PtrHeap) (n : Nat) : PtrHeap :=
  { h with
    made := h.made + 1
    fields := update h.fields h.made n
    status := update h.status h.made .live
    held := update h.held h.made false
    refs := update h.refs h.made 0
    pointer := fun
      | .var v => h.pointer (.var v)
      | .field a i => if a = h.made then none else h.pointer (.field a i) }

/-! ## Programs -/

inductive Event where
  | create (n : Nat)
  | construct (v : Nat) (x : Option Nat)
  | constructCopy (v : Nat) (q : PtrLoc)
  | constructMove (v : Nat) (q : PtrLoc)
  | assignPointer (l : PtrLoc) (x : Option Nat)
  | assignPtr (l q : PtrLoc)
  | assignRef (l : PtrLoc) (a : Nat)
  | assignMove (l q : PtrLoc)
  | reset (l : PtrLoc)
  | destroy (v : Nat)

def step (h : PtrHeap) : Event → Option PtrHeap
  | .create n => some (h.create n)
  | .construct v x => some (h.construct v x)
  | .constructCopy v q => some (h.construct v (h.pointer q))
  | .constructMove v q => some (h.constructMove v q)
  | .assignPointer l x => h.assign l (.value x)
  | .assignPtr l q => h.assign l (.ptr q)
  | .assignRef l a => h.assign l (.value (h.lock a))
  | .assignMove l q => h.assignMove l q
  | .reset l => h.reset l
  | .destroy v => (h.reset (.var v)).map fun h => { h with vars := h.vars.erase v }

/-- There is a `Ptr` at `l`. -/
def Exists (h : PtrHeap) : PtrLoc → Prop
  | .var v => v ∈ h.vars
  | .field a i => h.status a = .live ∧ i < h.fields a

/-- A pointer of the program leads to an object, or is null. -/
def Valid (h : PtrHeap) (x : Option Nat) : Prop := ∀ a, x = some a → h.status a = .live

/-- What the program may do. -/
def Permitted (h : PtrHeap) : Event → Prop
  | .create _ => True
  | .construct v x => v ∉ h.vars ∧ h.Valid x
  | .constructCopy v q => v ∉ h.vars ∧ h.Exists q
  | .constructMove v q => v ∉ h.vars ∧ h.Exists q
  | .assignPointer l x => h.Exists l ∧ h.Valid x
  | .assignPtr l q => h.Exists l ∧ h.Exists q
  | .assignRef l _ => h.Exists l
  | .assignMove l q => h.Exists l ∧ h.Exists q
  | .reset l => h.Exists l
  | .destroy v => v ∈ h.vars

/-- Only the `Ptr` at `l` keeps the object alive: whatever else points to it lies in such an object itself. -/
inductive Lost (h : PtrHeap) (l : PtrLoc) : Nat → Prop where
  | intro {a : Nat} (pointed : ∃ k, h.Exists k ∧ h.pointer k = some a)
      (vars : ∀ v, h.Exists (.var v) → h.pointer (.var v) = some a → .var v = l)
      (fields : ∀ b i, h.Exists (.field b i) → h.pointer (.field b i) = some a → .field b i ≠ l → Lost h l b) :
      Lost h l a

/-- The `Ptr` at `k` lies in no object that only the one at `l` keeps alive. -/
def Outlives (h : PtrHeap) (l k : PtrLoc) : Prop := ∀ a i, k = .field a i → ¬Lost h l a

/-- One more `Ptr` can be counted. -/
def Countable (h : PtrHeap) (x : Option Nat) : Prop := ∀ a, x = some a → h.refs a + 1 < 2 ^ 32

/-- An assignment that changes the pointer changes neither its own `Ptr` nor what it reads. -/
def Independent (h : PtrHeap) (l : PtrLoc) (o : Source) : Prop :=
  h.pointer l ≠ h.read o → h.Outlives l l ∧
    match o with
    | .value x => ∀ a, x = some a → ¬Lost h l a
    | .ptr q => h.Outlives l q

/-- No count wraps around, and no assignment destroys its own operands. -/
def Regular (h : PtrHeap) : Event → Prop
  | .create _ | .constructMove _ _ | .reset _ | .destroy _ => True
  | .construct _ x => h.Countable x
  | .constructCopy _ q => h.Countable (h.pointer q)
  | .assignPointer l x => h.Countable x ∧ h.Independent l (.value x)
  | .assignPtr l q => h.Countable (h.pointer q) ∧ h.Independent l (.ptr q)
  | .assignRef l a => h.Countable (h.lock a) ∧ h.Independent l (.value (h.lock a))
  | .assignMove l q => h.Independent l (.ptr q)

inductive Reached (condition : PtrHeap → Event → Prop) : PtrHeap → Prop where
  | start : Reached condition {}
  | step {h h' : PtrHeap} {e : Event} : Reached condition h → h.Permitted e → condition h e → h.step e = some h' →
      Reached condition h'

/-! ## What counting is for -/

/-- Every `Ptr` there is. -/
def existing (h : PtrHeap) : List PtrLoc :=
  h.vars.map .var ++ ((List.range h.made).filter fun a => h.status a = .live).flatMap h.members

/-- `refs` is the number of `Ptr`, they lead to living objects, and an object that one has pointed to lives as long as
there are any. -/
structure Exact (h : PtrHeap) : Prop where
  count : ∀ a, h.status a = .live → h.refs a = pointing h.existing h.pointer a
  alive : ∀ l a, h.Exists l → h.pointer l = some a → h.status a = .live
  owned : ∀ a, h.status a = .live → h.held a = true → 0 < pointing h.existing h.pointer a

/-- What an assignment is to leave in its left side. -/
def assigned (h : PtrHeap) : Event → Option (PtrLoc × Option Nat)
  | .assignPointer l x => some (l, x)
  | .assignPtr l q | .assignMove l q => some (l, h.pointer q)
  | .assignRef l a => some (l, h.lock a)
  | _ => none

/-- The left side receives its object, and an object is released exactly when its count drops to zero. -/
def Serves (h h' : PtrHeap) (e : Event) : Prop :=
  (∀ l x, h.assigned e = some (l, x) → h'.pointer l = x ∧ h'.Valid x) ∧
    ∀ a, h.status a = .live → (h'.status a ≠ .live ↔
      0 < pointing h.existing h.pointer a ∧ pointing h'.existing h'.pointer a = 0)

end PtrHeap

end Xxlib.Uv4
