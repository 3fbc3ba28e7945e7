import Xxlib.Lib.ChainedIndex
import Xxlib.Uv4.Hashing

/-! The hash map `Dict<TK, TV>` (`xx_dict.h`, `xx_dict.hpp`).

The three arrays are total functions of the index: what lies behind the
allocated part, and a slot whose key and value are not constructed, have
arbitrary content. A destroyed or never constructed key or value is `none`.
-/

set_option autoImplicit false

namespace Xxlib.Uv4

/-- The result of `Dict::Add`. -/
structure DictAddResult where
  success : Bool
  index : Int
  deriving DecidableEq, Repr

namespace Dict

structure Node where
  hashCode : UInt32
  next : Int

structure Data (K V : Type) where
  key : Option K
  value : Option V
  prev : Int

end Dict

structure Dict (K V : Type) where
  freeList : Int
  freeCount : Nat
  count : Nat
  bucketsLen : Nat
  buckets : Nat → Int
  nodes : Nat → Dict.Node
  items : Nat → Dict.Data K V

namespace Dict

variable {K V : Type}

/-- The links of a `Dict`, without its keys and values. -/
def links (d : Dict K V) : Lib.Index where
  bucketsLen := d.bucketsLen
  buckets := d.buckets
  hashCode i := (d.nodes i).hashCode.toNat
  next i := (d.nodes i).next
  prev i := (d.items i).prev
  freeList := d.freeList
  freeCount := d.freeCount
  count := d.count

/-! ## Single assignments -/

/-- `buckets[b] = i` -/
def setBucket (d : Dict K V) (b : Nat) (i : Int) : Dict K V :=
  { d with buckets := Function.update d.buckets b i }

/-- `nodes[i].hashCode = hashCode` -/
def setHashCode (d : Dict K V) (i : Nat) (hashCode : UInt32) : Dict K V :=
  { d with nodes := Function.update d.nodes i { d.nodes i with hashCode } }

/-- `nodes[i].next = next` -/
def setNext (d : Dict K V) (i : Nat) (next : Int) : Dict K V :=
  { d with nodes := Function.update d.nodes i { d.nodes i with next } }

/-- `items[i].prev = prev` -/
def setPrev (d : Dict K V) (i : Nat) (prev : Int) : Dict K V :=
  { d with items := Function.update d.items i { d.items i with prev } }

/-- `items[i].key = key`, by construction, assignment or destruction. -/
def setKey (d : Dict K V) (i : Nat) (key : Option K) : Dict K V :=
  { d with items := Function.update d.items i { d.items i with key } }

/-- `items[i].value = value`, by construction, assignment or destruction. -/
def setValue (d : Dict K V) (i : Nat) (value : Option V) : Dict K V :=
  { d with items := Function.update d.items i { d.items i with value } }

/-- `freeList = idx; freeCount++` -/
def pushFree (d : Dict K V) (idx : Nat) : Dict K V :=
  { d with freeList := idx, freeCount := d.freeCount + 1 }

/-! ## Operations -/

/-- The constructor. `nodes` and `items` are what `Alloc` left in the new blocks. -/
def create (sizing : Sizing) (nodes : Nat → Node) (items : Nat → Data K V) : Dict K V where
  freeList := -1
  freeCount := 0
  count := 0
  bucketsLen := sizing.getPrime sizing.capacity
  buckets _ := -1
  nodes := nodes
  items := items

/-- `nodes[i].hashCode == hashCode && EqualsFunc<TK>::EqualsTo(items[i].key, k)` -/
def hit (keys : KeyFuncs K) (d : Dict K V) (hashCode : UInt32) (k : K) (i : Nat) : Bool :=
  (d.nodes i).hashCode == hashCode && (d.items i).key.any (keys.equalsTo · k)

/-- The loop over one bucket that `Add`, `Find` and `UpdateAt` run. It answers `none` if it does
not end. -/
def scanBucket (keys : KeyFuncs K) (d : Dict K V) (hashCode : UInt32) (k : K) : Option Int :=
  Lib.scan (fun i => (d.nodes i).next) (hit keys d hashCode k) (d.count + 1)
    (d.buckets (hashCode.toNat % d.bucketsLen))

def find (keys : KeyFuncs K) (d : Dict K V) (k : K) : Option Int :=
  scanBucket keys d (keys.getHashCode k) k

/-- Put `index` in front of `targetBucket`. -/
def linkFront (d : Dict K V) (index targetBucket : Nat) : Dict K V :=
  let d := d.setNext index (d.buckets targetBucket)
  let d := if 0 ≤ d.buckets targetBucket then d.setPrev (d.buckets targetBucket).toNat index else d
  d.setBucket targetBucket index

/-- The last loop of `Reserve`, over the indices below `n`. -/
def rebuild : Nat → Dict K V → Dict K V
  | 0, d => d
  | n + 1, d =>
      let d := rebuild n d
      let index := (d.nodes n).hashCode.toNat % d.bucketsLen
      let d := if 0 ≤ d.buckets index then d.setPrev (d.buckets index).toNat n else d
      let d := d.setPrev n (-1)
      let d := d.setNext n (d.buckets index)
      d.setBucket index n

/-- The items moved to a new block, if the element type is not trivial: keys and values are moved,
`prev` is what `Alloc` left there. A trivial type is reallocated with everything it holds. -/
def moveItems (isTrivial : Bool) (alloc : Nat → Data K V) (d : Dict K V) : Dict K V :=
  let moved (i : Nat) : Data K V := { alloc i with key := (d.items i).key, value := (d.items i).value }
  if isTrivial then d
  else { d with items := fun i => if i < d.count then moved i else alloc i }

def reserve (sizing : Sizing) (isTrivial : Bool) (alloc : Nat → Data K V) (capacity : Nat)
    (d : Dict K V) : Dict K V :=
  let capacity := if capacity = 0 then d.count * 2 else capacity
  if capacity ≤ d.bucketsLen then d
  else
    let d := { d with bucketsLen := sizing.getPrime capacity, buckets := fun _ => -1 }
    rebuild d.count (moveItems isTrivial alloc d)

/-- The slot a new entry gets, after growing the table if it is full. -/
def takeSlot (sizing : Sizing) (isTrivial : Bool) (alloc : Nat → Data K V) (d : Dict K V) :
    Nat × Dict K V :=
  if 0 < d.freeCount then
    (d.freeList.toNat,
      { d with freeList := (d.nodes d.freeList.toNat).next, freeCount := d.freeCount - 1 })
  else
    let d := if d.count = d.bucketsLen then reserve sizing isTrivial alloc 0 d else d
    (d.count, { d with count := d.count + 1 })

/-- `Add`. `alloc` is what a new block of items holds, should the table grow. -/
def add (keys : KeyFuncs K) (sizing : Sizing) (isTrivial : Bool) (alloc : Nat → Data K V)
    (k : K) (v : V) (override : Bool) (d : Dict K V) : Option (DictAddResult × Dict K V) := do
  let hashCode := keys.getHashCode k
  let i ← scanBucket keys d hashCode k
  if 0 ≤ i then
    if override then return (⟨true, i⟩, d.setValue i.toNat (some v))
    return (⟨false, i⟩, d)
  let (index, d) := takeSlot sizing isTrivial alloc d
  let targetBucket := hashCode.toNat % d.bucketsLen
  let d := (d.setHashCode index hashCode).linkFront index targetBucket
  return (⟨true, index⟩, ((d.setKey index (some k)).setValue index (some v)).setPrev index (-1))

/-- Take `idx` out of its chain: the first half of `RemoveAt`, repeated in `UpdateAt`. -/
def unlink (d : Dict K V) (idx bucket : Nat) : Dict K V :=
  let d := if (d.items idx).prev < 0 then d.setBucket bucket (d.nodes idx).next
    else d.setNext (d.items idx).prev.toNat (d.nodes idx).next
  if 0 ≤ (d.nodes idx).next then d.setPrev (d.nodes idx).next.toNat (d.items idx).prev else d

/-- `RemoveAt`, for an index that its assertion lets through. -/
def removeAt (d : Dict K V) (idx : Nat) : Dict K V :=
  let d := d.unlink idx ((d.nodes idx).hashCode.toNat % d.bucketsLen)
  let d := (d.setNext idx d.freeList).pushFree idx
  ((d.setKey idx none).setValue idx none).setPrev idx (-2)

def remove (keys : KeyFuncs K) (d : Dict K V) (k : K) : Option (Dict K V) := do
  let idx ← find keys d k
  if idx ≠ -1 then return d.removeAt idx.toNat
  return d

def deleteKVs (d : Dict K V) : Dict K V :=
  { d with items := fun i =>
    if i < d.count ∧ (d.items i).prev ≠ -2 then ⟨none, none, -2⟩ else d.items i }

/-- `Clear()` without a killer function. -/
def clear (d : Dict K V) : Dict K V :=
  if d.count = 0 then d
  else { d.deleteKVs with buckets := fun _ => -1, freeList := -1, freeCount := 0, count := 0 }

/-- `Count()` -/
def getCount (d : Dict K V) : Nat := d.count - d.freeCount

def tryGetValue (keys : KeyFuncs K) (d : Dict K V) (key : K) : Option (Option V) := do
  let idx ← find keys d key
  if 0 ≤ idx then return (d.items idx.toNat).value
  return none

/-- `operator[]`, also called `At`: the index of the value the returned reference denotes, and the
table. `fresh` is `TV()`. -/
def atKey (keys : KeyFuncs K) (sizing : Sizing) (isTrivial : Bool) (alloc : Nat → Data K V)
    (fresh : V) (k : K) (d : Dict K V) : Option (Nat × Dict K V) := do
  let idx ← find keys d k
  if idx < 0 then
    let (r, d) ← add keys sizing isTrivial alloc k fresh true d
    return (r.index.toNat, d)
  return (idx.toNat, d)

/-- `ValueAt` -/
def valueAt (d : Dict K V) (idx : Nat) : Option V := (d.items idx).value

/-- `IndexExists` -/
def Live (d : Dict K V) (i : Nat) : Prop := i < d.count ∧ (d.items i).prev ≠ -2

instance (d : Dict K V) (i : Nat) : Decidable (d.Live i) := inferInstanceAs (Decidable (_ ∧ _))

/-! ## Iteration -/

/-- The first index from `i` on whose `prev` is not `-2`, looking at `n` of them. -/
def seek (d : Dict K V) : Nat → Nat → Nat
  | 0, i => i
  | n + 1, i => if (d.items i).prev ≠ -2 then i else seek d n (i + 1)

def begin (d : Dict K V) : Nat := if d.getCount = 0 then d.count else seek d d.count 0

/-- `operator++` -/
def advance (d : Dict K V) (i : Nat) : Nat := seek d (d.count - (i + 1)) (i + 1)

/-- The indices that `for (auto& c : dict)` visits from `i` on. -/
def visit (d : Dict K V) : Nat → Nat → List Nat
  | 0, _ => []
  | n + 1, i => if i = d.count then [] else i :: visit d n (advance d i)

def iterate (d : Dict K V) : List Nat := visit d (d.count + 1) d.begin

end Dict

end Xxlib.Uv4
