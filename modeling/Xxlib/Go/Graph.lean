import Xxlib.Go.Values
import Xxlib.Lib.Growing

/-! Object graphs, and what it means that one is a copy of another.

While a graph is written and read, a log pairs the objects of the writer with those of the
reader. `ptrStore` and `idxStore` are the two halves of this log.
-/

set_option autoImplicit false

namespace Xxlib.Go

open Lib

/-! ## Graphs -/

/-- `nil`, or a pointer of one of `kinds`. -/
def IObject.Has (heap : List Obj) (kinds : List Kind) : IObject → Prop
  | .nil => True
  | .typedNil kind => kind ∈ kinds
  | .ptr addr => ∃ obj, heap[addr]? = some obj ∧ obj.kind ∈ kinds

/-- The pointers of an object are of the types that its fields have. -/
def Obj.Typed (heap : List Obj) : Obj → Prop
  | .string _ => True
  | .bbuffer _ => True
  | .foo v => v.parent.Has heap fooKinds
  | .listInt32 _ => True
  | .fooExt1 v => v.parent.Has heap fooKinds ∧ v.childIds.Has heap [.listInt32]
  | .listFooExt1 items => ∀ v ∈ items, v.Has heap [.fooExt1]

/-- Objects that the type checker admits. -/
structure Graph where
  heap : List Obj
  typed : ∀ obj ∈ heap, obj.Typed heap

/-- A pointer of any type, or `nil`. -/
def IObject.Root (heap : List Obj) : IObject → Prop
  | .ptr addr => addr < heap.length
  | _ => True

section
variable (pairs : Addr → Addr → Prop)

/-- The same pointer, where `pairs` relates the objects; a nil pointer is the same as `nil`. -/
inductive SamePtr : IObject → IObject → Prop where
  | nil : SamePtr .nil .nil
  | typedNil (kind : Kind) : SamePtr (.typedNil kind) .nil
  | ptr {a b : Addr} (related : pairs a b) : SamePtr (.ptr a) (.ptr b)

structure SameFoo (x y : Foo) : Prop where
  id : y.id = x.id
  name : y.name = x.name
  age : y.age = x.age
  parent : SamePtr pairs x.parent y.parent

/-- The same type and the same values of the fields. -/
inductive Same : Obj → Obj → Prop where
  | string (value : List UInt8) : Same (.string value) (.string value)
  | bbuffer (bb : BBuffer) : Same (.bbuffer bb) (.bbuffer bb)
  | foo {x y : Foo} (same : SameFoo pairs x y) : Same (.foo x) (.foo y)
  | listInt32 (items : List Int32) : Same (.listInt32 items) (.listInt32 items)
  | fooExt1 {x y : FooExt1} (same : SameFoo pairs x.toFoo y.toFoo)
      (childIds : SamePtr pairs x.childIds y.childIds) : Same (.fooExt1 x) (.fooExt1 y)
  | listFooExt1 {xs ys : List IObject} (same : List.Forall₂ (SamePtr pairs) xs ys) :
      Same (.listFooExt1 xs) (.listFooExt1 ys)

end

/-- The graph of `v` in `heap` and the graph of `v'` in `heap'` are the same up to addresses. -/
def Isomorphic (heap heap' : List Obj) (v v' : IObject) : Prop :=
  ∃ pairs : Addr → Addr → Prop,
    (∀ a b b', pairs a b → pairs a b' → b = b') ∧ (∀ a a' b, pairs a b → pairs a' b → a = a') ∧
    (∀ a b, pairs a b → ∃ x y, heap[a]? = some x ∧ heap'[b]? = some y ∧ Same pairs x y) ∧
    SamePtr pairs v v'

/-! ## What is written of an object -/

def NullableInt32.kept (v : NullableInt32) : NullableInt32 := if v.hasValue then v else {}

def NullableString.kept (v : NullableString) : NullableString := if v.hasValue then v else {}

def Foo.kept (v : Foo) : Foo := { v with name := v.name.kept, age := v.age.kept }

/-- A nullable without value has the zero value, and a buffer only its content. -/
def Obj.kept : Obj → Obj
  | .string value => .string value
  | .bbuffer bb => .bbuffer { buf := { data := bb.buf.data } }
  | .foo v => .foo v.kept
  | .listInt32 items => .listInt32 items
  | .fooExt1 v => .fooExt1 { toFoo := v.toFoo.kept, childIds := v.childIds }
  | .listFooExt1 items => .listFooExt1 items

/-! ## The log -/

/-- An object of the writer, its offset in the stream, and the reader's copy. -/
structure Entry where
  source : Addr
  offset : Nat
  copy : Addr

def Linked (log : List Entry) (a b : Addr) : Prop := ∃ entry ∈ log, entry.source = a ∧ entry.copy = b

abbrev Worlds := World Memory Memory (List Entry)

/-- The copy is complete. -/
def Done (w : Worlds) (entry : Entry) : Prop :=
  ∃ x y, w.writer.heap[entry.source]? = some x ∧ w.reader.heap[entry.copy]? = some y ∧
    Same (Linked w.log) x.kept y

structure Agree (w : Worlds) : Prop where
  ptrStore : w.writer.bb.ptrStore = w.log.map fun e => (e.source, e.offset)
  idxStore : w.reader.bb.idxStore = w.log.map fun e => ((e.offset : Int), e.copy)
  sources : w.log.Pairwise fun e f => e.source ≠ f.source
  copies : w.log.Pairwise fun e f => e.copy ≠ f.copy
  offsets : w.log.Pairwise fun e f => e.offset ≠ f.offset
  passed : ∀ e ∈ w.log, w.writer.bb.offsetRoot + e.offset < w.writer.bb.buf.data.length
  kinds : ∀ e ∈ w.log, ∃ x y, w.writer.heap[e.source]? = some x ∧ w.reader.heap[e.copy]? = some y ∧
    x.kind = y.kind
  typed : ∀ obj ∈ w.writer.heap, obj.Typed w.writer.heap
  strings : ∀ entry ∈ w.writer.bb.strStore, w.writer.heap[entry.2]? = some (.string entry.1)
  root : w.writer.bb.offsetRoot ≤ w.writer.bb.buf.data.length
  place : w.reader.bb.offset =
    w.reader.bb.offsetRoot + (w.writer.bb.buf.data.length - w.writer.bb.offsetRoot)
  inside : w.reader.bb.offset ≤ w.reader.bb.buf.data.length
  unlimited : w.reader.bb.readLengthLimit = 0

structure Grows (v w : Worlds) : Prop where
  sources : v.writer.heap <+: w.writer.heap
  copies : ∀ (addr : Addr) (obj : Obj), v.reader.heap[addr]? = some obj → w.reader.heap[addr]? = some obj
  input : w.reader.bb.buf = v.reader.bb.buf
  log : ∃ new, w.log = new ++ v.log ∧ ∀ e ∈ new, Done w e

section
variable {heap heap' : List Obj} {u v w : Worlds}

theorem SamePtr.mono {pairs pairs' : Addr → Addr → Prop} (more : ∀ a b, pairs a b → pairs' a b)
    {x y : IObject} (same : SamePtr pairs x y) : SamePtr pairs' x y := by
  cases same with
  | nil => exact .nil
  | typedNil kind => exact .typedNil kind
  | ptr related => exact .ptr (more _ _ related)

theorem SameFoo.mono {pairs pairs' : Addr → Addr → Prop} (more : ∀ a b, pairs a b → pairs' a b)
    {x y : Foo} (same : SameFoo pairs x y) : SameFoo pairs' x y :=
  ⟨same.id, same.name, same.age, same.parent.mono more⟩

theorem Same.mono {pairs pairs' : Addr → Addr → Prop} (more : ∀ a b, pairs a b → pairs' a b)
    {x y : Obj} (same : Same pairs x y) : Same pairs' x y := by
  cases same with
  | string value => exact .string value
  | bbuffer bb => exact .bbuffer bb
  | foo same => exact .foo (same.mono more)
  | listInt32 items => exact .listInt32 items
  | fooExt1 same childIds => exact .fooExt1 (same.mono more) (childIds.mono more)
  | listFooExt1 same => exact .listFooExt1 (same.imp fun _ _ => SamePtr.mono more)

theorem Grows.linked (grows : Grows v w) (a b : Addr) (linked : Linked v.log a b) : Linked w.log a b := by
  obtain ⟨e, member, same⟩ := linked
  obtain ⟨new, log, -⟩ := grows.log
  exact ⟨e, by rw [log]; exact List.mem_append_right new member, same⟩

theorem Done.mono (grows : Grows v w) {e : Entry} (done : Done v e) : Done w e := by
  obtain ⟨x, y, source, copy, same⟩ := done
  exact ⟨x, y, getElem?_of_grown grows.sources source, grows.copies _ _ copy, same.mono grows.linked⟩

theorem Grows.refl (w : Worlds) : Grows w w :=
  ⟨List.prefix_rfl, fun _ _ found => found, rfl, [], rfl, fun _ member => absurd member List.not_mem_nil⟩

theorem Grows.trans (first : Grows u v) (second : Grows v w) : Grows u w := by
  obtain ⟨new, log, done⟩ := first.log
  obtain ⟨new', log', done'⟩ := second.log
  refine ⟨first.sources.trans second.sources, fun addr obj found => second.copies _ _ (first.copies _ _ found),
    second.input.trans first.input, new' ++ new, by rw [log', log, List.append_assoc], fun e member => ?_⟩
  rcases List.mem_append.mp member with late | early
  · exact done' e late
  · exact (done e early).mono second

end

/-- One memory is written, the other is read; no buffer is longer than an `int` can tell. -/
def link : Link Memory Memory (List Entry) where
  written := fun m => m.bb.buf.data
  unread := Memory.unread
  limit := 2 ^ 63
  Agree := Agree
  Grows := Grows
  refl := Grows.refl
  trans := Grows.trans

end Xxlib.Go
