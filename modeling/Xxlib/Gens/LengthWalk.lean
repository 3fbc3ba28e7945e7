import Xxlib.Gens.Messages

/-! The lengths that a reader of a message comes across, in the order in which it does, and the limits that are set in
between.

All of this is a matter of the values alone. An object is gone through where it is met for the first time, as `WritePtr`
does it.
-/

set_option autoImplicit false

namespace Xxlib.Gens.Messages

open Lib
open Interop (IntType)
open Uv3 (Addr PtrType Fault)

/-! ## Messages -/

/-- Every struct of the type is regular. It has members: there is no `Read` without arguments. -/
def Layout.Regular : Layout → Prop
  | .wire _ => True
  | .struct S layout => S.Regular ∧ S.fields ≠ [] ∧ ∀ f ∈ S.fields, (layout f).Regular

/-- The emitted writers and readers agree. -/
structure Schema.Regular (schema : Schema) : Prop where
  items : ∀ type item, schema.shape type = .list item → item.Regular
  classes : ∀ type c, schema.shape type = .generated c → c.Regular
  fields : ∀ type c, schema.shape type = .generated c → ∀ f ∈ readBack (Class.levels c), (schema.layout f).Regular

section
variable (schema : Schema) (heap : List (Option Object)) (part : Addr → Prop)

/-- A pointer of the type `T` that leads to a part of the message, or nowhere. -/
def Leads (T : PtrType) (v : Option Addr) : Prop :=
  ∀ a, v = some a → part a ∧ ∃ x, Lives heap a x ∧ schema.types.Fits T x.class

def Cell.Sound : Cell → Prop
  | ⟨.shared T, v⟩ => Leads schema heap part T v
  | ⟨.weak T, v⟩ => Leads schema heap part T (lock heap v)
  | _ => True

/-- The value is of the type. -/
inductive Value.Sound : Layout → Value → Prop where
  | cell {type : WireType} {v : type.Value} (sound : Cell.Sound schema heap part ⟨type, v⟩) :
      Value.Sound (.wire type) (.cell ⟨type, v⟩)
  | struct {S : Struct} {layout : FieldInfo → Layout} {member : Members}
      (sound : ∀ f ∈ S.fields, Value.Sound (layout f) (member f)) : Value.Sound (.struct S layout) (.struct S member)

/-- The object is of its type. Of a generated class the serialised members matter. -/
inductive Object.Sound : Object → Prop where
  | string (data : List UInt8) : Object.Sound (.string data)
  | bbuffer (data : List UInt8) : Object.Sound (.bbuffer data)
  | list {type : Nat} {items : List Value} (item : Layout) (shape : schema.shape type = .list item)
      (sound : ∀ v ∈ items, Value.Sound schema heap part item v) : Object.Sound (.list type items)
  | generated {type : Nat} {member : Members} (c : Class) (shape : schema.shape type = .generated c)
      (sound : ∀ f ∈ readBack (Class.levels c), Value.Sound schema heap part (schema.layout f) (member f)) :
      Object.Sound (.generated type member)

end

/-- A root, and the objects that it leads to, among others. `T` is the static type of the root. -/
structure Message (schema : Schema) where
  heap : List (Option Object)
  part : Addr → Prop
  T : PtrType
  root : Option Addr
  leads : Leads schema heap part T root
  registered : ∀ a x, part a → Lives heap a x → schema.types.Registered x.class
  sound : ∀ a x, part a → Lives heap a x → x.Sound schema heap part

/-! ## Limits that are kept -/

def Object.length : Object → Option Nat
  | .string data | .bbuffer data => some data.length
  | .list _ items => some items.length
  | .generated _ _ => none

def Cell.length (heap : List (Option Object)) : Cell → Option Nat
  | ⟨.string, data⟩ => some (List.length (α := UInt8) data)
  | ⟨.shared _, v⟩ => Option.bind (α := Addr) v fun a => heap[a]?.join.bind Object.length
  | _ => none

/-- The container in a field with a limit is not longer. -/
def Value.Legal (heap : List (Option Object)) : FieldInfo → Value → Prop
  | f, .cell c => f.type.isContainer = true → f.limit ≠ 0 → ∀ n, Cell.length heap c = some n → (n : Int) ≤ f.limit
  | _, .struct S member => ∀ g ∈ S.fields, Value.Legal heap g (member g)

/-- Every container in a field with a limit is as the limit says. -/
def Message.Legal {schema : Schema} (message : Message schema) : Prop :=
  ∀ a type member c, message.part a → Lives message.heap a (.generated type member) →
    schema.shape type = .generated c → ∀ f ∈ (Class.levels c).flatten, Value.Legal message.heap f (member f)

/-! ## Marks -/

inductive Mark where
  /-- `readLengthLimit` is set. -/
  | limit (n : Nat)
  /-- The length of a string or of a `List`. -/
  | length (n : Nat)
  /-- A number of 64 bits, as it is written. -/
  | wide (u : Nat)

/-- Every length is within the limit that was set last before it, where 0 is none, and every number of 64 bits has five
groups at most. -/
def Within : Nat → List Mark → Prop
  | _, [] => True
  | _, .limit n :: rest => Within n rest
  | limit, .length n :: rest => (limit = 0 ∨ n ≤ limit) ∧ Within limit rest
  | limit, .wide u :: rest => u < 2 ^ 35 ∧ Within limit rest

/-- From the objects that were met before to those that were met then, and what the reader comes across meanwhile. -/
abbrev Visit := List Addr → List Addr × List Mark

namespace Visit

def marks (marks : List Mark) : Visit := fun met => (met, marks)

def next (first second : Visit) : Visit := fun met =>
  ((second (first met).1).1, (first met).2 ++ (second (first met).1).2)

def each {α : Type} (visit : α → Visit) : List α → Visit
  | [] => marks []
  | x :: xs => next (visit x) (each visit xs)

end Visit

section
variable (heap : List (Option Object)) (visit : Option Addr → Visit)

def visitCell : Cell → Visit
  | ⟨.number .int64, v⟩ => .marks [.wide (zigZagEncode (w := 64) v).toNat]
  | ⟨.number .uint64, v⟩ => .marks [.wide (BitVec.toNat (w := 64) v)]
  | ⟨.string, data⟩ => .marks [.length (List.length (α := UInt8) data)]
  | ⟨.shared _, v⟩ => visit v
  | ⟨.weak _, v⟩ => visit (lock heap v)
  | _ => .marks []

def visitValue : Value → Visit
  | .cell cell => visitCell heap visit cell
  | .struct S member => .each (fun f => visitValue (member f)) S.fields

/-- What is set in front of a field. -/
def FieldInfo.limitMarks (f : FieldInfo) : List Mark :=
  if f.type.isContainer then [.limit (f.limit % 2 ^ 64).toNat] else []

def visitField (member : Members) (f : FieldInfo) : Visit :=
  -- where the pointer is null or its object was met before, the limit only holds for what comes next
  .next (.marks (FieldInfo.limitMarks f)) (visitValue heap visit (member f))

/-- A `BBuffer` is read without a limit. -/
def visitObject (schema : Schema) : Object → Visit
  | .string data => .marks [.length data.length]
  | .bbuffer _ => .marks []
  | .list _ items => .next (.marks [.length items.length]) (.each (visitValue heap visit) items)
  -- the fields of the base come first
  | .generated type member => .each (visitField heap visit member) (schema.written type)

end

/-- `fuel` bounds how deep objects nest. -/
def visitPtr (schema : Schema) (heap : List (Option Object)) : Nat → Option Addr → Visit
  | fuel + 1, some a => fun met =>
      if a ∈ met then (met, [])
      else match heap[a]? with
        | some (some x) => visitObject heap (visitPtr schema heap fuel) schema x (a :: met)
        | _ => (met, [])
  | _, _ => .marks []

/-- What the reader of a message comes across. -/
def Message.marks {schema : Schema} (message : Message schema) : List Mark :=
  (visitPtr schema message.heap (message.heap.length + 1) message.root []).2

/-! ## The decision of the reader -/

/-- The last limit, if the reader comes to the end. -/
def judge : Nat → List Mark → Option Nat
  | limit, [] => some limit
  | _, .limit n :: rest => judge n rest
  | limit, .length n :: rest => if limit = 0 ∨ n ≤ limit then judge limit rest else none
  | limit, .wide u :: rest => if u < 2 ^ 35 then judge limit rest else none

theorem judge_isSome_iff (limit : Nat) (marks : List Mark) :
    (judge limit marks).isSome = true ↔ Within limit marks := by
  induction marks generalizing limit with
  | nil => exact iff_of_true rfl trivial
  | cons mark marks ih =>
    cases mark with
    | limit n => exact ih n
    | length n =>
      unfold judge Within
      by_cases fits : limit = 0 ∨ n ≤ limit
      · rw [if_pos fits, ih, and_iff_right fits]
      · rw [if_neg fits]
        exact iff_of_false Bool.false_ne_true fun both => fits both.1
    | wide u =>
      unfold judge Within
      by_cases fits : u < 2 ^ 35
      · rw [if_pos fits, ih, and_iff_right fits]
      · rw [if_neg fits]
        exact iff_of_false Bool.false_ne_true fun both => fits both.1

theorem judge_append (limit : Nat) (marks more : List Mark) :
    judge limit (marks ++ more) = (judge limit marks).bind fun last => judge last more := by
  induction marks generalizing limit with
  | nil => rfl
  | cons mark marks ih =>
    rw [List.cons_append]
    cases mark with
    | limit n => exact ih n
    | length n =>
      by_cases fits : limit = 0 ∨ n ≤ limit
      · simp only [judge, if_pos fits, ih]
      · simp only [judge, if_neg fits, Option.bind_none]
    | wide u =>
      by_cases fits : u < 2 ^ 35
      · simp only [judge, if_pos fits, ih]
      · simp only [judge, if_neg fits, Option.bind_none]

/-- What reader and writer have in common. -/
structure Trail where
  met : List Addr
  limit : Nat

/-- The monitor of a reader. -/
def Visit.guard (visit : Visit) (trail : Trail) : Option Trail :=
  (judge trail.limit (visit trail.met).2).map fun limit => ⟨(visit trail.met).1, limit⟩

namespace Visit

theorem guard_next (first second : Visit) :
    guard (next first second) = fun trail => (guard first trail).bind (guard second) := by
  funext trail
  unfold guard next
  rw [judge_append]
  cases judge trail.limit (first trail.met).2 with
  | none => rfl
  | some last => rfl

theorem guard_each {α : Type} (visit : α → Visit) (xs : List α) :
    guard (each visit xs) = fun trail => xs.foldlM (fun trail x => guard (visit x) trail) trail := by
  induction xs with
  | nil => rfl
  | cons x xs ih =>
    unfold each
    rw [guard_next, ih]
    rfl

theorem each_append {α : Type} (visit : α → Visit) (xs ys : List α) :
    each visit (xs ++ ys) = next (each visit xs) (each visit ys) := by
  induction xs with
  | nil => rfl
  | cons x xs ih =>
    funext met
    simp only [List.cons_append, each, ih, next, List.append_assoc]

end Visit

end Xxlib.Gens.Messages
