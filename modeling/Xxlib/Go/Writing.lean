import Xxlib.Go.Pointers
import Mathlib.Data.Finset.Card
import Mathlib.Data.Finset.Range

/-! Writing a graph comes to an end.

An object is written when it is met for the first time. The nesting is therefore bounded by
the number of objects that have not been met, and strings do not nest.
-/

set_option autoImplicit false

namespace Xxlib.Go

open Lib

/-- A memory with a graph of `base` objects. The others are strings that the writer has made. -/
structure Holds (base : Nat) (m : Memory) : Prop where
  typed : ∀ obj ∈ m.heap, obj.Typed m.heap
  room : base ≤ m.heap.length
  made : ∀ (addr : Addr) (obj : Obj), base ≤ addr → m.heap[addr]? = some obj → obj.kind = .string

/-- A memory while a root of the graph is written. -/
structure Sound (base : Nat) (m : Memory) : Prop extends Holds base m where
  strings : ∀ entry ∈ m.bb.strStore, m.heap[entry.2]? = some (.string entry.1)

/-- How many objects have not been met. -/
def unmet (base : Nat) (m : Memory) : Nat :=
  ((Finset.range base).filter fun addr => m.bb.ptrStore.lookup addr = none).card

/-- What happens to a memory while objects are written. -/
structure Later (base : Nat) (m m' : Memory) : Prop where
  sound : Sound base m'
  heap : m.heap <+: m'.heap
  unmet : unmet base m' ≤ unmet base m

/-- `run` returns, if no more than `depth` objects have not been met and `vs` are pointers. -/
def Completes {α : Type} (base depth : Nat) (vs : List IObject) (run : Run α) : Prop :=
  ∀ m, Sound base m → unmet base m ≤ depth → (∀ v ∈ vs, v.Root m.heap) →
    ∃ x m', run m = .ok x m' ∧ Later base m m'

section
variable {α β : Type} {base depth : Nat} {vs : List IObject}

theorem IObject.Root.mono {heap heap' : List Obj} (longer : heap <+: heap') {v : IObject} (root : v.Root heap) :
    v.Root heap' := by
  cases v with
  | nil => trivial
  | typedNil kind => trivial
  | ptr addr => exact Nat.lt_of_lt_of_le root longer.length_le

theorem IObject.Has.root {heap : List Obj} {kinds : List Kind} {v : IObject} (has : v.Has heap kinds) :
    v.Root heap := by
  cases v with
  | nil => trivial
  | typedNil kind => trivial
  | ptr addr =>
    obtain ⟨obj, found, -⟩ := has
    exact (List.getElem?_eq_some_iff.mp found).1

theorem Later.trans {m₁ m₂ m₃ : Memory} (first : Later base m₁ m₂) (second : Later base m₂ m₃) :
    Later base m₁ m₃ :=
  ⟨second.sound, first.heap.trans second.heap, Nat.le_trans second.unmet first.unmet⟩

theorem Completes.bind {run : Run α} {next : α → Run β} (first : Completes base depth vs run)
    (second : ∀ x, Completes base depth vs (next x)) : Completes base depth vs (run >>= next) := by
  intro m sound few valid
  obtain ⟨x, m₁, ran₁, later₁⟩ := first m sound few valid
  obtain ⟨y, m₂, ran₂, later₂⟩ := second x m₁ later₁.sound (Nat.le_trans later₁.unmet few)
    fun v member => (valid v member).mono later₁.heap
  exact ⟨y, m₂, bind_run ran₁ ran₂, later₁.trans later₂⟩

theorem Completes.subset {vs' : List IObject} {run : Run α} (completes : Completes base depth vs run)
    (subset : ∀ v ∈ vs, v ∈ vs') : Completes base depth vs' run :=
  fun m sound few valid => completes m sound few fun v member => valid v (subset v member)

theorem Completes.forM {write : α → Run Unit} {items : List α}
    (each : ∀ x ∈ items, Completes base depth vs (write x)) : Completes base depth vs (items.forM write) := by
  induction items with
  | nil => exact fun m sound _ _ => ⟨_, _, rfl, sound, List.prefix_rfl, Nat.le_refl _⟩
  | cons x items ih =>
    apply Completes.bind (each x List.mem_cons_self)
    exact fun _ => ih fun other member => each other (List.mem_cons_of_mem x member)

theorem completes_append (bytes : List UInt8) : Completes base depth vs (append bytes) :=
  fun _ sound _ _ => ⟨_, _, rfl, ⟨⟨sound.typed, sound.room, sound.made⟩, sound.strings⟩, List.prefix_rfl, Nat.le_refl _⟩

theorem completes_int32 (v : Int32) : Completes base depth vs (writeInt32 v) := completes_append _

theorem completes_length (n : Nat) : Completes base depth vs (writeLength n) := completes_append _

theorem completes_nullableInt32 (v : NullableInt32) : Completes base depth vs (writeNullableInt32 v) := by
  unfold writeNullableInt32
  split
  · exact (completes_append _).bind fun _ => completes_append _
  · exact completes_append _

theorem Sound.interned {m : Memory} (sound : Sound base m) (value : List UInt8) :
    Sound base (m.interned value) := by
  have longer : m.heap <+: m.heap ++ [.string value] := List.prefix_append _ _
  refine ⟨⟨?typed, Nat.le_trans sound.room longer.length_le, ?made⟩, ?strings⟩
  case typed =>
    intro obj member
    rcases List.mem_append.mp member with old | new
    · exact (sound.typed obj old).mono longer
    · rw [List.mem_singleton.mp new]
      trivial
  case made =>
    intro addr obj beyond found
    rcases getElem?_concat_cases found with old | ⟨-, rfl⟩
    · exact sound.made addr obj beyond old
    · rfl
  case strings =>
    intro entry member
    rcases List.mem_cons.mp member with rfl | old
    · exact List.getElem?_concat_length
    · exact getElem?_of_grown longer (sound.strings entry old)

/-- A string gets a pointer to an object that is there. -/
theorem intern_completes {m : Memory} (sound : Sound base m) (value : List UInt8) :
    ∃ v m', intern value m = .ok v m' ∧ Later base m m' ∧ v.Root m'.heap := by
  cases known : m.bb.strStore.lookup value with
  | some addr =>
    obtain ⟨front, back, split, -⟩ := List.lookup_eq_some_iff.mp known
    have member : (value, addr) ∈ m.bb.strStore := by
      rw [split]
      simp
    refine ⟨.ptr addr, m, ?_, ⟨sound, List.prefix_rfl, Nat.le_refl _⟩, ?_⟩
    · apply bind_run rfl
      rw [known]
      rfl
    · exact (List.getElem?_eq_some_iff.mp (sound.strings _ member)).1
  | none =>
    refine ⟨.ptr m.heap.length, m.interned value, ?_, ⟨sound.interned value, List.prefix_append _ _, Nat.le_refl _⟩, ?_⟩
    · apply bind_run rfl
      rw [known]
      rfl
    · simp [IObject.Root, Memory.interned]

/-! ## The methods -/

/-- Pointers can be written where `depth` objects have not been met. -/
def Writes (base depth : Nat) (write : IObject → Run Unit) : Prop := ∀ v, Completes base depth [v] (write v)

section
variable {write : IObject → Run Unit} (writes : Writes base depth write)
include writes

theorem Writes.pointer {v : IObject} (member : v ∈ vs) : Completes base depth vs (write v) :=
  (writes v).subset fun _ only => List.mem_singleton.mp only ▸ member

theorem Writes.nullableString (v : NullableString) : Completes base depth vs (writeNullableString write v) := by
  unfold writeNullableString
  split
  · intro m sound few _
    obtain ⟨v, m₁, ran₁, later₁, root⟩ := intern_completes sound v.value
    obtain ⟨u, m₂, ran₂, later₂⟩ := writes v m₁ later₁.sound (Nat.le_trans later₁.unmet few)
      fun other only => List.mem_singleton.mp only ▸ root
    exact ⟨u, m₂, bind_run ran₁ ran₂, later₁.trans later₂⟩
  · exact completes_append _

theorem Writes.foo {v : Foo} (member : v.parent ∈ vs) : Completes base depth vs (writeFoo write v) := by
  apply (completes_int32 v.id).bind
  intro _
  apply (writes.nullableString v.name).bind
  intro _
  apply (completes_nullableInt32 v.age).bind
  intro _
  exact writes.pointer member

end

/-- The pointers of an object. -/
def Obj.pointers : Obj → List IObject
  | .string _ => []
  | .bbuffer _ => []
  | .foo v => [v.parent]
  | .listInt32 _ => []
  | .fooExt1 v => [v.parent, v.childIds]
  | .listFooExt1 items => items

theorem Obj.Typed.roots {heap : List Obj} {obj : Obj} (typed : obj.Typed heap) :
    ∀ v ∈ obj.pointers, v.Root heap := by
  intro v member
  cases obj with
  | string value => cases member
  | bbuffer bb => cases member
  | foo x => exact List.mem_singleton.mp member ▸ IObject.Has.root typed
  | listInt32 items => cases member
  | fooExt1 x =>
    rcases List.mem_cons.mp member with rfl | last
    · exact IObject.Has.root typed.1
    · exact List.mem_singleton.mp last ▸ IObject.Has.root typed.2
  | listFooExt1 items => exact (typed v member).root

theorem Writes.body {write : IObject → Run Unit} (writes : Writes base depth write) (obj : Obj) :
    Completes base depth obj.pointers (toBBuffer write obj) := by
  cases obj with
  | string value => exact (completes_length _).bind fun _ => completes_append _
  | bbuffer bb => exact (completes_length _).bind fun _ => completes_append _
  | foo v => exact writes.foo List.mem_cons_self
  | listInt32 items => exact (completes_length _).bind fun _ => .forM fun x _ => completes_int32 x
  | fooExt1 v =>
    exact (writes.foo List.mem_cons_self).bind fun _ => writes.pointer (List.mem_cons_of_mem _ List.mem_cons_self)
  | listFooExt1 items => exact (completes_length _).bind fun _ => .forM fun v member => writes.pointer member

/-! ## The recursion -/

theorem Sound.opened {m : Memory} (sound : Sound base m) (addr : Addr) (kind : Kind) :
    Sound base (m.opened addr kind) :=
  ⟨⟨sound.typed, sound.room, sound.made⟩, sound.strings⟩

theorem lookup_opened {m : Memory} {addr other : Addr} {kind : Kind}
    (unknown : (m.opened addr kind).bb.ptrStore.lookup other = none) :
    other ≠ addr ∧ m.bb.ptrStore.lookup other = none := by
  change ((addr, m.nextOffset) :: m.bb.ptrStore).lookup other = none at unknown
  rw [List.lookup_cons] at unknown
  split at unknown
  · cases unknown
  · next differ => exact ⟨by simpa using differ, unknown⟩

theorem unmet_opened_le (m : Memory) (addr : Addr) (kind : Kind) : unmet base (m.opened addr kind) ≤ unmet base m :=
  Finset.card_le_card fun _ member =>
    Finset.mem_filter.mpr ⟨(Finset.mem_filter.mp member).1, (lookup_opened (Finset.mem_filter.mp member).2).2⟩

/-- An object that is met is not unmet any more. -/
theorem unmet_opened_lt {m : Memory} {addr : Addr} (inside : addr < base)
    (unknown : m.bb.ptrStore.lookup addr = none) (kind : Kind) :
    unmet base (m.opened addr kind) < unmet base m := by
  apply Finset.card_lt_card
  rw [Finset.ssubset_iff_of_subset]
  · refine ⟨addr, Finset.mem_filter.mpr ⟨Finset.mem_range.mpr inside, unknown⟩, fun member => ?_⟩
    exact (lookup_opened (Finset.mem_filter.mp member).2).1 rfl
  · intro other member
    exact Finset.mem_filter.mpr
      ⟨(Finset.mem_filter.mp member).1, (lookup_opened (Finset.mem_filter.mp member).2).2⟩

theorem Later.of_opened {m m' : Memory} {addr : Addr} {kind : Kind} (later : Later base (m.opened addr kind) m') :
    Later base m m' :=
  ⟨later.sound, later.heap, Nat.le_trans later.unmet (unmet_opened_le m addr kind)⟩

/-- What is deeper has met an object more. -/
theorem Writes.next {fuel : Nat} (nested : ∀ less < depth, Writes base less (writeIObject fuel)) :
    Writes base depth (writeIObject (fuel + 1)) := by
  intro v m sound few valid
  cases v with
  | nil => exact completes_append [0] m sound few valid
  | typedNil kind => exact completes_append [0] m sound few valid
  | ptr addr =>
    have inside : addr < m.heap.length := valid (.ptr addr) List.mem_cons_self
    obtain ⟨obj, found⟩ : ∃ obj, m.heap[addr]? = some obj := ⟨_, List.getElem?_eq_getElem inside⟩
    cases known : m.bb.ptrStore.lookup addr with
    | some offset =>
      rw [writeIObject_known found known]
      exact ⟨_, _, rfl, ⟨⟨sound.typed, sound.room, sound.made⟩, sound.strings⟩, List.prefix_rfl, Nat.le_refl _⟩
    | none =>
      rw [writeIObject_new found known]
      have opened := sound.opened addr obj.kind
      have roots := (sound.typed obj (List.mem_of_getElem? found)).roots
      by_cases string : obj.kind = .string
      · cases obj with
        | string value =>
          have body : Completes base depth [] (toBBuffer (writeIObject fuel) (.string value)) :=
            (completes_length _).bind fun _ => completes_append _
          obtain ⟨u, m', ran, later⟩ := body _ opened (Nat.le_trans (unmet_opened_le m addr _) few) roots
          exact ⟨u, m', ran, later.of_opened⟩
        | _ => cases string
      · have original : addr < base := by
          by_contra made
          exact string (sound.made addr obj (Nat.not_lt.mp made) found)
        have fewer := unmet_opened_lt original known obj.kind
        obtain ⟨u, m', ran, later⟩ := (nested (depth - 1) (by omega)).body obj _ opened (by omega) roots
        exact ⟨u, m', ran, later.of_opened⟩

theorem writes (base depth : Nat) : Writes base depth (writeIObject (depth + 2)) := by
  induction depth with
  | zero => exact Writes.next fun less impossible => absurd impossible (Nat.not_lt_zero less)
  | succ depth ih =>
    apply Writes.next
    intro less fewer v m sound few valid
    exact ih v m sound (by omega) valid

end

end Xxlib.Go
