import Xxlib.Go.IntegerReads
import Xxlib.Go.Pointers
import Xxlib.Go.Scalars
import Xxlib.Lib.Reader

/-! A reader of `BBuffer` depends on the bytes that it takes, not on where they stand, nor on
what follows them.
-/

set_option autoImplicit false

namespace Xxlib.Go

open Lib

/-! ## Memories that correspond -/

/-- What a slice of the buffer may reach, from the offset on. -/
def Memory.reach (m : Memory) : List UInt8 := (m.bb.buf.data ++ m.bb.buf.spare).drop m.bb.offset

structure Takes (m : Memory) (used : List UInt8) (m' : Memory) : Prop where
  buf : m'.bb.buf = m.bb.buf
  offset : m'.bb.offset = m.bb.offset + used.length
  bytes : m.reach = used ++ m'.reach

/-- `u` holds what `t` holds, apart from the bytes, at an offset inside its buffer. What has been read since the
last root counts from there, and only if there was one. -/
structure Alike (rooted : Prop) (t u : Memory) : Prop where
  heap : t.heap = u.heap
  limit : t.bb.readLengthLimit = u.bb.readLengthLimit
  inside : u.bb.offset ≤ u.bb.buf.data.length
  store : rooted → t.bb.idxStore = u.bb.idxStore
  place : rooted → (t.bb.offset : Int) - t.bb.offsetRoot = u.bb.offset - u.bb.offsetRoot

def tape (rooted : Prop) : Tape Memory where
  Takes := Takes
  unread := Memory.unread
  Alike := Alike rooted
  refl m := ⟨rfl, rfl, rfl⟩
  trans first second :=
    ⟨second.buf.trans first.buf, by rw [second.offset, first.offset, List.length_append, Nat.add_assoc],
      by rw [first.bytes, second.bytes, List.append_assoc]⟩
  rest takes input := by
    unfold Memory.unread at *
    rw [takes.buf, takes.offset, ← List.drop_drop, input, List.drop_left]

section
variable {rooted : Prop} {m m' t u : Memory} {used tail : List UInt8} {α : Type}

theorem reach_eq (inside : m.bb.offset ≤ m.bb.buf.data.length) : m.reach = m.unread ++ m.bb.buf.spare :=
  List.drop_append_of_le_length inside

theorem Alike.advanced (alike : Alike rooted t u) (input : u.unread = used ++ tail) :
    Alike rooted (t.advanced used.length) (u.advanced used.length) := by
  have count := congrArg List.length input
  have inside := alike.inside
  simp only [Memory.unread, List.length_drop, List.length_append] at count
  refine ⟨alike.heap, alike.limit, ?_, alike.store, fun root => ?_⟩
  · simp only [Memory.advanced]
    omega
  · have place := alike.place root
    simp only [Memory.advanced]
    omega

theorem takes_advanced (front : m.reach.take used.length = used) :
    Takes m used (m.advanced used.length) := by
  refine ⟨rfl, rfl, ?_⟩
  have rest : (m.advanced used.length).reach = m.reach.drop used.length := by
    unfold Memory.reach Memory.advanced
    rw [List.drop_drop]
  rw [rest]
  calc m.reach = m.reach.take used.length ++ m.reach.drop used.length := (List.take_append_drop _ _).symm
    _ = used ++ m.reach.drop used.length := by rw [front]

theorem takes_of_unread (inside : m.bb.offset ≤ m.bb.buf.data.length) (input : m.unread = used ++ tail) :
    Takes m used (m.advanced used.length) := by
  have shape : m.reach = used ++ (tail ++ m.bb.buf.spare) := by rw [reach_eq inside, input, List.append_assoc]
  apply takes_advanced
  rw [shape, List.take_left]

/-- A reader that takes bytes of the buffer itself, and does nothing else. -/
theorem local_plain {read : Run α} (reads : ∀ m x m', read m = .ok x m' → ∃ used tail,
    m.bb.offset ≤ m.bb.buf.data.length ∧ m.unread = used ++ tail ∧ m' = m.advanced used.length ∧
      ∀ u rest, u.unread = used ++ rest → read u = .ok x (u.advanced used.length)) : (tape rooted).Local read := by
  intro t x t' ran
  obtain ⟨used, tail, inside, input, rfl, again⟩ := reads t x t' ran
  refine ⟨used, takes_of_unread inside input, fun u rest alike input' => ?_⟩
  exact ⟨_, again u rest input', takes_of_unread alike.inside input', alike.advanced input'⟩

theorem offset_lt_of_unread {b : UInt8} (input : m.unread = b :: tail) : m.bb.offset < m.bb.buf.data.length := by
  have count := congrArg List.length input
  simp only [Memory.unread, List.length_drop, List.length_cons] at count
  omega

end

/-! ## Bytes and numbers -/

section
variable {rooted : Prop} {m m' : Memory}

theorem nextByte_ok {b : UInt8} (ran : nextByte m = .ok b m') : ∃ tail, m.unread = [b] ++ tail ∧ m' = m.advanced 1 := by
  unfold nextByte at ran
  split at ran
  · cases ran
  · next byte found =>
    cases ran
    obtain ⟨bound, value⟩ := List.getElem?_eq_some_iff.mp found
    refine ⟨m.bb.buf.data.drop (m.bb.offset + 1), ?_, rfl⟩
    unfold Memory.unread
    rw [List.drop_eq_getElem_cons bound, value]
    rfl

theorem nextByte_local : (tape rooted).Local nextByte := by
  apply local_plain
  intro m b m' ran
  obtain ⟨tail, input, rfl⟩ := nextByte_ok ran
  exact ⟨[b], tail, Nat.le_of_lt (offset_lt_of_unread input), input, rfl, fun u rest input' => nextByte_eq input'⟩

theorem readVarUInt64_local : (tape rooted).Local readVarUInt64 := by
  apply local_plain
  intro m v m' ran
  obtain ⟨n, length, found, few, rfl, rfl⟩ := readVarUInt64_ok ran
  obtain ⟨some, short⟩ := Varint.decode_length found
  have count : (m.unread.take length).length = length := List.length_take_of_le short
  refine ⟨m.unread.take length, m.unread.drop length, ?_, (List.take_append_drop _ _).symm, by rw [count], ?_⟩
  · simp only [Memory.unread, List.length_drop] at short
    omega
  · intro u rest input
    rw [count]
    apply readVarUInt64_decode _ few
    rw [input]
    exact Varint.decode_take found rest

/-- A slice may reach behind the length of the buffer: these bytes count as taken, too. -/
theorem nextBytes_local (bufLen : Int) : (tape rooted).Local (nextBytes bufLen) := by
  intro t bytes t' ran
  unfold nextBytes at ran
  simp only at ran
  split at ran
  · next inside =>
    obtain ⟨n, rfl⟩ := Int.eq_ofNat_of_zero_le inside.1
    have count : (t.reach.take n).length = n := by
      rw [List.length_take_of_le]
      unfold Memory.reach
      rw [List.length_drop, List.length_append]
      omega
    cases ran
    change ∃ used, Takes t used (t.advanced n) ∧ _
    refine ⟨t.reach.take n, ?_, fun u tail alike input => ?_⟩
    · have takes : Takes t (t.reach.take n) (t.advanced (t.reach.take n).length) := takes_advanced (by rw [count])
      rwa [count] at takes
    · have again := nextBytes_eq alike.inside input
      have taken := takes_of_unread alike.inside input
      have alike' := alike.advanced input
      rw [count] at again taken alike'
      exact ⟨_, again, taken, alike'⟩
  · cases ran

theorem readVarInt64_local : (tape rooted).Local readVarInt64 := readVarUInt64_local.map _

theorem readLength_local : (tape rooted).Local readLength := readVarUInt64_local.map _

theorem readBool_local : (tape rooted).Local readBool := nextByte_local.map _

theorem readInt32_local : (tape rooted).Local readInt32 := readVarInt64_local.map _

theorem readUInt16_local : (tape rooted).Local readUInt16 := readVarUInt64_local.map _

theorem readUInt32_local : (tape rooted).Local readUInt32 := readVarUInt64_local.map _

theorem readNullableInt32_local : (tape rooted).Local readNullableInt32 := by
  apply readBool_local.bind
  intro has
  split
  · exact readInt32_local.map _
  · exact .pure _

theorem readNullable_local {α : Type} [Inhabited α] {read : Run α} (value : (tape rooted).Local read) :
    (tape rooted).Local (readNullable read) := by
  apply readBool_local.bind
  intro has
  split
  · exact value.map _
  · exact .pure _

theorem byteAhead_ok {i : Nat} {b : UInt8} (ran : byteAhead i m = .ok b m') : m' = m ∧ m.unread[i]? = some b := by
  unfold byteAhead at ran
  split at ran
  · cases ran
  · next byte found =>
    cases ran
    exact ⟨rfl, by rw [Memory.unread, List.getElem?_drop, found]⟩

theorem readFloat32_ok {f : UInt32} (ran : readFloat32 m = .ok f m') : ∃ b₀ b₁ b₂ b₃ tail,
    m.unread = [b₀, b₁, b₂, b₃] ++ tail ∧ m' = m.advanced 4 ∧
      f = b₀.toUInt32 ||| shifted32 b₁ 8 ||| shifted32 b₂ 16 ||| shifted32 b₃ 24 := by
  obtain ⟨b₀, _, first, ran₁⟩ := bind_ok ran
  obtain ⟨rfl, found₀⟩ := byteAhead_ok first
  obtain ⟨b₁, _, second, ran₂⟩ := bind_ok ran₁
  obtain ⟨rfl, found₁⟩ := byteAhead_ok second
  obtain ⟨b₂, _, third, ran₃⟩ := bind_ok ran₂
  obtain ⟨rfl, found₂⟩ := byteAhead_ok third
  obtain ⟨b₃, m, fourth, ran₄⟩ := bind_ok ran₃
  obtain ⟨rfl, found₃⟩ := byteAhead_ok fourth
  cases ran₄
  match shape : m.unread with
  | c₀ :: c₁ :: c₂ :: c₃ :: tail =>
    rw [shape] at found₀ found₁ found₂ found₃
    cases found₀
    cases found₁
    cases found₂
    cases found₃
    exact ⟨b₀, b₁, b₂, b₃, tail, rfl, rfl, rfl⟩
  | [] | [_] | [_, _] | [_, _, _] =>
    rw [shape] at found₃
    cases found₃

theorem readFloat32_local : (tape rooted).Local readFloat32 := by
  apply local_plain
  intro m f m' ran
  obtain ⟨b₀, b₁, b₂, b₃, tail, input, rfl, rfl⟩ := readFloat32_ok ran
  refine ⟨[b₀, b₁, b₂, b₃], tail, Nat.le_of_lt (offset_lt_of_unread input), input, rfl, fun u rest input' => ?_⟩
  apply bind_run (byteAhead_eq input' rfl)
  apply bind_run (byteAhead_eq input' rfl)
  apply bind_run (byteAhead_eq input' rfl)
  apply bind_run (byteAhead_eq input' rfl)
  rfl

end

/-! ## Objects -/

section
variable {rooted : Prop}

theorem load_local (addr : Addr) : (tape rooted).Local (load addr) := by
  have still (t : Memory) (obj : Obj) (t' : Memory) (ran : load addr t = .ok obj t') :
      t' = t ∧ t.heap[addr]? = some obj := by
    unfold load at ran
    split at ran
    · cases ran
    · next found =>
      cases ran
      exact ⟨rfl, found⟩
  apply Tape.Local.quiet
  · intro t obj t' ran
    rw [(still t obj t' ran).1]
    exact (tape rooted).refl t
  · intro t obj t' u ran alike
    obtain ⟨rfl, found⟩ := still t obj t' ran
    rw [alike.heap] at found
    exact ⟨u, load_found found, alike⟩

theorem alloc_local (obj : Obj) : (tape rooted).Local (alloc obj) := by
  apply Tape.Local.quiet
  · intro t addr t' ran
    cases ran
    exact ⟨rfl, rfl, rfl⟩
  · intro t addr t' u ran alike
    cases ran
    refine ⟨_, by rw [alike.heap]; rfl, ?_⟩
    exact ⟨congrArg (· ++ [obj]) alike.heap, alike.limit, alike.inside, alike.store, alike.place⟩

theorem store_local (addr : Addr) (obj : Obj) : (tape rooted).Local (store addr obj) := by
  apply Tape.Local.quiet
  · intro t x t' ran
    cases ran
    exact ⟨rfl, rfl, rfl⟩
  · intro t x t' u ran alike
    cases ran
    refine ⟨_, rfl, ?_⟩
    exact ⟨congrArg (fun heap => heap.set addr obj) alike.heap, alike.limit, alike.inside, alike.store, alike.place⟩

theorem noteIdx_local (ptrOffset : Int) (addr : Addr) : (tape rooted).Local (modify fun m : Memory =>
    { m with bb := { m.bb with idxStore := (ptrOffset, addr) :: m.bb.idxStore } } : Run Unit) := by
  apply Tape.Local.quiet
  · intro t x t' ran
    cases ran
    exact ⟨rfl, rfl, rfl⟩
  · intro t x t' u ran alike
    cases ran
    refine ⟨_, rfl, ?_⟩
    exact ⟨alike.heap, alike.limit, alike.inside, fun root => congrArg ((ptrOffset, addr) :: ·) (alike.store root),
      alike.place⟩

theorem readCount_local : (tape rooted).Local readCount := by
  apply readLength_local.bind
  intro count
  apply Tape.Local.asks (fun m : Memory => m.bb.readLengthLimit)
    (fun limit => if limit ≠ 0 ∧ count > limit then raise (.code (-1)) else return count) fun t u (alike : Alike rooted t u) => alike.limit
  intro limit
  split
  · exact .throw _
  · exact .pure _

theorem createByTypeId_local (typeId : UInt16) : (tape rooted).Local (createByTypeId typeId) := by
  unfold createByTypeId
  split
  · exact (alloc_local _).map _
  · exact .throw _

variable {readIObject : Run IObject}

theorem assertKind_local (kinds : List Kind) (v : IObject) : (tape rooted).Local (assertKind kinds v) := by
  cases v with
  | nil => exact .pure _
  | typedNil kind =>
    change (tape rooted).Local (if kind ∈ kinds then _ else _)
    split
    · exact .pure _
    · exact .throw _
  | ptr addr =>
    apply (load_local addr).bind
    intro obj
    split
    · exact .pure _
    · exact .throw _

theorem asserted_local (kinds : List Kind) (reads : (tape rooted).Local readIObject) :
    (tape rooted).Local (do assertKind kinds (← readIObject)) :=
  reads.bind fun v => assertKind_local kinds v

theorem readNullableString_local (reads : (tape rooted).Local readIObject) :
    (tape rooted).Local (readNullableString readIObject) := by
  apply reads.bind
  intro v
  cases v with
  | nil => exact .pure _
  | typedNil kind => exact .throw _
  | ptr addr =>
    apply (load_local addr).bind
    intro obj
    cases obj with
    | string value => exact .pure _
    | _ => exact .throw _

theorem readFoo_local (reads : (tape rooted).Local readIObject) : (tape rooted).Local (readFoo readIObject) := by
  apply readInt32_local.bind
  intro id
  apply (readNullableString_local reads).bind
  intro name
  apply readNullableInt32_local.bind
  intro age
  exact (asserted_local fooKinds reads).map _

theorem fromBBuffer_local (reads : (tape rooted).Local readIObject) (kind : Kind) :
    (tape rooted).Local (fromBBuffer readIObject kind) := by
  cases kind with
  | string =>
    apply readLength_local.bind
    intro bufLen
    exact (nextBytes_local bufLen).map _
  | bbuffer =>
    apply readCount_local.bind
    intro bufLen
    exact (nextBytes_local bufLen).map _
  | foo => exact (readFoo_local reads).map _
  | listInt32 =>
    apply readCount_local.bind
    intro count
    exact (readInt32_local.collect _).map _
  | fooExt1 =>
    apply (readFoo_local reads).bind
    intro foo
    exact (asserted_local [.listInt32] reads).map _
  | listFooExt1 =>
    apply readCount_local.bind
    intro count
    exact ((asserted_local [.fooExt1] reads).collect _).map _

end

/-- A new object. -/
def readNew (make : Kind → Run Obj) (typeId : UInt16) (ptrOffset : Int) : Run IObject := do
  let (addr, kind) ← createByTypeId typeId
  modify fun m => { m with bb := { m.bb with idxStore := (ptrOffset, addr) :: m.bb.idxStore } }
  store addr (← make kind)
  return .ptr addr

/-- An object that was met before. -/
def readKnown (typeId : UInt16) : Option Addr → Run IObject
  | none => raise (.code (-5))
  | some addr => do
      if (← load addr).kind.packageId ≠ typeId then raise (.code (-6)) else return .ptr addr

/-- What follows on the type id, which ended at `offset` behind the root. -/
def readPointer (make : Kind → Run Obj) (typeId : UInt16) (offset : Int) : Run IObject := do
  let ptrOffset ← readLength
  if ptrOffset = offset then readNew make typeId ptrOffset
  else readKnown typeId ((← get).bb.idxStore.lookup ptrOffset)

def readTyped (make : Kind → Run Obj) (typeId : UInt16) : Run IObject := do
  if typeId = 0 then return .nil
  else do
    let bb := (← get).bb
    readPointer make typeId (bb.offset - bb.offsetRoot)

/-- The body of `ReadIObject`, for what makes an object of a kind. -/
def readIObjectWith (make : Kind → Run Obj) : Run IObject := do readTyped make (← readUInt16)

theorem readIObject_succ (fuel : Nat) :
    readIObject (fuel + 1) = readIObjectWith (fromBBuffer (readIObject fuel)) := rfl

section
variable {rooted : Prop} {make : Kind → Run Obj} (reads : ∀ kind, (tape rooted).Local (make kind))
include reads

theorem readNew_local (typeId : UInt16) (ptrOffset : Int) : (tape rooted).Local (readNew make typeId ptrOffset) := by
  apply (createByTypeId_local typeId).bind
  intro created
  apply (noteIdx_local ptrOffset created.1).bind
  intro _
  apply (reads created.2).bind
  intro obj
  exact (store_local created.1 obj).bind fun _ => .pure _

end

theorem readKnown_local {rooted : Prop} (typeId : UInt16) (found : Option Addr) :
    (tape rooted).Local (readKnown typeId found) := by
  cases found with
  | none => exact .throw _
  | some addr =>
    apply (load_local addr).bind
    intro obj
    split
    · exact .throw _
    · exact .pure _

section
variable {make : Kind → Run Obj} (reads : ∀ kind, (tape True).Local (make kind))
include reads

theorem readPointer_local (typeId : UInt16) (offset : Int) : (tape True).Local (readPointer make typeId offset) := by
  apply readLength_local.bind
  intro ptrOffset
  split
  · exact readNew_local reads typeId ptrOffset
  · apply Tape.Local.asks (fun m : Memory => m.bb.idxStore.lookup ptrOffset) (readKnown typeId)
      fun t u (alike : Alike True t u) => by rw [alike.store trivial]
    intro found
    exact readKnown_local typeId found

theorem readTyped_local (typeId : UInt16) : (tape True).Local (readTyped make typeId) := by
  unfold readTyped
  split
  · exact .pure _
  · apply Tape.Local.asks (fun m : Memory => (m.bb.offset : Int) - m.bb.offsetRoot) (readPointer make typeId)
      fun t u (alike : Alike True t u) => alike.place trivial
    intro offset
    exact readPointer_local reads typeId offset

theorem readIObjectWith_local : (tape True).Local (readIObjectWith make) :=
  readUInt16_local.bind fun typeId => readTyped_local reads typeId

end

theorem readIObject_local (fuel : Nat) : (tape True).Local (readIObject fuel) := by
  induction fuel with
  | zero => exact .throw _
  | succ fuel ih =>
    rw [readIObject_succ]
    exact readIObjectWith_local fun kind => fromBBuffer_local ih kind

end Xxlib.Go
