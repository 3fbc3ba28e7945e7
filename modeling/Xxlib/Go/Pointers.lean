import Xxlib.Go.Methods
import Xxlib.Lib.ObjectGraph

/-! `WriteIObject` and `ReadIObject` fit together.

An object that is met for the first time gets an entry in the log, and its content follows.
Any other pointer is the offset of an object that is in the log.
-/

set_option autoImplicit false

namespace Xxlib.Go

open Lib

/-! ## Pointers -/

/-- What is written in front of an object, or instead of it. -/
def headBytes (kind : Kind) (offset : Nat) : List UInt8 :=
  varUInt64Bytes 10 kind.packageId.toUInt64 ++ varUInt64Bytes 10 (UInt64.ofNat offset)

/-- The offset of an object that is written now: behind its package id, which is one byte. -/
def Memory.nextOffset (m : Memory) : Nat := m.bb.buf.data.length + 1 - m.bb.offsetRoot

/-- The memory when the content of an object comes to be written. -/
def Memory.opened (m : Memory) (addr : Addr) (kind : Kind) : Memory :=
  let head := m.appended (headBytes kind m.nextOffset)
  { head with bb := { head.bb with ptrStore := (addr, m.nextOffset) :: m.bb.ptrStore } }

theorem idBytes_length (kind : Kind) : (varUInt64Bytes 10 kind.packageId.toUInt64).length = 1 := by
  cases kind <;> rfl

theorem headBytes_length (kind : Kind) (offset : Nat) : 2 ≤ (headBytes kind offset).length := by
  have some := varUInt64Bytes_pos (UInt64.ofNat offset)
  rw [headBytes, List.length_append, idBytes_length]
  omega

section
variable {m : Memory} {fuel : Nat} {addr : Addr} {obj : Obj}

theorem load_found (found : m.heap[addr]? = some obj) : load addr m = .ok obj m := by
  unfold load
  rw [found]

theorem writeIObject_known {offset : Nat} (found : m.heap[addr]? = some obj)
    (known : m.bb.ptrStore.lookup addr = some offset) :
    writeIObject (fuel + 1) (.ptr addr) m = .ok () (m.appended (headBytes obj.kind offset)) := by
  apply bind_run (load_found found)
  apply bind_run rfl
  apply bind_run rfl
  rw [headBytes, ← appended_appended]
  simp only [known]
  rfl

theorem writeIObject_new (found : m.heap[addr]? = some obj) (unknown : m.bb.ptrStore.lookup addr = none) :
    writeIObject (fuel + 1) (.ptr addr) m =
      toBBuffer (writeIObject fuel) obj (m.opened addr obj.kind) := by
  have here : (m.bb.buf.append (varUInt64Bytes 10 obj.kind.packageId.toUInt64)).data.length -
      m.bb.offsetRoot = m.nextOffset := by
    simp [Slice.append, Memory.nextOffset, idBytes_length]
  apply bind_run (load_found found)
  apply bind_run rfl
  apply bind_run rfl
  simp only [unknown]
  apply bind_run rfl
  apply bind_run rfl
  congr 1
  simp only [here]
  simp [Memory.opened, Memory.appended, headBytes, Slice.append, List.drop_drop]

end

/-- What writing a pointer to an object can do. -/
theorem writeIObject_ptr {fuel : Nat} {addr : Addr} {s s' : Memory} {u : Unit}
    (ran : writeIObject (fuel + 1) (.ptr addr) s = .ok u s') : ∃ obj, s.heap[addr]? = some obj ∧
      ((∃ offset, s.bb.ptrStore.lookup addr = some offset ∧ s' = s.appended (headBytes obj.kind offset)) ∨
        (s.bb.ptrStore.lookup addr = none ∧
          toBBuffer (writeIObject fuel) obj (s.opened addr obj.kind) = .ok u s')) := by
  cases found : s.heap[addr]? with
  | none =>
    obtain ⟨obj, s₁, loaded, -⟩ := bind_ok ran
    unfold load at loaded
    rw [found] at loaded
    cases loaded
  | some obj =>
    refine ⟨obj, rfl, ?_⟩
    cases known : s.bb.ptrStore.lookup addr with
    | some offset =>
      rw [writeIObject_known found known] at ran
      cases ran
      exact .inl ⟨offset, rfl, rfl⟩
    | none =>
      rw [writeIObject_new found known] at ran
      exact .inr ⟨rfl, ran⟩

/-- The zero value of a type. -/
def Kind.zero : Kind → Obj
  | .string => .string []
  | .bbuffer => .bbuffer {}
  | .foo => .foo {}
  | .listInt32 => .listInt32 []
  | .fooExt1 => .fooExt1 {}
  | .listFooExt1 => .listFooExt1 []

theorem zero_kind (kind : Kind) : kind.zero.kind = kind := by cases kind <;> rfl

theorem creators_packageId (kind : Kind) : creators.lookup kind.packageId = some kind.zero := by
  cases kind <;> rfl

/-- The memory when the content of an object comes to be read. -/
def Memory.created (m : Memory) (kind : Kind) (offset : Nat) : Memory :=
  let head := m.advanced (headBytes kind offset).length
  { heap := m.heap ++ [kind.zero],
    bb := { head.bb with idxStore := ((offset : Int), m.heap.length) :: m.bb.idxStore } }

section
variable {m : Memory} {kind : Kind} {offset fuel : Nat} {tail : List UInt8}

theorem readUInt16_eq {v : UInt16} (input : m.unread = varUInt64Bytes 10 v.toUInt64 ++ tail) :
    readUInt16 m = .ok v (m.advanced (varUInt64Bytes 10 v.toUInt64).length) := by
  have read : readUInt16 m = .ok v.toUInt64.toUInt16 (m.advanced (varUInt64Bytes 10 v.toUInt64).length) :=
    bind_run (readVarUInt64_eq input) rfl
  rwa [UInt16.toUInt16_toUInt64] at read

theorem readIObject_nil (input : m.unread = 0 :: tail) : readIObject (fuel + 1) m = .ok .nil (m.advanced 1) := by
  have read : readUInt16 m = .ok 0 (m.advanced 1) := readUInt16_eq input
  exact bind_run read rfl

theorem packageId_ne_zero (kind : Kind) : kind.packageId ≠ 0 := by cases kind <;> decide

theorem head_reads (input : m.unread = headBytes kind offset ++ tail) (fits : offset < 2 ^ 63) :
    readUInt16 m = .ok kind.packageId (m.advanced 1) ∧
      readLength (m.advanced 1) = .ok (offset : Int) (m.advanced (headBytes kind offset).length) := by
  unfold headBytes at input ⊢
  rw [List.append_assoc] at input
  have id := readUInt16_eq input
  have length := readLength_eq fits (unread_advanced input)
  rw [advanced_advanced, idBytes_length] at length
  rw [idBytes_length] at id
  rw [List.length_append, idBytes_length]
  exact ⟨id, length⟩

theorem readIObject_back {addr : Addr} {obj : Obj} (input : m.unread = headBytes kind offset ++ tail)
    (fits : offset < 2 ^ 63) (back : (offset : Int) ≠ (m.advanced 1).bb.offset - (m.advanced 1).bb.offsetRoot)
    (known : m.bb.idxStore.lookup (offset : Int) = some addr) (found : m.heap[addr]? = some obj)
    (same : obj.kind = kind) :
    readIObject (fuel + 1) m = .ok (.ptr addr) (m.advanced (headBytes kind offset).length) := by
  obtain ⟨id, length⟩ := head_reads input fits
  have loaded : load addr (m.advanced (headBytes kind offset).length) =
      .ok obj (m.advanced (headBytes kind offset).length) := load_found found
  apply bind_run id
  rw [if_neg (packageId_ne_zero kind)]
  apply bind_run rfl
  apply bind_run length
  rw [if_neg back]
  apply bind_run rfl
  have known : (m.advanced (headBytes kind offset).length).bb.idxStore.lookup (offset : Int) = some addr := known
  rw [known]
  apply bind_run loaded
  rw [if_neg (by rw [same]; exact fun differ => differ rfl)]
  rfl

theorem readIObject_new {m' : Memory} {obj : Obj} (input : m.unread = headBytes kind offset ++ tail)
    (fits : offset < 2 ^ 63) (here : (offset : Int) = (m.advanced 1).bb.offset - (m.advanced 1).bb.offsetRoot)
    (read : fromBBuffer (readIObject fuel) kind (m.created kind offset) = .ok obj m') :
    readIObject (fuel + 1) m = .ok (.ptr m.heap.length) { m' with heap := m'.heap.set m.heap.length obj } := by
  obtain ⟨id, length⟩ := head_reads input fits
  have created : createByTypeId kind.packageId (m.advanced (headBytes kind offset).length) =
      .ok (m.heap.length, kind) { m.advanced (headBytes kind offset).length with heap := m.heap ++ [kind.zero] } := by
    unfold createByTypeId
    rw [creators_packageId]
    apply bind_run rfl
    rw [zero_kind]
    rfl
  apply bind_run id
  rw [if_neg (packageId_ne_zero kind)]
  apply bind_run rfl
  apply bind_run length
  rw [if_pos here]
  apply bind_run created
  apply bind_run rfl
  apply bind_run read
  exact bind_run rfl rfl

end

/-! ## The log while an object is copied -/

section
variable {α β γ : Type} {f : α → β} {g : α → γ} {l : List α}

theorem lookup_map [DecidableEq β] (distinct : l.Pairwise fun a b => f a ≠ f b) {a : α} (member : a ∈ l) :
    (l.map fun a => (f a, g a)).lookup (f a) = some (g a) := by
  induction l with
  | nil => cases member
  | cons c l ih =>
    rw [List.pairwise_cons] at distinct
    rw [List.map_cons, List.lookup_cons]
    rcases List.mem_cons.mp member with rfl | later
    · simp
    · have other : (f a == f c) = false := by simpa using (distinct.1 a later).symm
      rw [other]
      exact ih distinct.2 later

end

section
variable {s t s' t' : Memory} {log log' : List Entry} {addr : Addr} {obj copy : Obj} {tail : List UInt8}

theorem Agree.known (agree : Agree ⟨s, t, log⟩) {offset : Nat} (known : s.bb.ptrStore.lookup addr = some offset) :
    ∃ e ∈ log, e.source = addr ∧ e.offset = offset ∧ t.bb.idxStore.lookup (offset : Int) = some e.copy := by
  rw [agree.ptrStore] at known
  obtain ⟨front, back, split, -⟩ := List.lookup_eq_some_iff.mp known
  have member : (addr, offset) ∈ log.map fun e => (e.source, e.offset) := by
    rw [split]
    simp
  obtain ⟨e, inLog, same⟩ := List.mem_map.mp member
  cases same
  refine ⟨e, inLog, rfl, rfl, ?_⟩
  rw [agree.idxStore]
  apply lookup_map _ inLog
  exact agree.offsets.imp fun differ same => differ (Int.ofNat.inj same)

theorem Agree.unknown (agree : Agree ⟨s, t, log⟩) (unknown : s.bb.ptrStore.lookup addr = none) :
    ∀ e ∈ log, addr ≠ e.source := by
  intro e member same
  rw [agree.ptrStore, List.lookup_eq_none_iff] at unknown
  have differ := unknown (e.source, e.offset) (List.mem_map_of_mem member)
  simp [same] at differ

theorem Agree.opened (agree : Agree ⟨s, t, log⟩) (found : s.heap[addr]? = some obj)
    (unknown : ∀ e ∈ log, addr ≠ e.source) (input : t.unread = headBytes obj.kind s.nextOffset ++ tail) :
    Agree ⟨s.opened addr obj.kind, t.created obj.kind s.nextOffset, ⟨addr, s.nextOffset, t.heap.length⟩ :: log⟩ := by
  have ahead := agree.advance input
  have root : s.bb.offsetRoot ≤ s.bb.buf.data.length := agree.root
  have longer : t.heap <+: t.heap ++ [obj.kind.zero] := List.prefix_append _ _
  constructor
  case ptrStore => exact congrArg (List.cons _) agree.ptrStore
  case idxStore => exact congrArg (List.cons _) agree.idxStore
  case sources => exact List.pairwise_cons.mpr ⟨unknown, agree.sources⟩
  case copies =>
    refine List.pairwise_cons.mpr ⟨fun e member same => ?_, agree.copies⟩
    obtain ⟨x, y, -, copy, -⟩ := agree.kinds e member
    have inside : e.copy < t.heap.length := (List.getElem?_eq_some_iff.mp copy).1
    exact Nat.ne_of_gt inside same
  -- earlier offsets lie before the end of the buffer, the new one behind its type id
  case offsets =>
    refine List.pairwise_cons.mpr ⟨fun e member same => ?_, agree.offsets⟩
    have passed : s.bb.offsetRoot + e.offset < s.bb.buf.data.length := agree.passed e member
    have same : s.bb.buf.data.length + 1 - s.bb.offsetRoot = e.offset := same
    omega
  case passed =>
    intro e member
    rcases List.mem_cons.mp member with rfl | old
    · have head := headBytes_length obj.kind s.nextOffset
      change s.bb.offsetRoot + (s.bb.buf.data.length + 1 - s.bb.offsetRoot) <
        (s.bb.buf.data ++ headBytes obj.kind s.nextOffset).length
      rw [List.length_append]
      omega
    · exact ahead.passed e old
  case kinds =>
    intro e member
    rcases List.mem_cons.mp member with rfl | old
    · exact ⟨obj, obj.kind.zero, found, List.getElem?_concat_length, (zero_kind obj.kind).symm⟩
    · obtain ⟨x, y, source, copy, kind⟩ := agree.kinds e old
      exact ⟨x, y, source, getElem?_of_grown longer copy, kind⟩
  case typed => exact agree.typed
  case strings => exact agree.strings
  case root => exact ahead.root
  case place => exact ahead.place
  case inside => exact ahead.inside
  case unlimited => exact agree.unlimited

theorem kept_kind (obj : Obj) : obj.kept.kind = obj.kind := by cases obj <;> rfl

theorem Same.kind {pairs : Addr → Addr → Prop} {x y : Obj} (same : Same pairs x y) : x.kind = y.kind := by
  cases same <;> rfl

theorem Agree.closed (agree : Agree ⟨s, t, log⟩) {e : Entry} (member : e ∈ log)
    (found : s.heap[e.source]? = some obj) (kind : obj.kind = copy.kind) :
    Agree ⟨s, { t with heap := t.heap.set e.copy copy }, log⟩ := by
  constructor
  case kinds =>
    intro other inLog
    obtain ⟨x, y, source, copied, same⟩ := agree.kinds other inLog
    by_cases here : e.copy = other.copy
    · obtain rfl := Lib.eq_of_pairwise_ne agree.copies member inLog here
      have inside := (List.getElem?_eq_some_iff.mp copied).1
      exact ⟨obj, copy, found, List.getElem?_set_self inside, kind⟩
    · exact ⟨x, y, source, by rw [← copied]; exact List.getElem?_set_ne here, same⟩
  case ptrStore => exact agree.ptrStore
  case idxStore => exact agree.idxStore
  case sources => exact agree.sources
  case copies => exact agree.copies
  case offsets => exact agree.offsets
  case passed => exact agree.passed
  case typed => exact agree.typed
  case strings => exact agree.strings
  case root => exact agree.root
  case place => exact agree.place
  case inside => exact agree.inside
  case unlimited => exact agree.unlimited

/-- From the pointer on, the object and what it refers to have been copied. -/
theorem Grows.closed {kind : Kind} {offset : Nat}
    (grows : Grows ⟨s.opened addr kind, t.created kind offset, ⟨addr, offset, t.heap.length⟩ :: log⟩ ⟨s', t', log'⟩)
    (agree : Agree ⟨s', t', log'⟩) (found : s.heap[addr]? = some obj) (same : Same (Linked log') obj.kept copy) :
    Grows ⟨s, t, log⟩ ⟨s', { t' with heap := t'.heap.set t.heap.length copy }, log'⟩ := by
  obtain ⟨new, split, done⟩ := grows.log
  have split : log' = new ++ ⟨addr, offset, t.heap.length⟩ :: log := split
  have longer : t.heap <+: t.heap ++ [kind.zero] := List.prefix_append _ _
  have room : t.heap.length < t'.heap.length :=
    (List.getElem?_eq_some_iff.mp (grows.copies t.heap.length kind.zero List.getElem?_concat_length)).1
  refine ⟨grows.sources, fun a o old => ?_, grows.input, new ++ [⟨addr, offset, t.heap.length⟩],
    by rw [split]; simp, ?_⟩
  · have inside : a < t.heap.length := (List.getElem?_eq_some_iff.mp old).1
    have kept := grows.copies a o (getElem?_of_grown longer old)
    rw [← kept]
    exact List.getElem?_set_ne (Nat.ne_of_gt inside)
  · intro e member
    rcases List.mem_append.mp member with nested | last
    · obtain ⟨x, y, source, copied, alike⟩ := done e nested
      have apart : t.heap.length ≠ e.copy := by
        have distinct : log'.Pairwise fun e f => e.copy ≠ f.copy := agree.copies
        rw [split, List.pairwise_append] at distinct
        exact (distinct.2.2 e nested _ List.mem_cons_self).symm
      exact ⟨x, y, source, by rw [← copied]; exact List.getElem?_set_ne apart, alike⟩
    · rw [List.mem_singleton.mp last]
      exact ⟨obj, copy, getElem?_of_grown grows.sources found, List.getElem?_set_self room, same⟩

end

section
variable {s t : Memory} {log : List Entry} {addr : Addr} {obj : Obj} {tail : List UInt8}

theorem Strings.opened (strings : Strings ⟨s, t, log⟩)
    (found : s.heap[addr]? = some obj) (other : obj.kind ≠ .string) : Strings ⟨s.opened addr obj.kind,
      t.created obj.kind s.nextOffset, ⟨addr, s.nextOffset, t.heap.length⟩ :: log⟩ := by
  intro e member
  rcases List.mem_cons.mp member with rfl | old
  · exact .inr ⟨obj, found, other⟩
  · rcases strings e old with ⟨x, y, source, copy, same⟩ | complete
    · refine .inl ⟨x, y, source, getElem?_of_grown (List.prefix_append _ _) copy, same.mono ?_⟩
      rintro a b ⟨f, inLog, linked⟩
      exact ⟨f, List.mem_cons_of_mem _ inLog, linked⟩
    · exact .inr complete

/-- A pointer to an object that was written before is read as a pointer to its copy. -/
theorem Agree.read_known {offset : Nat} (agree : Agree ⟨s, t, log⟩) (fuel : Nat) (found : s.heap[addr]? = some obj)
    (known : s.bb.ptrStore.lookup addr = some offset)
    (short : (s.bb.buf.data ++ headBytes obj.kind offset).length < 2 ^ 63)
    (input : t.unread = headBytes obj.kind offset ++ tail) : ∃ e ∈ log, e.source = addr ∧
      readIObject (fuel + 1) t = .ok (.ptr e.copy) (t.advanced (headBytes obj.kind offset).length) := by
  obtain ⟨e, member, rfl, rfl, index⟩ := agree.known known
  obtain ⟨x, y, source, copy, kind⟩ := agree.kinds e member
  obtain rfl : x = obj := Option.some.inj (source.symm.trans found)
  have passed : s.bb.offsetRoot + e.offset < s.bb.buf.data.length := agree.passed e member
  have place : t.bb.offset = t.bb.offsetRoot + (s.bb.buf.data.length - s.bb.offsetRoot) := agree.place
  rw [List.length_append] at short
  refine ⟨e, member, rfl, readIObject_back input (by omega) ?_ index copy kind.symm⟩
  simp only [Memory.advanced]
  omega

end

/-! ## The recursion -/

theorem absent_codec : link.Codec (fun _ => True) (append [0]) readIObject fun _ _ r => r = .nil := by
  apply plain [0] (fun _ => rfl)
  intro _ m fuel tail _ _ input enough
  obtain ⟨fuel, rfl⟩ : ∃ before, fuel = before + 1 := ⟨fuel - 1, by simp at enough; omega⟩
  exact readIObject_nil input

section
variable {fuel : Nat} (pointers : Pointers (writeIObject fuel) readIObject)
include pointers

theorem Pointers.next_positive (v : IObject) (s : Memory) (u : Unit) (s' : Memory)
    (ran : writeIObject (fuel + 1) v s = .ok u s') : s.bb.buf.data.length < s'.bb.buf.data.length := by
  cases v with
  | nil => exact append_positive (by decide : 0 < [(0 : UInt8)].length) ran
  | typedNil kind => exact append_positive (by decide : 0 < [(0 : UInt8)].length) ran
  | ptr addr =>
    obtain ⟨obj, -, ⟨offset, -, rfl⟩ | ⟨-, body⟩⟩ := writeIObject_ptr ran
    · have head := headBytes_length obj.kind offset
      change s.bb.buf.data.length < (s.bb.buf.data ++ headBytes obj.kind offset).length
      rw [List.length_append]
      omega
    · have head := headBytes_length obj.kind s.nextOffset
      obtain ⟨bytes, written⟩ := (pointers.body obj).appends _ _ _ body
      have written : s'.bb.buf.data = s.bb.buf.data ++ headBytes obj.kind s.nextOffset ++ bytes := written
      rw [written, List.length_append, List.length_append]
      omega

theorem Pointers.next_codec (v : IObject) : link.Codec Strings (writeIObject (fuel + 1) v) readIObject
    fun w _ r => SamePtr (Linked w.log) v r := by
  cases v with
  | nil => exact absent_codec.imp (fun _ _ => trivial) fun _ _ _ nil => by rw [nil]; exact .nil
  | typedNil kind => exact absent_codec.imp (fun _ _ => trivial) fun _ _ _ nil => by rw [nil]; exact .typedNil kind
  | ptr addr =>
    intro s u s' ran
    obtain ⟨obj, found, ⟨offset, known, rfl⟩ | ⟨unknown, body⟩⟩ := writeIObject_ptr ran
    · -- written before: the offset alone
      refine ⟨headBytes obj.kind offset, rfl, fun short t log k tail agree _ input enough => ?_⟩
      obtain ⟨k, rfl⟩ : ∃ before, k = before + 1 := ⟨k - 1, by have := headBytes_length obj.kind offset; omega⟩
      have short : (s.bb.buf.data ++ headBytes obj.kind offset).length < 2 ^ 63 := short
      obtain ⟨e, member, rfl, read⟩ := agree.read_known k found known short input
      exact ⟨.ptr e.copy, _, log, read, unread_advanced input, agree.advance input, Grows.advance _,
        .ptr ⟨e, member, rfl, rfl⟩⟩
    · -- new: the object is entered on both sides before its content
      obtain ⟨bytes, written, reads⟩ := pointers.body obj _ _ _ body
      have written : s'.bb.buf.data = s.bb.buf.data ++ headBytes obj.kind s.nextOffset ++ bytes := written
      refine ⟨headBytes obj.kind s.nextOffset ++ bytes, by rw [← List.append_assoc]; exact written, ?_⟩
      intro short t log k tail agree strings input enough
      rw [List.append_assoc] at input
      have head := headBytes_length obj.kind s.nextOffset
      rw [List.length_append] at enough
      obtain ⟨k, rfl⟩ : ∃ before, k = before + 1 := ⟨k - 1, by omega⟩
      have opened := agree.opened found (agree.unknown unknown) input
      have ready : (obj.kind ≠ .string → Strings ⟨s.opened addr obj.kind, t.created obj.kind s.nextOffset,
          ⟨addr, s.nextOffset, t.heap.length⟩ :: log⟩) ∧ obj.Typed s.heap := by
        refine ⟨fun other => strings.opened found other, ?_⟩
        exact agree.typed obj (List.mem_of_getElem? found)
      obtain ⟨copy, t', log', read, rest, agree', grows, same⟩ :=
        reads short _ _ k tail opened ready (unread_advanced input) (by omega)
      have fits : s.nextOffset < 2 ^ 63 := by
        have short : s'.bb.buf.data.length < 2 ^ 63 := short
        rw [written, List.length_append, List.length_append] at short
        unfold Memory.nextOffset
        omega
      have here : (s.nextOffset : Int) = (t.advanced 1).bb.offset - (t.advanced 1).bb.offsetRoot := by
        have root : s.bb.offsetRoot ≤ s.bb.buf.data.length := agree.root
        have place : t.bb.offset = t.bb.offsetRoot + (s.bb.buf.data.length - s.bb.offsetRoot) := agree.place
        simp only [Memory.nextOffset, Memory.advanced]
        omega
      have entered : (⟨addr, s.nextOffset, t.heap.length⟩ : Entry) ∈ log' := by
        obtain ⟨new, split, -⟩ := grows.log
        have split : log' = new ++ ⟨addr, s.nextOffset, t.heap.length⟩ :: log := split
        rw [split]
        exact List.mem_append_right new List.mem_cons_self
      have kind : obj.kind = copy.kind := by rw [← same.kind, kept_kind]
      exact ⟨.ptr t.heap.length, _, log', readIObject_new input fits here read, rest,
        agree'.closed entered (getElem?_of_grown grows.sources found) kind, grows.closed agree' found same,
        .ptr ⟨_, entered, rfl, rfl⟩⟩

end

theorem pointers (fuel : Nat) : Pointers (writeIObject fuel) readIObject := by
  induction fuel with
  | zero =>
    constructor
    case codec => exact fun v s u s' ran => nomatch ran
    case positive => exact fun v s u s' ran => nomatch ran
    case absent => exact absent_codec
  | succ fuel ih => exact ⟨ih.next_codec, ih.next_positive, absent_codec⟩

end Xxlib.Go
