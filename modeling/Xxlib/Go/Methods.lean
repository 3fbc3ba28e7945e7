import Xxlib.Go.Graph

/-! What the methods of the objects write, their counterparts read back.

The methods are considered without the recursion: `Pointers` is what they need to know
about `WriteIObject` and `ReadIObject`.
-/

set_option autoImplicit false

namespace Xxlib.Go

open Lib

/-! ## Values -/

section
variable {s t : Memory} {log : List Entry} {bytes tail : List UInt8}

theorem appended_appended (m : Memory) (first second : List UInt8) :
    (m.appended first).appended second = m.appended (first ++ second) := by
  simp [Memory.appended, Slice.append, List.drop_drop]

theorem advanced_advanced (m : Memory) (first second : Nat) :
    (m.advanced first).advanced second = m.advanced (first + second) := by
  simp [Memory.advanced, Nat.add_assoc]

/-- Values are written and read past the objects. -/
theorem Agree.advance (agree : Agree ⟨s, t, log⟩) (input : t.unread = bytes ++ tail) :
    Agree ⟨s.appended bytes, t.advanced bytes.length, log⟩ := by
  have count := congrArg List.length input
  have inside : t.bb.offset ≤ t.bb.buf.data.length := agree.inside
  simp only [Memory.unread, List.length_drop, List.length_append] at count
  constructor
  case passed =>
    intro e member
    have passed := agree.passed e member
    simp only [Memory.appended, Slice.append, List.length_append] at passed ⊢
    omega
  case root =>
    have root := agree.root
    simp only [Memory.appended, Slice.append, List.length_append] at root ⊢
    omega
  case place =>
    have root := agree.root
    have place := agree.place
    simp only [Memory.appended, Memory.advanced, Slice.append, List.length_append] at root place ⊢
    omega
  case inside =>
    simp only [Memory.advanced]
    omega
  case ptrStore => exact agree.ptrStore
  case idxStore => exact agree.idxStore
  case sources => exact agree.sources
  case copies => exact agree.copies
  case offsets => exact agree.offsets
  case kinds => exact agree.kinds
  case typed => exact agree.typed
  case strings => exact agree.strings
  case unlimited => exact agree.unlimited

theorem Grows.advance (count : Nat) : Grows ⟨s, t, log⟩ ⟨s.appended bytes, t.advanced count, log⟩ :=
  ⟨List.prefix_rfl, fun _ _ found => found, rfl, [], rfl, fun _ member => absurd member List.not_mem_nil⟩

end

section
variable {α : Type}

/-- Bytes that are read back without looking at the objects. -/
theorem plain {write : Run Unit} {read : Nat → Run α} {y : α} (bytes : List UInt8)
    (writes : ∀ m, write m = .ok () (m.appended bytes))
    (reads : bytes.length < 2 ^ 63 → ∀ m fuel tail, m.bb.readLengthLimit = 0 →
      m.bb.offset ≤ m.bb.buf.data.length → m.unread = bytes ++ tail → bytes.length ≤ fuel →
      read fuel m = .ok y (m.advanced bytes.length)) :
    link.Codec (fun _ => True) write read fun _ _ z => z = y := by
  intro s x s' ran
  rw [writes] at ran
  cases ran
  refine ⟨bytes, rfl, fun short t log fuel tail agree _ input enough => ?_⟩
  have few : bytes.length < 2 ^ 63 := by
    change (s.bb.buf.data ++ bytes).length < 2 ^ 63 at short
    rw [List.length_append] at short
    omega
  exact ⟨y, t.advanced bytes.length, log, reads few t fuel tail agree.unlimited agree.inside input enough,
    unread_advanced input, agree.advance input, Grows.advance _, rfl⟩

end

theorem readLength_eq {m : Memory} {n : Nat} {tail : List UInt8} (fits : n < 2 ^ 63)
    (input : m.unread = varUInt64Bytes 10 (UInt64.ofNat n) ++ tail) :
    readLength m = .ok (n : Int) (m.advanced (varUInt64Bytes 10 (UInt64.ofNat n)).length) := by
  have unsigned : (UInt64.ofNat n).toBitVec.toNat = n := by
    rw [UInt64.toNat_toBitVec, UInt64.toNat_ofNat']
    omega
  have value : (UInt64.ofNat n).toInt64.toInt = n := by
    change (UInt64.ofNat n).toBitVec.toInt = n
    rw [BitVec.toInt_eq_toNat_of_lt (by omega), unsigned]
  rw [← value]
  exact bind_run (readVarUInt64_eq input) rfl

theorem readInt32_eq {m : Memory} {v : Int32} {tail : List UInt8}
    (input : m.unread = varUInt64Bytes 10 (zigzag v.toInt64) ++ tail) :
    readInt32 m = .ok v (m.advanced (varUInt64Bytes 10 (zigzag v.toInt64)).length) := by
  have signed : readVarInt64 m = .ok (unzigzag (zigzag v.toInt64))
      (m.advanced (varUInt64Bytes 10 (zigzag v.toInt64)).length) := bind_run (readVarUInt64_eq input) rfl
  rw [unzigzag_zigzag] at signed
  have read : readInt32 m = .ok v.toInt64.toInt32 (m.advanced (varUInt64Bytes 10 (zigzag v.toInt64)).length) :=
    bind_run signed rfl
  rwa [Int32.toInt32_toInt64] at read

theorem int32_codec (v : Int32) :
    link.Codec (fun _ => True) (writeInt32 v) (fun _ => readInt32) fun _ _ y => y = v :=
  plain (varUInt64Bytes 10 (zigzag v.toInt64)) (fun _ => rfl) fun _ _ _ _ _ _ input _ => readInt32_eq input

theorem nullableInt32_codec (v : NullableInt32) :
    link.Codec (fun _ => True) (writeNullableInt32 v) (fun _ => readNullableInt32) fun _ _ y => y = v.kept := by
  obtain ⟨value, hasValue⟩ := v
  cases hasValue with
  | false =>
    apply plain [0] (fun _ => rfl)
    intro _ m _ tail _ _ input _
    have flag : nextByte m = .ok 0 (m.advanced 1) := nextByte_eq input
    exact bind_run (bind_run flag rfl) rfl
  | true =>
    apply plain ([1] ++ varUInt64Bytes 10 (zigzag value.toInt64))
    · intro m
      exact congrArg (EStateM.Result.ok ()) (appended_appended m [1] _)
    · intro _ m _ tail _ _ input _
      rw [List.append_assoc] at input
      have flag : nextByte m = .ok 1 (m.advanced 1) := nextByte_eq input
      have read := readInt32_eq (unread_advanced input)
      rw [advanced_advanced, ← List.length_append] at read
      exact bind_run (bind_run flag rfl) (bind_run read rfl)

/-- A string, or the content of a buffer: its length and its bytes. -/
theorem bytes_codec {β : Type} (value : List UInt8) {read : Run Int} {make : List UInt8 → β}
    (reads : ∀ m n m', m.bb.readLengthLimit = 0 → readLength m = .ok n m' → m'.bb.readLengthLimit = 0 →
      read m = .ok n m') :
    link.Codec (fun _ => True) (do writeLength value.length; append value)
      (fun _ => do return make (← nextBytes (← read))) fun _ _ y => y = make value := by
  apply plain (varUInt64Bytes 10 (UInt64.ofNat value.length) ++ value)
  · intro m
    exact congrArg (EStateM.Result.ok ()) (appended_appended m _ value)
  · intro few m _ tail unlimited inside input _
    rw [List.length_append] at few
    rw [List.append_assoc] at input
    have length := reads m _ _ unlimited (readLength_eq (by omega) input) unlimited
    have rest := unread_advanced input
    have room : (m.advanced (varUInt64Bytes 10 (UInt64.ofNat value.length)).length).bb.offset ≤
        m.bb.buf.data.length := by
      have count := congrArg List.length input
      simp only [Memory.unread, List.length_drop, List.length_append] at count
      simp only [Memory.advanced]
      omega
    have content := nextBytes_eq room rest
    rw [advanced_advanced, ← List.length_append] at content
    exact bind_run length (bind_run content rfl)

theorem readCount_eq {m m' : Memory} {n : Int} (read : readLength m = .ok n m')
    (unlimited : m'.bb.readLengthLimit = 0) : readCount m = .ok n m' := by
  apply bind_run read
  apply bind_run rfl
  rw [if_neg fun limited => limited.1 unlimited]
  rfl

theorem list_codec {α β γ : Type} [Nonempty β] (items : List α) {write : α → Run Unit} {read : Nat → Run β}
    {Before : Worlds → Prop} {R : Worlds → α → β → Prop} (make : List β → γ) (stable : link.Stable Before)
    (stableR : ∀ x y, link.Stable fun w => R w x y)
    (each : ∀ x ∈ items, link.Codec Before (write x) read fun w _ y => R w x y)
    (positive : ∀ x s u s', write x s = .ok u s' → s.bb.buf.data.length < s'.bb.buf.data.length) :
    link.Codec Before (do writeLength items.length; items.forM write)
      (fun fuel => do return make (← collect (read fuel) (← readCount).toNat))
      fun w _ z => ∃ ys, z = make ys ∧ List.Forall₂ (R w) items ys := by
  have body := Link.Codec.forM items stable stableR each
  have count (fits : items.length < 2 ^ 63) : link.Codec (fun _ => True) (writeLength items.length)
      (fun _ => readCount) fun _ _ n => n = (items.length : Int) := by
    apply plain (varUInt64Bytes 10 (UInt64.ofNat items.length)) (fun _ => rfl)
    intro _ m _ tail unlimited _ input _
    exact readCount_eq (readLength_eq fits input) unlimited
  apply Link.Codec.possible (C := items.length < 2 ^ 63)
  · intro s u s' ran
    obtain ⟨u₁, s₁, first, rest⟩ := bind_ok ran
    cases first
    obtain ⟨bytes, written⟩ := body.appends _ _ _ rest
    exact ⟨_, by rw [written]; exact List.append_assoc _ _ _⟩
  · intro s u s' ran short _ _ _
    obtain ⟨u₁, s₁, first, rest⟩ := bind_ok ran
    have room := forM_size positive items rest
    have fits : s'.bb.buf.data.length < 2 ^ 63 := short
    omega
  · intro fits
    apply Link.Codec.bind ((count fits).carry stable fun _ _ => trivial)
    intro _ n
    -- The number of elements is the one that was written.
    apply Link.Codec.possible (C := n = (items.length : Int)) body.appends
    · exact fun _ _ _ _ _ _ _ before => before.1
    · rintro rfl
      have made : link.Codec Before (items.forM write)
          (fun fuel => collect (read fuel) items.length >>= fun ys => pure (make ys))
          fun w _ z => ∃ ys, z = make ys ∧ List.Forall₂ (R w) items ys :=
        body.inspect fun _ _ ys _ after => ⟨_, rfl, ys, rfl, after⟩
      exact made.imp (fun _ before => before.2) fun _ _ _ after => after

theorem append_positive {bytes : List UInt8} (some : 0 < bytes.length) {s s' : Memory} {u : Unit}
    (ran : append bytes s = .ok u s') : s.bb.buf.data.length < s'.bb.buf.data.length := by
  cases ran
  simp only [Slice.append, List.length_append]
  omega

/-! ## Objects -/

/-- The copies of strings are complete. -/
def Strings (w : Worlds) : Prop :=
  ∀ e ∈ w.log, Done w e ∨ ∃ x, w.writer.heap[e.source]? = some x ∧ x.kind ≠ .string

theorem strings_stable : link.Stable Strings := by
  intro v w grows strings e member
  obtain ⟨new, log, done⟩ := grows.log
  rw [log] at member
  rcases List.mem_append.mp member with late | early
  · exact .inl (done e late)
  · rcases strings e early with complete | ⟨x, found, other⟩
    · exact .inl (complete.mono grows)
    · exact .inr ⟨x, getElem?_of_grown grows.sources found, other⟩

theorem samePtr_stable (x y : IObject) : link.Stable fun w => SamePtr (Linked w.log) x y :=
  fun _ _ grows same => same.mono grows.linked

theorem IObject.Has.mono {heap heap' : List Obj} (longer : heap <+: heap') {kinds : List Kind} {v : IObject}
    (has : v.Has heap kinds) : v.Has heap' kinds := by
  cases v with
  | nil => trivial
  | typedNil kind => exact has
  | ptr addr =>
    obtain ⟨obj, found, kind⟩ := has
    exact ⟨obj, getElem?_of_grown longer found, kind⟩

theorem has_stable (v : IObject) (kinds : List Kind) : link.Stable fun w => v.Has w.writer.heap kinds :=
  fun _ _ grows has => has.mono grows.sources

/-- How `WriteIObject` and `ReadIObject` fit together, for the methods of the objects. -/
structure Pointers (write : IObject → Run Unit) (read : Nat → Run IObject) : Prop where
  codec : ∀ v, link.Codec Strings (write v) read fun w _ r => SamePtr (Linked w.log) v r
  positive : ∀ v s u s', write v s = .ok u s' → s.bb.buf.data.length < s'.bb.buf.data.length
  absent : link.Codec (fun _ => True) (append [0]) read fun _ _ r => r = .nil

section
variable {write : IObject → Run Unit} {read : Nat → Run IObject} (pointers : Pointers write read)
include pointers

theorem Pointers.asserted (v : IObject) (kinds : List Kind) :
    link.Codec (fun w => Strings w ∧ v.Has w.writer.heap kinds) (write v)
      (fun fuel => do assertKind kinds (← read fuel)) fun w _ r => SamePtr (Linked w.log) v r := by
  have carried := (pointers.codec v).carry (strings_stable.and (has_stable v kinds)) fun _ holds => holds.1
  apply carried.inspect
  intro w _ r agree after
  obtain ⟨same, -, has⟩ := after
  cases same with
  | nil => exact ⟨.nil, rfl, .nil⟩
  | typedNil kind => exact ⟨.nil, rfl, .typedNil kind⟩
  | @ptr a b related =>
    refine ⟨.ptr b, ?_, .ptr related⟩
    obtain ⟨e, member, rfl, rfl⟩ := related
    obtain ⟨x, y, source, copy, kind⟩ := agree.kinds e member
    obtain ⟨obj, found, among⟩ := has
    obtain rfl : x = obj := Option.some.inj (source.symm.trans found)
    have loaded : load e.copy w.reader = .ok y w.reader := by
      unfold load
      rw [copy]
    apply bind_run loaded
    rw [if_pos (kind ▸ among)]
    rfl

theorem Pointers.string (value : List UInt8) (v : IObject) :
    link.Codec (fun w => Strings w ∧ ∃ addr, v = .ptr addr ∧ w.writer.heap[addr]? = some (.string value)) (write v)
      (fun fuel => readNullableString (read fuel)) fun _ _ y => y = { value := value, hasValue := true } := by
  have stable : link.Stable fun w => ∃ addr, v = .ptr addr ∧ w.writer.heap[addr]? = some (.string value) :=
    fun _ _ grows ⟨addr, same, found⟩ => ⟨addr, same, getElem?_of_grown grows.sources found⟩
  have carried := (pointers.codec v).carry (strings_stable.and stable) fun _ holds => holds.1
  apply carried.inspect
  intro w _ r _ after
  obtain ⟨same, strings, addr, rfl, found⟩ := after
  cases same with
  | ptr related =>
    obtain ⟨e, member, rfl, rfl⟩ := related
    rcases strings e member with ⟨x, y, source, copy, same⟩ | ⟨x, source, other⟩
    · obtain rfl : x = .string value := Option.some.inj (source.symm.trans found)
      cases same with
      | string =>
        have loaded : load e.copy w.reader = .ok (.string value) w.reader := by
          unfold load
          rw [copy]
        exact ⟨_, bind_run loaded rfl, rfl⟩
    · obtain rfl : x = .string value := Option.some.inj (source.symm.trans found)
      exact absurd rfl other

end

/-- The memory after a string was given a pointer. -/
def Memory.interned (m : Memory) (value : List UInt8) : Memory :=
  { heap := m.heap ++ [.string value],
    bb := { m.bb with strStore := (value, m.heap.length) :: m.bb.strStore } }

theorem intern_cases {s s' : Memory} {value : List UInt8} {v : IObject} (ran : intern value s = .ok v s') :
    (∃ addr, (value, addr) ∈ s.bb.strStore ∧ v = .ptr addr ∧ s' = s) ∨
      (v = .ptr s.heap.length ∧ s' = s.interned value) := by
  unfold intern at ran
  obtain ⟨m, s₁, read, rest⟩ := bind_ok ran
  cases read
  cases known : s.bb.strStore.lookup value with
  | some addr =>
    rw [known] at rest
    cases rest
    obtain ⟨front, back, split, -⟩ := List.lookup_eq_some_iff.mp known
    exact .inl ⟨addr, by rw [split]; simp, rfl, rfl⟩
  | none =>
    rw [known] at rest
    cases rest
    exact .inr ⟨rfl, rfl⟩

theorem Obj.Typed.mono {heap heap' : List Obj} (longer : heap <+: heap') {obj : Obj} (typed : obj.Typed heap) :
    obj.Typed heap' := by
  cases obj with
  | string value => trivial
  | bbuffer bb => trivial
  | foo v => exact IObject.Has.mono longer typed
  | listInt32 items => trivial
  | fooExt1 v => exact ⟨IObject.Has.mono longer typed.1, IObject.Has.mono longer typed.2⟩
  | listFooExt1 items => exact fun v member => (typed v member).mono longer

theorem Agree.interned {s t : Memory} {log : List Entry} (agree : Agree ⟨s, t, log⟩) (value : List UInt8) :
    Agree ⟨s.interned value, t, log⟩ := by
  have longer : s.heap <+: s.heap ++ [.string value] := List.prefix_append _ _
  constructor
  case kinds =>
    intro e member
    obtain ⟨x, y, source, copy, kind⟩ := agree.kinds e member
    exact ⟨x, y, getElem?_of_grown longer source, copy, kind⟩
  case typed =>
    intro obj member
    rcases List.mem_append.mp member with old | new
    · exact (agree.typed obj old).mono longer
    · rw [List.mem_singleton.mp new]
      trivial
  case strings =>
    intro entry member
    rcases List.mem_cons.mp member with rfl | old
    · exact List.getElem?_concat_length
    · exact getElem?_of_grown longer (agree.strings entry old)
  case ptrStore => exact agree.ptrStore
  case idxStore => exact agree.idxStore
  case sources => exact agree.sources
  case copies => exact agree.copies
  case offsets => exact agree.offsets
  case passed => exact agree.passed
  case root => exact agree.root
  case place => exact agree.place
  case inside => exact agree.inside
  case unlimited => exact agree.unlimited

theorem Grows.interned {s t : Memory} {log : List Entry} (value : List UInt8) :
    Grows ⟨s, t, log⟩ ⟨s.interned value, t, log⟩ :=
  ⟨List.prefix_append _ _, fun _ _ found => found, rfl, [], rfl, fun _ member => absurd member List.not_mem_nil⟩

section
variable {write : IObject → Run Unit} {read : Nat → Run IObject} (pointers : Pointers write read)
include pointers

theorem Pointers.nullableString (v : NullableString) :
    link.Codec Strings (writeNullableString write v) (fun fuel => readNullableString (read fuel))
      fun _ _ y => y = v.kept := by
  obtain ⟨value, hasValue⟩ := v
  cases hasValue with
  | false =>
    have absent : link.Codec (fun _ => True) (append [0]) (fun fuel => readNullableString (read fuel))
        fun _ _ y => y = {} :=
      pointers.absent.inspect fun _ _ _ _ nil => by rw [nil]; exact ⟨_, rfl, rfl⟩
    exact absent.imp (fun _ _ => trivial) fun _ _ _ after => after
  | true =>
    apply Link.Codec.silent _ (pointers.string value)
    intro s v s' ran
    rcases intern_cases ran with ⟨addr, known, rfl, rfl⟩ | ⟨rfl, rfl⟩
    · refine ⟨rfl, fun t log agree strings => ⟨agree, Grows.refl _, strings, addr, rfl, ?_⟩⟩
      exact agree.strings _ known
    · refine ⟨rfl, fun t log agree strings => ⟨agree.interned value, Grows.interned value, ?_, _, rfl, ?_⟩⟩
      · exact strings_stable _ _ (Grows.interned value) strings
      · exact List.getElem?_concat_length

theorem Pointers.foo (v : Foo) :
    link.Codec (fun w => Strings w ∧ v.parent.Has w.writer.heap fooKinds) (writeFoo write v)
      (fun fuel => readFoo (read fuel)) fun w _ y => SameFoo (Linked w.log) v.kept y := by
  have stable := strings_stable.and (has_stable v.parent fooKinds)
  apply Link.Codec.bind ((int32_codec v.id).carry stable fun _ _ => trivial)
  intro _ id
  have stable := (Link.Stable.fixed (id = v.id)).and stable
  apply Link.Codec.bind ((pointers.nullableString v.name).carry stable fun _ holds => holds.2.1)
  intro _ name
  have stable := (Link.Stable.fixed (name = v.name.kept)).and stable
  apply Link.Codec.bind ((nullableInt32_codec v.age).carry stable fun _ _ => trivial)
  intro _ age
  have stable := (Link.Stable.fixed (age = v.age.kept)).and stable
  apply Link.Codec.inspect ((pointers.asserted v.parent fooKinds).carry stable fun _ holds => holds.2.2.2)
  intro w _ parent _ after
  obtain ⟨same, rfl, rfl, rfl, -⟩ := after
  exact ⟨_, rfl, rfl, rfl, rfl, same⟩

/-- What a method writes of an object, its counterpart reads back. -/
theorem Pointers.body (obj : Obj) :
    link.Codec (fun w => (obj.kind ≠ .string → Strings w) ∧ obj.Typed w.writer.heap) (toBBuffer write obj)
      (fun fuel => fromBBuffer (read fuel) obj.kind) fun w _ y => Same (Linked w.log) obj.kept y := by
  cases obj with
  | string value =>
    have codec : link.Codec (fun _ => True) (toBBuffer write (.string value))
        (fun fuel => fromBBuffer (read fuel) .string) fun _ _ y => y = .string value :=
      bytes_codec value fun _ _ _ _ read _ => read
    exact codec.imp (fun _ _ => trivial) fun _ _ _ after => by rw [after]; exact .string value
  | bbuffer bb =>
    have codec : link.Codec (fun _ => True) (toBBuffer write (.bbuffer bb))
        (fun fuel => fromBBuffer (read fuel) .bbuffer) fun _ _ y => y = .bbuffer { buf := { data := bb.buf.data } } :=
      bytes_codec bb.buf.data fun _ _ _ _ read unlimited => readCount_eq read unlimited
    exact codec.imp (fun _ _ => trivial) fun _ _ _ after => by rw [after]; exact .bbuffer _
  | foo v =>
    have codec : link.Codec (fun w => Strings w ∧ v.parent.Has w.writer.heap fooKinds) (writeFoo write v)
        (fun fuel => readFoo (read fuel) >>= fun y => pure (Obj.foo y))
        fun w _ y => Same (Linked w.log) (.foo v.kept) y :=
      (pointers.foo v).inspect fun _ _ _ _ after => ⟨_, rfl, .foo after⟩
    exact codec.imp (fun _ before => ⟨before.1 (by simp [Obj.kind]), before.2⟩) fun _ _ _ after => after
  | listInt32 items =>
    have each : ∀ x ∈ items, link.Codec (fun _ => True) (writeInt32 x) (fun _ => readInt32) fun _ _ y => x = y :=
      fun x _ => (int32_codec x).imp (fun _ _ => trivial) fun _ _ _ after => after.symm
    have codec := list_codec items Obj.listInt32 (Link.Stable.fixed True) (fun x y => .fixed (x = y)) each
      fun x _ _ _ ran => append_positive (varUInt64Bytes_pos _) ran
    apply codec.imp (fun _ _ => trivial)
    rintro w _ _ ⟨ys, rfl, same⟩
    rw [List.forall₂_eq_eq_eq] at same
    rw [← same]
    exact .listInt32 items
  | fooExt1 v =>
    have stable := strings_stable.and ((has_stable v.parent fooKinds).and (has_stable v.childIds [.listInt32]))
    have first := (pointers.foo v.toFoo).carry stable fun _ holds => ⟨holds.1, holds.2.1⟩
    have codec : link.Codec (fun w => Strings w ∧ v.parent.Has w.writer.heap fooKinds ∧
          v.childIds.Has w.writer.heap [.listInt32]) (toBBuffer write (.fooExt1 v))
        (fun fuel => fromBBuffer (read fuel) .fooExt1) fun w _ y => Same (Linked w.log) (Obj.fooExt1 v).kept y := by
      apply Link.Codec.bind first
      intro _ foo
      have stableFoo : link.Stable fun w => SameFoo (Linked w.log) v.toFoo.kept foo :=
        fun _ _ grows same => same.mono grows.linked
      apply Link.Codec.inspect ((pointers.asserted v.childIds [.listInt32]).carry (stableFoo.and stable)
        fun _ holds => ⟨holds.2.1, holds.2.2.2⟩)
      intro w _ childIds _ after
      obtain ⟨children, foo, -⟩ := after
      exact ⟨_, rfl, .fooExt1 foo children⟩
    exact codec.imp (fun _ before => ⟨before.1 (by simp [Obj.kind]), before.2⟩) fun _ _ _ after => after
  | listFooExt1 items =>
    have stableHas : link.Stable fun w => ∀ v ∈ items, v.Has w.writer.heap [.fooExt1] :=
      fun _ _ grows has v member => (has v member).mono grows.sources
    have codec := list_codec items Obj.listFooExt1 (strings_stable.and stableHas) samePtr_stable
      (fun v member => (pointers.asserted v [.fooExt1]).imp (fun _ holds => ⟨holds.1, holds.2 v member⟩)
        fun _ _ _ after => after) pointers.positive
    apply codec.imp (fun _ before => ⟨before.1 (by simp [Obj.kind]), before.2⟩)
    rintro w _ _ ⟨ys, rfl, same⟩
    exact .listFooExt1 same

end

end Xxlib.Go
