import Xxlib.Go.Hostile

/-! Whether decoding stays inside the buffer. Go bounds an index by the length of a slice, but a
slice of it by the capacity, so that a string or a buffer may reach behind the length.
-/

set_option autoImplicit false

namespace Xxlib.Go

open Lib

/-! ## The calls -/

def readListPkgFooExt1 (readIObject : Run IObject) : Run IObject := do assertKind [.listFooExt1] (← readIObject)

/-- The functions `Read*`, of `xx_bbuffer.go` and of `sim_pkg_gen.go`. -/
inductive Call where
  | value (t : ValueType)
  | varUInt64
  | varInt64
  | length
  | nullableString
  | iobject
  | root
  | pkgFoo
  | listInt32
  | pkgFooExt1
  | listPkgFooExt1

namespace Call

abbrev Result : Call → Type
  | value t => t.Carrier
  | varUInt64 => UInt64
  | varInt64 => Int64
  | length => Int
  | nullableString => NullableString
  | _ => IObject

def method (behind : Memory → UInt32) : (c : Call) → Run c.Result
  | value t => t.read behind
  | varUInt64 => readVarUInt64
  | varInt64 => readVarInt64
  | length => readLength
  | nullableString => readNullableString readObject
  | iobject => readObject
  | root => readRoot
  | pkgFoo => readPkgFoo readObject
  | listInt32 => readListInt32 readObject
  | pkgFooExt1 => readPkgFooExt1 readObject
  | listPkgFooExt1 => readListPkgFooExt1 readObject

end Call

/-- The same memory, with other bytes between the length and the capacity. -/
def Memory.spared (m : Memory) (spare : List UInt8) : Memory :=
  { m with bb := { m.bb with buf := ⟨m.bb.buf.data, spare⟩ } }

/-- The largest `int`. -/
def maxInt : Nat := 2 ^ 63 - 1

/-- A capacity is an `int`. -/
def Memory.Room (m : Memory) (spare : List UInt8) : Prop := m.bb.buf.data.length + spare.length ≤ maxInt

/-- A call that returns ends inside the buffer, and its result is the same whatever lies behind the length. -/
def Call.Contained (c : Call) (offset : Int) (m : Memory) : Prop :=
  ∀ spare behind r m', m.Room spare → fromOffset offset (c.method behind) (m.spared spare) = .ok r m' →
    m'.bb.offset ≤ m.bb.buf.data.length ∧ ∀ spare' behind', m.Room spare' →
      ∃ m'', fromOffset offset (c.method behind') (m.spared spare') = .ok r m'' ∧ m''.heap = m'.heap ∧
        m''.bb.offset = m'.bb.offset

/-! ## What reaches behind the length -/

/-- The 64 bits of a number at an offset, and the offset behind it. -/
def shortCode (data : List UInt8) (offset : Nat) : Option (UInt64 × Nat) :=
  match Varint.decode (data.drop offset) with
  | none => none
  | some (n, length) => if length ≤ 10 then some (UInt64.ofNat n, offset + length) else none

/-- The beginning of a string or of a buffer: the type id, which ends at `place`, the offset that is claimed for it,
and a length, behind which the bytes `start`. -/
structure Blob where
  typeId : UInt16
  place : Nat
  ptrOffset : Int
  length : Int
  start : Nat
  deriving DecidableEq

def blobAt (data : List UInt8) (offset : Nat) : Option Blob := do
  let (id, place) ← shortCode data offset
  let (ptrOffset, behind) ← shortCode data place
  let (length, start) ← shortCode data behind
  return ⟨id.toUInt16, place, ptrOffset.toInt64.toInt, length.toInt64.toInt, start⟩

/-- A new string (1) or buffer (2), of which the bytes end behind `size`, but not behind the capacity. -/
structure Blob.Beyond (b : Blob) (size capacity : Nat) (root limit : Int) : Prop where
  kind : b.typeId = 1 ∨ b.typeId = 2
  new : b.ptrOffset = b.place - root
  nonneg : 0 ≤ b.length
  limited : b.typeId = 2 → limit = 0 ∨ b.length ≤ limit
  beyond : size < b.start + b.length
  room : b.start + b.length ≤ capacity

/-- The calls that leave the buffer, or return what lies outside of it. -/
def Call.Escapes (c : Call) (offset : Int) (m : Memory) : Prop :=
  let size := m.bb.buf.data.length
  0 ≤ offset ∧ match c with
    | value .float64 => offset + 8 ≤ size ∧ size ≤ maxInt
    | value .nullableFloat64 =>
        (∃ has, m.bb.buf.data[offset.toNat]? = some has ∧ has > 0) ∧ offset + 9 ≤ size ∧ size ≤ maxInt
    | nullableString => ∃ b, blobAt m.bb.buf.data offset.toNat = some b ∧ b.typeId = 1 ∧
        b.Beyond size maxInt m.bb.offsetRoot m.bb.readLengthLimit
    | iobject => ∃ b, blobAt m.bb.buf.data offset.toNat = some b ∧ b.Beyond size maxInt m.bb.offsetRoot m.bb.readLengthLimit
    | root => ∃ b, blobAt m.bb.buf.data offset.toNat = some b ∧ b.Beyond size maxInt offset m.bb.readLengthLimit
    | _ => False

/-! ## Readers that end inside -/

def Inside {α : Type} (read : Run α) : Prop :=
  ∀ m x m', m.bb.offset ≤ m.bb.buf.data.length → read m = .ok x m' → m'.bb.offset ≤ m.bb.buf.data.length

section
variable {α β : Type} {read : Run α} {next : α → Run β}

theorem Inside.pure (x : α) : Inside (Pure.pure x : Run α) := by
  intro m y m' here ran
  cases ran
  exact here

theorem Inside.bind (reads : (tape True).Local read) (inside : Inside read) (rest : ∀ x, Inside (next x)) :
    Inside (read >>= next) := by
  intro m y m' here ran
  obtain ⟨x, m₁, first, second⟩ := bind_ok ran
  obtain ⟨used, takes, -⟩ := reads m x m₁ first
  have there := inside m x m₁ here first
  rw [← takes.buf] at there ⊢
  exact rest x m₁ y m' there second

/-- Whatever comes before: what begins with a byte of the buffer begins inside of it. -/
theorem Inside.after (reads : (tape True).Local read) (begins : ∀ x, Begins (next x)) (rest : ∀ x, Inside (next x)) :
    Inside (read >>= next) := by
  intro m y m' here ran
  obtain ⟨x, m₁, first, second⟩ := bind_ok ran
  obtain ⟨used, takes, -⟩ := reads m x m₁ first
  have some := begins x m₁ y m' second
  have there : m₁.bb.offset ≤ m₁.bb.buf.data.length := by
    unfold Memory.left at some
    omega
  rw [← takes.buf]
  exact rest x m₁ y m' there second

theorem Inside.map (reads : (tape True).Local read) (inside : Inside read) (f : α → β) :
    Inside (do return f (← read)) := inside.bind reads fun x => .pure (f x)

theorem Inside.collect (reads : (tape True).Local read) (inside : Inside read) (count : Nat) :
    Inside (collect read count) := by
  induction count with
  | zero => exact .pure []
  | succ count ih => exact inside.bind reads fun x => ih.map (reads.collect count) fun xs => x :: xs

theorem readVarUInt64_inside : Inside readVarUInt64 := by
  intro m v m' here ran
  obtain ⟨n, length, found, -, -, rfl⟩ := readVarUInt64_ok ran
  have short := (Varint.decode_length found).2
  simp only [Memory.unread, List.length_drop] at short
  simp only [Memory.advanced]
  omega

theorem nextByte_inside : Inside nextByte := by
  intro m b m' here ran
  obtain ⟨tail, input, rfl⟩ := nextByte_ok ran
  exact offset_lt_of_unread input

theorem readLength_inside : Inside readLength := readVarUInt64_inside.map readVarUInt64_local _

theorem readInt32_inside : Inside readInt32 :=
  (readVarUInt64_inside.map readVarUInt64_local _).map readVarInt64_local _

theorem readCount_inside : Inside readCount := by
  apply readLength_inside.bind readLength_local
  intro count m y m' here ran
  obtain ⟨m₁, _, first, second⟩ := bind_ok ran
  cases first
  dsimp only at second
  split at second
  · cases second
  · cases second
    exact here

theorem readNullableInt32_inside : Inside readNullableInt32 := by
  apply (nextByte_inside.map nextByte_local _).bind readBool_local
  intro has
  split
  · exact readInt32_inside.map readInt32_local _
  · exact .pure _

end

theorem nextByte_begins : Begins nextByte := by
  intro m b m' ran
  obtain ⟨tail, input, rfl⟩ := nextByte_ok ran
  have some := offset_lt_of_unread input
  simp only [Memory.left, Memory.advanced]
  omega

theorem readNullableInt32_begins : Begins readNullableInt32 := by
  apply (nextByte_begins.map _).bind
  intro has m y m' ran
  have rest : (tape True).Local (if has then do return { value := ← readInt32, hasValue := true } else return {} :
      Run NullableInt32) := by
    split
    · exact readInt32_local.map _
    · exact .pure _
  exact left_le rest ran

/-! ## Numbers at an offset -/

section
variable {m m' : Memory} {v : UInt64} {next : Nat}

theorem shortCode_of_read (ran : readVarUInt64 m = .ok v m') :
    shortCode m.bb.buf.data m.bb.offset = some (v, m'.bb.offset) ∧ m' = m.placed m'.bb.offset := by
  obtain ⟨n, length, found, few, rfl, rfl⟩ := readVarUInt64_ok ran
  refine ⟨?_, rfl⟩
  unfold shortCode
  rw [show Varint.decode (m.bb.buf.data.drop m.bb.offset) = some (n, length) from found]
  exact if_pos few

theorem read_of_shortCode (found : shortCode m.bb.buf.data m.bb.offset = some (v, next)) :
    readVarUInt64 m = .ok v (m.placed next) := by
  unfold shortCode at found
  split at found
  · cases found
  · next n length code =>
    split at found
    · next few =>
      cases found
      exact readVarUInt64_decode code few
    · cases found

end

/-! ## Objects -/

def Memory.capacity (m : Memory) : Nat := m.bb.buf.data.length + m.bb.buf.spare.length

/-- The call has returned a new string or buffer that ends behind the length. -/
def Bulky (m : Memory) (r : IObject) (m' : Memory) : Prop :=
  ∃ b addr obj, blobAt m.bb.buf.data m.bb.offset = some b ∧
    b.Beyond m.bb.buf.data.length m.capacity m.bb.offsetRoot m.bb.readLengthLimit ∧
    r = .ptr addr ∧ m'.heap[addr]? = some obj ∧ obj.kind.packageId = b.typeId

/-- A reader of objects that leaves the buffer at most with a string or a buffer. -/
def Bounded (read : Run IObject) : Prop :=
  ∀ m r m', m.bb.offset ≤ m.bb.buf.data.length → read m = .ok r m' →
    m'.bb.offset ≤ m.bb.buf.data.length ∨ Bulky m r m'

theorem assertKind_ok {kinds : List Kind} {v r : IObject} {m m' : Memory} (ran : assertKind kinds v m = .ok r m') :
    m' = m ∧ r = v ∧ ∀ addr obj, v = .ptr addr → m.heap[addr]? = some obj → obj.kind ∈ kinds := by
  cases v with
  | nil =>
    cases ran
    exact ⟨rfl, rfl, fun addr obj other => by cases other⟩
  | typedNil kind =>
    change (if kind ∈ kinds then _ else _ : Run IObject) m = _ at ran
    split at ran
    · cases ran
      exact ⟨rfl, rfl, fun addr obj other => by cases other⟩
    · cases ran
  | ptr addr =>
    obtain ⟨obj, m₁, loaded, rest⟩ := bind_ok ran
    unfold load at loaded
    split at loaded
    · cases loaded
    · next found =>
      cases loaded
      split at rest
      · next member =>
        cases rest
        refine ⟨rfl, rfl, fun addr' obj' same found' => ?_⟩
        cases same
        rw [found] at found'
        cases found'
        exact member
      · cases rest

section
variable {read : Run IObject}

/-- The type assertions of the packages refuse strings and buffers. -/
theorem Bounded.asserted (bounded : Bounded read) {kinds : List Kind}
    (others : ∀ kind ∈ kinds, kind.packageId ≠ 1 ∧ kind.packageId ≠ 2) :
    Inside (do assertKind kinds (← read)) := by
  intro m r m' here ran
  obtain ⟨v, m₁, first, second⟩ := bind_ok ran
  obtain ⟨rfl, rfl, member⟩ := assertKind_ok second
  rcases bounded m r m' here first with inside | ⟨b, addr, obj, -, beyond, pointer, found, kind⟩
  · exact inside
  · obtain ⟨not_string, not_bbuffer⟩ := others obj.kind (member addr obj pointer found)
    rw [kind] at not_string not_bbuffer
    rcases beyond.kind with string | bbuffer
    · exact absurd string not_string
    · exact absurd bbuffer not_bbuffer

variable (reads : (tape True).Local read) (bounded : Bounded read)
include reads bounded

theorem readFoo_inside : Inside (readFoo read) := by
  apply readInt32_inside.bind readInt32_local
  intro id
  -- a name that ends behind the length leaves no byte for the age
  apply Inside.after (readNullableString_local reads)
  · intro name
    apply readNullableInt32_begins.bind
    intro age m foo m' ran
    exact left_le ((asserted_local fooKinds reads).map _) ran
  · intro name
    apply readNullableInt32_inside.bind readNullableInt32_local
    intro age
    exact (bounded.asserted (by decide)).map (asserted_local fooKinds reads) _

theorem fromBBuffer_inside {kind : Kind} (plain : kind ≠ .string ∧ kind ≠ .bbuffer) :
    Inside (fromBBuffer read kind) := by
  cases kind with
  | string => exact absurd rfl plain.1
  | bbuffer => exact absurd rfl plain.2
  | foo => exact (readFoo_inside reads bounded).map (readFoo_local reads) _
  | listInt32 =>
    apply readCount_inside.bind readCount_local
    intro count
    exact (readInt32_inside.collect readInt32_local _).map (readInt32_local.collect _) _
  | fooExt1 =>
    apply (readFoo_inside reads bounded).bind (readFoo_local reads)
    intro foo
    exact (bounded.asserted (by decide)).map (asserted_local [.listInt32] reads) _
  | listFooExt1 =>
    apply readCount_inside.bind readCount_local
    intro count
    have each : Inside (readPkgFooExt1 read) := bounded.asserted (by decide)
    exact (each.collect (asserted_local [.fooExt1] reads) _).map ((asserted_local [.fooExt1] reads).collect _) _

end

/-! ## Strings and buffers -/

/-- What reads the bytes of a string or of a buffer, for the kinds that are one. -/
structure Bytes (m : Memory) (kind : Kind) (v : UInt64) (m₁ : Memory) : Prop where
  read : readVarUInt64 m = .ok v m₁
  nonneg : 0 ≤ v.toInt64.toInt
  limited : kind = .bbuffer → m.bb.readLengthLimit = 0 ∨ v.toInt64.toInt ≤ m.bb.readLengthLimit
  room : m₁.bb.offset + v.toInt64.toInt ≤ m.capacity

section
variable {read : Run IObject} {m m' m₁ : Memory} {kind : Kind} {obj : Obj} {v : UInt64}

theorem nextBytes_ok {n : Int} {bytes : List UInt8} (ran : nextBytes n m = .ok bytes m') :
    0 ≤ n ∧ m.bb.offset + n ≤ m.capacity ∧ m' = m.placed (m.bb.offset + n.toNat) := by
  unfold nextBytes at ran
  simp only at ran
  split at ran
  · next inside =>
    cases ran
    refine ⟨inside.1, ?_, rfl⟩
    have room := inside.2
    unfold Memory.capacity
    push_cast
    exact room
  · cases ran

theorem nextBytes_run {n : Int} (nonneg : 0 ≤ n) (room : m.bb.offset + n ≤ m.capacity) :
    ∃ bytes, nextBytes n m = .ok bytes (m.placed (m.bb.offset + n.toNat)) := by
  unfold Memory.capacity at room
  push_cast at room
  unfold nextBytes
  simp only
  rw [if_pos ⟨nonneg, room⟩]
  exact ⟨_, rfl⟩

theorem readCount_ok {n : Int} (ran : readCount m = .ok n m₁) :
    (∃ v, readVarUInt64 m = .ok v m₁ ∧ n = v.toInt64.toInt) ∧ (m.bb.readLengthLimit = 0 ∨ n ≤ m.bb.readLengthLimit) := by
  obtain ⟨n', m₂, first, second⟩ := bind_ok ran
  obtain ⟨v, m₃, code, last⟩ := bind_ok first
  cases last
  obtain ⟨m₄, _, got, rest⟩ := bind_ok second
  cases got
  have kept : m₂.bb.readLengthLimit = m.bb.readLengthLimit := by rw [(shortCode_of_read code).2]; rfl
  dsimp only at rest
  split at rest
  · cases rest
  · next fits =>
    cases rest
    refine ⟨⟨v, code, rfl⟩, ?_⟩
    rw [← kept]
    by_contra neither
    exact fits ⟨fun zero => neither (.inl zero), by omega⟩

/-- A string or a buffer that was read. -/
theorem bytes_of_make (blob : kind = .string ∨ kind = .bbuffer) (ran : fromBBuffer read kind m = .ok obj m') :
    ∃ v m₁, Bytes m kind v m₁ ∧ m' = m₁.placed (m₁.bb.offset + v.toInt64.toInt.toNat) ∧ obj.kind = kind := by
  rcases blob with rfl | rfl
  · obtain ⟨n, m₁, first, second⟩ := bind_ok ran
    obtain ⟨v, m₂, code, last⟩ := bind_ok first
    cases last
    obtain ⟨bytes, m₃, taken, last⟩ := bind_ok second
    cases last
    obtain ⟨nonneg, room, place⟩ := nextBytes_ok taken
    have kept : m₁.capacity = m.capacity := by rw [(shortCode_of_read code).2]; rfl
    exact ⟨v, m₁, ⟨code, nonneg, fun other => (by cases other), kept ▸ room⟩, place, rfl⟩
  · obtain ⟨n, m₁, first, second⟩ := bind_ok ran
    obtain ⟨⟨v, code, rfl⟩, limited⟩ := readCount_ok first
    obtain ⟨bytes, m₃, taken, last⟩ := bind_ok second
    cases last
    obtain ⟨nonneg, room, place⟩ := nextBytes_ok taken
    have kept : m₁.capacity = m.capacity := by rw [(shortCode_of_read code).2]; rfl
    exact ⟨v, m₁, ⟨code, nonneg, fun _ => limited, kept ▸ room⟩, place, rfl⟩

/-- A string or a buffer that can be read. -/
theorem make_of_bytes (blob : kind = .string ∨ kind = .bbuffer) (bytes : Bytes m kind v m₁) :
    ∃ obj, fromBBuffer read kind m = .ok obj (m₁.placed (m₁.bb.offset + v.toInt64.toInt.toNat)) ∧ obj.kind = kind := by
  have kept : m₁.capacity = m.capacity := by rw [(shortCode_of_read bytes.read).2]; rfl
  obtain ⟨list, taken⟩ := nextBytes_run bytes.nonneg (by rw [kept]; exact bytes.room)
  have length : readLength m = .ok v.toInt64.toInt m₁ := bind_run bytes.read rfl
  rcases blob with rfl | rfl
  · exact ⟨.string list, bind_run length (bind_run taken rfl), rfl⟩
  · refine ⟨.bbuffer { buf := { data := list } }, bind_run (bind_run length (bind_run rfl ?_)) (bind_run taken rfl), rfl⟩
    have limit : m₁.bb.readLengthLimit = m.bb.readLengthLimit := by rw [(shortCode_of_read bytes.read).2]; rfl
    have limited := bytes.limited rfl
    rw [limit, if_neg (by omega)]
    rfl

end

/-! ## The last object that is read -/

theorem creators_kind {typeId : UInt16} {obj : Obj} (found : creators.lookup typeId = some obj) :
    obj.kind.packageId = typeId := by
  obtain ⟨before, after, shape, -⟩ := List.lookup_eq_some_iff.mp found
  have member : (typeId, obj) ∈ creators := by
    rw [shape]
    exact List.mem_append_right _ List.mem_cons_self
  have each : ∀ entry ∈ creators, entry.2.kind.packageId = entry.1 := by decide
  exact each _ member

/-- The memory when a new object has been created. -/
def Memory.entered (m : Memory) (ptrOffset : Int) (zero : Obj) : Memory :=
  { heap := m.heap ++ [zero], bb := { m.bb with idxStore := (ptrOffset, m.heap.length) :: m.bb.idxStore } }

section
variable {make : Kind → Run Obj} {typeId : UInt16} {ptrOffset : Int} {m m' : Memory} {r : IObject}

theorem readNew_ok (ran : readNew make typeId ptrOffset m = .ok r m') :
    ∃ kind zero obj m₁, kind.packageId = typeId ∧ make kind (m.entered ptrOffset zero) = .ok obj m₁ ∧
      r = .ptr m.heap.length ∧ m' = { m₁ with heap := m₁.heap.set m.heap.length obj } := by
  obtain ⟨created, m₁, creates, rest⟩ := bind_ok ran
  unfold createByTypeId at creates
  cases found : creators.lookup typeId with
  | none =>
    rw [found] at creates
    cases creates
  | some zero =>
    rw [found] at creates
    cases creates
    obtain ⟨_, m₂, noted, rest⟩ := bind_ok rest
    cases noted
    obtain ⟨obj, m₃, made, rest⟩ := bind_ok rest
    cases rest
    exact ⟨zero.kind, zero, obj, m₃, creators_kind found, made, rfl, rfl⟩

theorem readNew_run {kind : Kind} {obj : Obj} {m₁ : Memory}
    (made : make kind (m.entered ptrOffset kind.zero) = .ok obj m₁) : readNew make kind.packageId ptrOffset m =
      .ok (.ptr m.heap.length) { m₁ with heap := m₁.heap.set m.heap.length obj } := by
  have creates : createByTypeId kind.packageId m =
      .ok (m.heap.length, kind) { m with heap := m.heap ++ [kind.zero] } := by
    unfold createByTypeId
    rw [creators_packageId kind]
    refine bind_run rfl ?_
    rw [zero_kind]
    rfl
  exact bind_run creates (bind_run rfl (bind_run made (bind_run rfl rfl)))

theorem readKnown_ok {found : Option Addr} (ran : readKnown typeId found m = .ok r m') : m' = m := by
  cases found with
  | none => cases ran
  | some addr =>
    obtain ⟨obj, m₁, loaded, rest⟩ := bind_ok ran
    unfold load at loaded
    split at loaded
    · cases loaded
    · cases loaded
      split at rest
      · cases rest
      · cases rest
        rfl

/-- What a call of `ReadIObject` that returns has done. -/
theorem readIObjectWith_ok (ran : readIObjectWith make m = .ok r m') :
    ∃ id place, shortCode m.bb.buf.data m.bb.offset = some (id, place) ∧
      (m' = m.placed place ∨ ∃ p behind, shortCode m.bb.buf.data place = some (p, behind) ∧
        (m' = m.placed behind ∨ p.toInt64.toInt = place - m.bb.offsetRoot ∧
          readNew make id.toUInt16 p.toInt64.toInt (m.placed behind) = .ok r m')) := by
  obtain ⟨typeId, m₁, first, rest⟩ := bind_ok ran
  obtain ⟨id, _, code, last⟩ := bind_ok first
  cases last
  obtain ⟨short, place⟩ := shortCode_of_read code
  refine ⟨id, _, short, ?_⟩
  unfold readTyped at rest
  split at rest
  · cases rest
    exact .inl place
  · obtain ⟨_, _, got, pointer⟩ := bind_ok rest
    cases got
    obtain ⟨ptrOffset, m₂, second, rest⟩ := bind_ok pointer
    obtain ⟨p, _, code₂, last⟩ := bind_ok second
    cases last
    rw [place] at code₂ rest
    obtain ⟨short₂, place₂⟩ := shortCode_of_read code₂
    refine .inr ⟨p, _, short₂, ?_⟩
    rw [place₂] at rest
    split at rest
    · next new => exact .inr ⟨new, rest⟩
    · obtain ⟨_, _, got, known⟩ := bind_ok rest
      cases got
      exact .inl (readKnown_ok known)

end

theorem readIObjectWith_new {make : Kind → Run Obj} {m m' : Memory} {r : IObject} {id p : UInt64} {place behind : Nat}
    (first : shortCode m.bb.buf.data m.bb.offset = some (id, place))
    (second : shortCode m.bb.buf.data place = some (p, behind)) (object : id.toUInt16 ≠ 0)
    (new : p.toInt64.toInt = place - m.bb.offsetRoot)
    (ran : readNew make id.toUInt16 p.toInt64.toInt (m.placed behind) = .ok r m') :
    readIObjectWith make m = .ok r m' := by
  have typed : readUInt16 m = .ok id.toUInt16 (m.placed place) := bind_run (read_of_shortCode first) rfl
  have pointed : readLength (m.placed place) = .ok p.toInt64.toInt (m.placed behind) :=
    bind_run (read_of_shortCode second) rfl
  refine bind_run typed ?_
  unfold readTyped
  rw [if_neg object]
  refine bind_run rfl (bind_run pointed ?_)
  have here : p.toInt64.toInt = ((m.placed place).bb.offset : Int) - (m.placed place).bb.offsetRoot := new
  rw [if_pos here]
  exact ran

theorem shortCode_inside {data : List UInt8} {offset next : Nat} {v : UInt64}
    (found : shortCode data offset = some (v, next)) : next ≤ data.length := by
  unfold shortCode at found
  split at found
  · cases found
  · next n length code =>
    have short := Varint.decode_length code
    rw [List.length_drop] at short
    split at found
    · cases found
      omega
    · cases found

theorem blobAt_eq {data : List UInt8} {offset place behind start : Nat} {id p v : UInt64}
    (first : shortCode data offset = some (id, place)) (second : shortCode data place = some (p, behind))
    (third : shortCode data behind = some (v, start)) :
    blobAt data offset = some ⟨id.toUInt16, place, p.toInt64.toInt, v.toInt64.toInt, start⟩ := by
  simp [blobAt, first, second, third]

theorem blob_kind {kind : Kind} (blob : kind = .string ∨ kind = .bbuffer) :
    (kind.packageId = 1 ∨ kind.packageId = 2) ∧ (kind.packageId = 2 → kind = .bbuffer) := by
  rcases blob with rfl | rfl <;> decide

theorem readIObjectWith_bounded {read : Run IObject} (reads : (tape True).Local read) (bounded : Bounded read) :
    Bounded (readIObjectWith (fromBBuffer read)) := by
  intro m r m' here ran
  obtain ⟨id, place, short₁, rfl | ⟨p, behind, short₂, rfl | ⟨new, ran⟩⟩⟩ := readIObjectWith_ok ran
  · exact .inl (shortCode_inside short₁)
  · exact .inl (shortCode_inside short₂)
  obtain ⟨kind, zero, obj, m₁, same, made, rfl, rfl⟩ := readNew_ok ran
  by_cases blob : kind = .string ∨ kind = .bbuffer
  · obtain ⟨v, m₂, bytes, rfl, kind'⟩ := bytes_of_make blob made
    obtain ⟨short₃, place₃⟩ := shortCode_of_read bytes.read
    by_cases inside : m₂.bb.offset + v.toInt64.toInt.toNat ≤ m.bb.buf.data.length
    · exact .inl inside
    · refine .inr ⟨_, _, obj, blobAt_eq short₁ short₂ short₃, ?_, rfl, ?_, kind' ▸ same⟩
      · obtain ⟨number, bbuffer⟩ := blob_kind blob
        rw [same] at number bbuffer
        have nonneg := bytes.nonneg
        exact ⟨number, new, nonneg, fun two => bytes.limited (bbuffer two), by simp only; omega, bytes.room⟩
      · rw [place₃]
        exact List.getElem?_set_self (by simp [Memory.placed, Memory.entered])
  · have plain : kind ≠ .string ∧ kind ≠ .bbuffer := ⟨fun one => blob (.inl one), fun two => blob (.inr two)⟩
    have inside := fromBBuffer_inside reads bounded plain _ obj m₁ (shortCode_inside short₂) made
    exact .inl inside

theorem readIObject_bounded (fuel : Nat) : Bounded (readIObject fuel) := by
  induction fuel with
  | zero =>
    intro m r m' here ran
    cases ran
  | succ fuel ih => exact readIObjectWith_bounded (readIObject_local fuel) ih

theorem readObject_bounded : Bounded readObject := fun m => readIObject_bounded _ m

theorem readObject_begins : Begins readObject := fun m => readIObject_begins _ m

theorem blobAt_some {data : List UInt8} {offset : Nat} {b : Blob} (found : blobAt data offset = some b) :
    ∃ id p v behind, shortCode data offset = some (id, b.place) ∧ shortCode data b.place = some (p, behind) ∧
      shortCode data behind = some (v, b.start) ∧ b.typeId = id.toUInt16 ∧ b.ptrOffset = p.toInt64.toInt ∧
      b.length = v.toInt64.toInt := by
  simp only [blobAt, Option.bind_eq_bind, Option.bind_eq_some_iff] at found
  obtain ⟨⟨id, place⟩, first, ⟨p, behind⟩, second, ⟨v, start⟩, third, last⟩ := found
  cases last
  exact ⟨id, p, v, behind, first, second, third, rfl, rfl, rfl⟩

theorem kind_of_blob {typeId : UInt16} (number : typeId = 1 ∨ typeId = 2) :
    ∃ kind : Kind, kind.packageId = typeId ∧ (kind = .string ∨ kind = .bbuffer) ∧ (kind = .bbuffer → typeId = 2) := by
  rcases number with rfl | rfl
  · exact ⟨.string, rfl, .inl rfl, fun other => by cases other⟩
  · exact ⟨.bbuffer, rfl, .inr rfl, fun _ => rfl⟩

/-- A string or a buffer that ends behind the length is returned all the same. -/
theorem readObject_escapes {m : Memory} {b : Blob} (found : blobAt m.bb.buf.data m.bb.offset = some b)
    (beyond : b.Beyond m.bb.buf.data.length m.capacity m.bb.offsetRoot m.bb.readLengthLimit) :
    ∃ addr obj m', readObject m = .ok (.ptr addr) m' ∧ m'.heap[addr]? = some obj ∧ obj.kind.packageId = b.typeId ∧
      (m'.bb.offset : Int) = b.start + b.length := by
  obtain ⟨id, p, v, behind, first, second, third, type, ptrOffset, length⟩ := blobAt_some found
  obtain ⟨kind, same, blob, two⟩ := kind_of_blob beyond.kind
  have room := beyond.room
  have nonneg := beyond.nonneg
  let created := (m.placed behind).entered p.toInt64.toInt kind.zero
  have bytes : Bytes created kind v (created.placed b.start) :=
    ⟨read_of_shortCode third, length ▸ nonneg, fun bbuffer => length ▸ beyond.limited (two bbuffer), length ▸ room⟩
  obtain ⟨obj, made, kind'⟩ := make_of_bytes blob bytes
  have new : p.toInt64.toInt = (b.place : Int) - m.bb.offsetRoot := ptrOffset ▸ beyond.new
  have object : id.toUInt16 ≠ 0 := by
    rw [← type, ← same]
    exact packageId_ne_zero kind
  have ran := readNew_run made
  rw [same, type] at ran
  have returned := readIObjectWith_new first second object new ran
  refine ⟨m.heap.length, obj, _, returned, ?_, kind' ▸ same, ?_⟩
  · exact List.getElem?_set_self (by simp [created, Memory.placed, Memory.entered])
  · change ((b.start + v.toInt64.toInt.toNat : Nat) : Int) = _
    omega

/-! ## Calls that stay inside -/

/-- The reader begins and ends inside the buffer, and depends on the bytes that it takes. -/
structure Confined {α : Type} (read : Run α) : Prop where
  reads : (tape True).Local read
  begins : Begins read
  inside : Inside read

section
variable {α β : Type} {read : Run α}

theorem Confined.map (confined : Confined read) (f : α → β) : Confined (do return f (← read)) :=
  ⟨confined.reads.map f, confined.begins.map f, confined.inside.map confined.reads f⟩

theorem confined_byte : Confined nextByte := ⟨nextByte_local, nextByte_begins, nextByte_inside⟩

theorem confined_varUInt64 : Confined readVarUInt64 := ⟨readVarUInt64_local, readVarUInt64_begins, readVarUInt64_inside⟩

theorem confined_bool : Confined readBool := confined_byte.map _

theorem confined_nullable [Inhabited α] (confined : Confined read) : Confined (readNullable read) := by
  have rest (has : Bool) : (tape True).Local (if has then do return { value := ← read, hasValue := true } else
      return { value := default } : Run (Nullable α)) := by
    split
    · exact confined.reads.map _
    · exact .pure _
  refine ⟨readNullable_local confined.reads, ?_, ?_⟩
  · apply confined_bool.begins.bind
    intro has m y m' ran
    exact left_le (rest has) ran
  · apply confined_bool.inside.bind confined_bool.reads
    intro has
    split
    · exact confined.inside.map confined.reads _
    · exact .pure _

theorem confined_float32 : Confined readFloat32 := by
  refine ⟨readFloat32_local, fun m f m' ran => ?_, fun m f m' here ran => ?_⟩
  · obtain ⟨b₀, b₁, b₂, b₃, tail, input, rfl, -⟩ := readFloat32_ok ran
    have some := offset_lt_of_unread input
    simp only [Memory.left, Memory.advanced]
    omega
  · obtain ⟨b₀, b₁, b₂, b₃, tail, input, rfl, -⟩ := readFloat32_ok ran
    have count := congrArg List.length input
    simp only [Memory.unread, List.length_drop, List.length_append, List.length_cons, List.length_nil] at count
    simp only [Memory.advanced]
    omega

theorem confined_value (behind : Memory → UInt32) {t : ValueType} (other : t ≠ .float64) (other' : t ≠ .nullableFloat64) :
    Confined (t.read behind) := by
  have varInt64 : Confined readVarInt64 := confined_varUInt64.map _
  cases t with
  | bool => exact confined_bool
  | int8 => exact confined_byte.map _
  | uint8 => exact confined_byte
  | int16 => exact varInt64.map _
  | uint16 => exact confined_varUInt64.map _
  | int32 => exact varInt64.map _
  | uint32 => exact confined_varUInt64.map _
  | int64 => exact varInt64
  | uint64 => exact confined_varUInt64
  | float32 => exact confined_float32
  | float64 => exact absurd rfl other
  | nullableBool => exact confined_nullable confined_bool
  | nullableInt8 => exact confined_nullable (confined_byte.map _)
  | nullableUInt8 => exact confined_nullable confined_byte
  | nullableInt16 => exact confined_nullable (varInt64.map _)
  | nullableUInt16 => exact confined_nullable (confined_varUInt64.map _)
  | nullableInt32 => exact ⟨readNullableInt32_local, readNullableInt32_begins, readNullableInt32_inside⟩
  | nullableUInt32 => exact confined_nullable (confined_varUInt64.map _)
  | nullableInt64 => exact confined_nullable varInt64
  | nullableUInt64 => exact confined_nullable confined_varUInt64
  | nullableFloat32 => exact confined_nullable confined_float32
  | nullableFloat64 => exact absurd rfl other'

theorem confined_asserted {kinds : List Kind} (others : ∀ kind ∈ kinds, kind.packageId ≠ 1 ∧ kind.packageId ≠ 2) :
    Confined (do assertKind kinds (← readObject)) := by
  refine ⟨asserted_local kinds readObject_local, ?_, readObject_bounded.asserted others⟩
  apply readObject_begins.bind
  intro v m r m' ran
  exact left_le (assertKind_local kinds v) ran

end

section
variable {c : Call} {offset : Int} {m : Memory}

/-- The memory in which a call begins. -/
def Memory.called (m : Memory) (spare : List UInt8) (offset : Int) : Memory := (m.spared spare).placed offset.toNat

theorem fromOffset_ok {α : Type} {read : Run α} {r : α} {m' : Memory} (ran : fromOffset offset read m = .ok r m') :
    0 ≤ offset ∧ read (m.placed offset.toNat) = .ok r m' := by
  unfold fromOffset at ran
  split at ran
  · cases ran
  · exact ⟨by omega, ran⟩

/-- A local reader that ends inside the buffer is contained. -/
theorem contained_of_local {read : Run c.Result} (method : ∀ behind, c.method behind = read)
    (reads : (tape True).Local read)
    (ends : ∀ spare r m', m.Room spare → 0 ≤ offset → read (m.called spare offset) = .ok r m' →
      m'.bb.offset ≤ m.bb.buf.data.length) : c.Contained offset m := by
  intro spare behind r m' room ran
  rw [method] at ran
  obtain ⟨nonneg, ran⟩ := fromOffset_ok ran
  have inside := ends spare r m' room nonneg ran
  refine ⟨inside, fun spare' behind' room' => ?_⟩
  obtain ⟨used, takes, stands⟩ := reads _ r m' ran
  have place : m'.bb.offset = offset.toNat + used.length := takes.offset
  have here : (m.called spare offset).bb.offset ≤ (m.called spare offset).bb.buf.data.length := by
    change offset.toNat ≤ m.bb.buf.data.length
    omega
  have alike : Alike True (m.called spare offset) (m.called spare' offset) :=
    ⟨rfl, rfl, here, fun _ => rfl, fun _ => rfl⟩
  have front : m.bb.buf.data.drop offset.toNat = used ++ (m.bb.buf.data.drop offset.toNat).drop used.length := by
    have bytes : (m.called spare offset).reach = used ++ m'.reach := takes.bytes
    rw [reach_eq here] at bytes
    change m.bb.buf.data.drop offset.toNat ++ spare = _ at bytes
    have taken := congrArg (List.take used.length) bytes
    rw [List.take_left, List.take_append_of_le_length (by rw [List.length_drop]; omega)] at taken
    calc m.bb.buf.data.drop offset.toNat
        = (m.bb.buf.data.drop offset.toNat).take used.length ++ (m.bb.buf.data.drop offset.toNat).drop used.length :=
          (List.take_append_drop _ _).symm
      _ = used ++ (m.bb.buf.data.drop offset.toNat).drop used.length := by rw [taken]
  obtain ⟨u', read', taken, alike'⟩ := stands _ _ alike front
  refine ⟨u', ?_, alike'.heap.symm, taken.offset.trans takes.offset.symm⟩
  rw [method]
  unfold fromOffset
  rw [if_neg (by omega)]
  exact read'

theorem contained_of_confined {read : Run c.Result} (method : ∀ behind, c.method behind = read) (confined : Confined read) :
    c.Contained offset m := by
  apply contained_of_local method confined.reads
  intro spare r m' room nonneg ran
  have begins := confined.begins _ r m' ran
  have here : (m.called spare offset).bb.offset ≤ (m.called spare offset).bb.buf.data.length := by
    unfold Memory.left at begins
    omega
  have inside := confined.inside _ r m' here ran
  exact inside

end

/-! ## What escapes -/

section
variable {m m' : Memory}

theorem byteAhead_run {i : Nat} (inside : i < m.unread.length) : ∃ b, byteAhead i m = .ok b m := by
  have found : m.unread[i]? = some m.unread[i] := List.getElem?_eq_getElem inside
  exact ⟨_, byteAhead_eq (List.append_nil _).symm found⟩

theorem readFloat64_run (enough : 8 ≤ m.unread.length) :
    ∃ v, ∀ behind, readFloat64 behind m = .ok (eightBytes v (behind m)) (m.advanced 8) := by
  obtain ⟨b₀, first⟩ := byteAhead_run (i := 0) (m := m) (by omega)
  obtain ⟨b₁, second⟩ := byteAhead_run (i := 1) (m := m) (by omega)
  obtain ⟨b₂, third⟩ := byteAhead_run (i := 2) (m := m) (by omega)
  obtain ⟨b₃, fourth⟩ := byteAhead_run (i := 3) (m := m) (by omega)
  obtain ⟨b₄, fifth⟩ := byteAhead_run (i := 4) (m := m) (by omega)
  obtain ⟨b₅, sixth⟩ := byteAhead_run (i := 5) (m := m) (by omega)
  obtain ⟨b₆, seventh⟩ := byteAhead_run (i := 6) (m := m) (by omega)
  obtain ⟨b₇, eighth⟩ := byteAhead_run (i := 7) (m := m) (by omega)
  refine ⟨b₀.toUInt32 ||| shifted32 b₁ 8 ||| shifted32 b₂ 16 ||| shifted32 b₃ 24 ||| shifted32 b₄ 32 |||
    shifted32 b₅ 40 ||| shifted32 b₆ 48 ||| shifted32 b₇ 56, fun behind => ?_⟩
  apply bind_run first
  apply bind_run second
  apply bind_run third
  apply bind_run fourth
  apply bind_run fifth
  apply bind_run sixth
  apply bind_run seventh
  apply bind_run eighth
  rfl

theorem readFloat64_ok {behind : Memory → UInt32} {d : UInt64} (ran : readFloat64 behind m = .ok d m') :
    8 ≤ m.unread.length := by
  obtain ⟨_, _, first, ran⟩ := bind_ok ran
  rw [(byteAhead_ok first).1] at ran
  obtain ⟨_, _, second, ran⟩ := bind_ok ran
  rw [(byteAhead_ok second).1] at ran
  obtain ⟨_, _, third, ran⟩ := bind_ok ran
  rw [(byteAhead_ok third).1] at ran
  obtain ⟨_, _, fourth, ran⟩ := bind_ok ran
  rw [(byteAhead_ok fourth).1] at ran
  obtain ⟨_, _, fifth, ran⟩ := bind_ok ran
  rw [(byteAhead_ok fifth).1] at ran
  obtain ⟨_, _, sixth, ran⟩ := bind_ok ran
  rw [(byteAhead_ok sixth).1] at ran
  obtain ⟨_, _, seventh, ran⟩ := bind_ok ran
  rw [(byteAhead_ok seventh).1] at ran
  obtain ⟨_, _, eighth, -⟩ := bind_ok ran
  exact (List.getElem?_eq_some_iff.mp (byteAhead_ok eighth).2).1

/-- Two different words behind the variable give two different results. -/
theorem eightBytes_ne (v : UInt32) : eightBytes v 0 ≠ eightBytes v 1 := by
  intro same
  have numbers := congrArg UInt64.toNat same
  rw [eightBytes_toNat, eightBytes_toNat] at numbers
  simp at numbers

end

section
variable (offset : Int) {m : Memory} {b : Blob}

/-- Bytes that are there between the length and the capacity, so that the blob is returned. -/
def Blob.spare (b : Blob) (m : Memory) : List UInt8 :=
  List.replicate (b.start + b.length - m.bb.buf.data.length).toNat 0

theorem Blob.Beyond.spare_length {root limit : Int} (beyond : b.Beyond m.bb.buf.data.length maxInt root limit) :
    (m.bb.buf.data.length : Int) + (b.spare m).length = b.start + b.length := by
  have far := beyond.beyond
  unfold Blob.spare
  rw [List.length_replicate]
  omega

theorem Blob.Beyond.room' {root limit : Int} (beyond : b.Beyond m.bb.buf.data.length maxInt root limit) :
    m.Room (b.spare m) := by
  have count := beyond.spare_length
  have room := beyond.room
  unfold Memory.Room
  omega

theorem Blob.Beyond.within {root limit : Int} (beyond : b.Beyond m.bb.buf.data.length maxInt root limit) :
    b.Beyond m.bb.buf.data.length (m.called (b.spare m) offset).capacity root limit := by
  have count := beyond.spare_length
  refine { beyond with room := ?_ }
  change b.start + b.length ≤ ((m.bb.buf.data.length + (b.spare m).length : Nat) : Int)
  omega

theorem Blob.Beyond.widen {spare : List UInt8} {root limit : Int} (room : m.Room spare)
    (beyond : b.Beyond m.bb.buf.data.length (m.called spare offset).capacity root limit) :
    b.Beyond m.bb.buf.data.length maxInt root limit := by
  have inside := beyond.room
  refine { beyond with room := ?_ }
  change b.start + b.length ≤ ((m.bb.buf.data.length + spare.length : Nat) : Int) at inside
  unfold Memory.Room at room
  omega

end

section
variable {offset : Int} {m : Memory}

theorem called_inside {α : Type} {read : Run α} {spare : List UInt8} {r : α} {m' : Memory} (begins : Begins read)
    (ran : read (m.called spare offset) = .ok r m') :
    (m.called spare offset).bb.offset ≤ (m.called spare offset).bb.buf.data.length := by
  have some := begins _ r m' ran
  unfold Memory.left at some
  omega

theorem fromOffset_run {α : Type} {read : Run α} {spare : List UInt8} {r : α} {m' : Memory} (nonneg : 0 ≤ offset)
    (ran : read (m.called spare offset) = .ok r m') : fromOffset offset read (m.spared spare) = .ok r m' := by
  unfold fromOffset
  rw [if_neg (by omega)]
  exact ran

theorem iobject_contained_iff : Call.iobject.Contained offset m ↔ ¬ Call.iobject.Escapes offset m := by
  constructor
  · rintro contained ⟨nonneg, b, found, beyond⟩
    obtain ⟨addr, obj, m', ran, -, -, place⟩ := readObject_escapes (m := m.called (b.spare m) offset) found (beyond.within offset)
    have inside := (contained (b.spare m) (fun _ => 0) _ m' beyond.room' (fromOffset_run nonneg ran)).1
    have far := beyond.beyond
    omega
  · intro stays
    apply contained_of_local (fun _ => rfl) readObject_local
    intro spare r m' room nonneg ran
    rcases readObject_bounded _ r m' (called_inside readObject_begins ran) ran with inside | ⟨b, _, _, found, beyond, -⟩
    · exact inside
    · exact absurd ⟨nonneg, b, found, beyond.widen offset room⟩ stays

/-- For `ReadRoot`, the root is where the call begins. -/
theorem root_contained_iff : Call.root.Contained offset m ↔ ¬ Call.root.Escapes offset m := by
  constructor
  · rintro contained ⟨nonneg, b, found, beyond⟩
    have here : ((m.called (b.spare m) offset).begunRead.bb.offsetRoot : Int) = offset := Int.toNat_of_nonneg nonneg
    obtain ⟨addr, obj, m', ran, -, -, place⟩ := readObject_escapes (m := (m.called (b.spare m) offset).begunRead) found
      (by rw [here]; exact beyond.within offset)
    have inside := (contained (b.spare m) (fun _ => 0) _ m' beyond.room' (fromOffset_run nonneg ran)).1
    have far := beyond.beyond
    omega
  · intro stays
    apply contained_of_local (fun _ => rfl) readRoot_local
    intro spare r m' room nonneg ran
    have ran : readObject (m.called spare offset).begunRead = .ok r m' := ran
    have here : ((m.called spare offset).begunRead.bb.offsetRoot : Int) = offset := Int.toNat_of_nonneg nonneg
    have some := readObject_begins _ r m' ran
    have start : (m.called spare offset).begunRead.bb.offset ≤ m.bb.buf.data.length := by
      unfold Memory.left at some
      change _ < m.bb.buf.data.length - _ at some
      omega
    rcases readObject_bounded _ r m' start ran with inside | ⟨b, _, _, found, beyond, -⟩
    · exact inside
    · rw [here] at beyond
      exact absurd ⟨nonneg, b, found, beyond.widen offset room⟩ stays

theorem readNullableString_ok {read : Run IObject} {s : NullableString} {m' : Memory}
    (ran : readNullableString read m = .ok s m') :
    ∃ v, read m = .ok v m' ∧ ∀ addr obj, v = .ptr addr → m'.heap[addr]? = some obj → obj.kind = .string := by
  obtain ⟨v, m₁, first, rest⟩ := bind_ok ran
  cases v with
  | nil =>
    cases rest
    exact ⟨.nil, first, fun addr obj other => by cases other⟩
  | typedNil kind => cases rest
  | ptr addr =>
    obtain ⟨obj, m₂, loaded, rest⟩ := bind_ok rest
    unfold load at loaded
    split at loaded
    · cases loaded
    · next found =>
      cases loaded
      cases obj with
      | string value =>
        cases rest
        refine ⟨.ptr addr, first, fun addr' obj' same found' => ?_⟩
        cases same
        rw [found] at found'
        cases found'
        rfl
      | _ => cases rest

theorem nullableString_contained_iff :
    Call.nullableString.Contained offset m ↔ ¬ Call.nullableString.Escapes offset m := by
  constructor
  · rintro contained ⟨nonneg, b, found, string, beyond⟩
    obtain ⟨addr, obj, m', ran, loaded, kind, place⟩ :=
      readObject_escapes (m := m.called (b.spare m) offset) found (beyond.within offset)
    rw [string] at kind
    obtain ⟨value, rfl⟩ : ∃ value, obj = .string value := by
      cases obj with
      | string value => exact ⟨value, rfl⟩
      | _ => exact absurd kind (by simp only [Obj.kind]; decide)
    have read : readNullableString readObject (m.called (b.spare m) offset) = .ok ⟨value, true⟩ m' :=
      bind_run ran (bind_run (load_found loaded) rfl)
    have inside := (contained (b.spare m) (fun _ => 0) _ m' beyond.room' (fromOffset_run nonneg read)).1
    have far := beyond.beyond
    omega
  · intro stays
    apply contained_of_local (fun _ => rfl) (readNullableString_local readObject_local)
    intro spare s m' room nonneg ran
    obtain ⟨v, ran, string⟩ := readNullableString_ok ran
    rcases readObject_bounded _ v m' (called_inside readObject_begins ran) ran with
      inside | ⟨b, addr, obj, found, beyond, pointer, loaded, kind⟩
    · exact inside
    · have one : b.typeId = 1 := by rw [← kind, string addr obj pointer loaded]; rfl
      exact absurd ⟨nonneg, b, found, one, beyond.widen offset room⟩ stays

/-- What is left of the buffer at an offset. -/
theorem called_unread (m : Memory) (spare : List UInt8) (offset : Int) :
    (m.called spare offset).unread.length = m.bb.buf.data.length - offset.toNat := by
  simp [Memory.unread, Memory.called, Memory.placed, Memory.spared]

theorem float64_contained_iff : (Call.value .float64).Contained offset m ↔ ¬ (Call.value .float64).Escapes offset m := by
  constructor
  · rintro contained ⟨nonneg, room, small⟩
    have none : m.Room [] := small
    have enough : 8 ≤ (m.called [] offset).unread.length := by
      rw [called_unread]
      omega
    obtain ⟨v, reads⟩ := readFloat64_run enough
    obtain ⟨_, again⟩ := contained [] (fun _ => 0) _ _ none (fromOffset_run nonneg (reads fun _ => 0))
    obtain ⟨m'', read, -, -⟩ := again [] (fun _ => 1) none
    have both := (fromOffset_run nonneg (reads fun _ => 1)).symm.trans read
    injection both with same
    exact eightBytes_ne v same.symm
  · intro stays spare behind r m' room ran
    obtain ⟨nonneg, ran⟩ := fromOffset_ok ran
    have enough : 8 ≤ (m.called spare offset).unread.length := readFloat64_ok ran
    rw [called_unread] at enough
    unfold Memory.Room at room
    exact absurd ⟨nonneg, by omega, by omega⟩ stays

theorem nullableFloat64_contained_iff :
    (Call.value .nullableFloat64).Contained offset m ↔ ¬ (Call.value .nullableFloat64).Escapes offset m := by
  constructor
  · rintro contained ⟨nonneg, ⟨has, found, positive⟩, room, small⟩
    have none : m.Room [] := small
    have flag : readBool (m.called [] offset) = .ok true ((m.called [] offset).advanced 1) := by
      have byte : nextByte (m.called [] offset) = .ok has ((m.called [] offset).advanced 1) := by
        unfold nextByte
        rw [show (m.called [] offset).bb.buf.data[(m.called [] offset).bb.offset]? = some has from found]
        rfl
      refine bind_run byte ?_
      rw [decide_eq_true positive]
      rfl
    have enough : 8 ≤ ((m.called [] offset).advanced 1).unread.length := by
      have left := called_unread m [] offset
      simp only [Memory.unread, Memory.advanced, List.length_drop] at left ⊢
      omega
    obtain ⟨v, reads⟩ := readFloat64_run enough
    have run (behind : Memory → UInt32) := fromOffset_run nonneg
      (show readNullableFloat64 behind (m.called [] offset) = _ from bind_run flag (bind_run (reads behind) rfl))
    obtain ⟨_, again⟩ := contained [] (fun _ => 0) _ _ none (run fun _ => 0)
    obtain ⟨m'', read, -, -⟩ := again [] (fun _ => 1) none
    have both := (run fun _ => 1).symm.trans read
    injection both with same
    exact eightBytes_ne v (congrArg Nullable.value same).symm
  · intro stays spare behind r m' room ran
    obtain ⟨nonneg, ran⟩ := fromOffset_ok ran
    obtain ⟨has, m₁, flag, rest⟩ := bind_ok ran
    obtain ⟨b, m₂, byte, last⟩ := bind_ok flag
    cases last
    obtain ⟨tail, input, rfl⟩ := nextByte_ok byte
    cases positive : decide (b > 0) with
    | true =>
      rw [positive] at rest
      obtain ⟨d, m₂, read, -⟩ := bind_ok rest
      have found : m.bb.buf.data[offset.toNat]? = some b := by
        rw [← List.head?_drop]
        exact congrArg List.head? input
      have enough : 8 ≤ (m.bb.buf.data.drop (offset.toNat + 1)).length := readFloat64_ok read
      rw [List.length_drop] at enough
      unfold Memory.Room at room
      exact absurd ⟨nonneg, ⟨b, found, of_decide_eq_true positive⟩, by omega, by omega⟩ stays
    | false =>
      rw [positive] at rest
      cases rest
      refine ⟨offset_lt_of_unread input, fun spare' behind' _ => ?_⟩
      have byte' : nextByte (m.called spare' offset) = .ok b ((m.called spare' offset).advanced 1) := nextByte_eq input
      have flag' : readBool (m.called spare' offset) = .ok false ((m.called spare' offset).advanced 1) := by
        refine bind_run byte' ?_
        rw [positive]
        rfl
      exact ⟨_, fromOffset_run nonneg (bind_run flag' rfl), rfl, rfl⟩

end

/-- The calls are contained if and only if they do not read a string or a buffer that is claimed to be longer than
what is left, as the last thing, nor a `float64`. -/
theorem call_contained_iff (c : Call) (offset : Int) (m : Memory) : c.Contained offset m ↔ ¬ c.Escapes offset m := by
  have stays {c : Call} (contained : c.Contained offset m) (never : c.Escapes offset m → False) :
      c.Contained offset m ↔ ¬ c.Escapes offset m := ⟨fun _ => never, fun _ => contained⟩
  cases c with
  | value t =>
    by_cases float64 : t = .float64
    · subst float64
      exact float64_contained_iff
    by_cases nullableFloat64 : t = .nullableFloat64
    · subst nullableFloat64
      exact nullableFloat64_contained_iff
    have same (behind : Memory → UInt32) : (Call.value t).method behind = t.read fun _ => 0 := by
      cases t with
      | float64 => exact absurd rfl float64
      | nullableFloat64 => exact absurd rfl nullableFloat64
      | _ => rfl
    refine stays (contained_of_confined same (confined_value _ float64 nullableFloat64)) ?_
    rintro ⟨-, escapes⟩
    cases t with
    | float64 => exact float64 rfl
    | nullableFloat64 => exact nullableFloat64 rfl
    | _ => exact escapes
  | varUInt64 =>
    refine stays (c := .varUInt64) ?_ fun escapes => escapes.2
    exact contained_of_confined (fun _ => rfl) confined_varUInt64
  | varInt64 =>
    have confined : Confined readVarInt64 := confined_varUInt64.map _
    refine stays (c := .varInt64) ?_ fun escapes => escapes.2
    exact contained_of_confined (fun _ => rfl) confined
  | length =>
    have confined : Confined readLength := confined_varUInt64.map _
    refine stays (c := .length) ?_ fun escapes => escapes.2
    exact contained_of_confined (fun _ => rfl) confined
  | nullableString => exact nullableString_contained_iff
  | iobject => exact iobject_contained_iff
  | root => exact root_contained_iff
  | pkgFoo =>
    refine stays (c := .pkgFoo) ?_ fun escapes => escapes.2
    exact contained_of_confined (fun _ => rfl) (confined_asserted (by decide))
  | listInt32 =>
    refine stays (c := .listInt32) ?_ fun escapes => escapes.2
    exact contained_of_confined (fun _ => rfl) (confined_asserted (by decide))
  | pkgFooExt1 =>
    refine stays (c := .pkgFooExt1) ?_ fun escapes => escapes.2
    exact contained_of_confined (fun _ => rfl) (confined_asserted (by decide))
  | listPkgFooExt1 =>
    refine stays (c := .listPkgFooExt1) ?_ fun escapes => escapes.2
    exact contained_of_confined (fun _ => rfl) (confined_asserted (by decide))

/-- A string of one byte that is not there: the root is read with the byte behind the length. -/
theorem root_escapes : ¬ Call.root.Contained 0 ⟨[], { buf := { data := [1, 1, 1] } }⟩ := by
  intro contained
  have room : Memory.Room ⟨[], { buf := { data := [1, 1, 1] } }⟩ [65] := by
    unfold Memory.Room
    decide
  have inside := (contained [65] (fun _ => 0) _ _ room rfl).1
  exact absurd inside (by decide)

end Xxlib.Go
