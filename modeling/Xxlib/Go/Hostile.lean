import Xxlib.Go.Locality
import Xxlib.Go.RoundTrip

/-! Decoding of bytes that an adversary has chosen: `TryReadRoot`, and the functions of that
name in `sim_pkg_gen.go`.

Whether they come to an end is a question of how deep objects are nested and of how long the
loops over claimed element counts run. Both have a budget here. When it is exhausted the
program goes on for longer than that: this is no panic, and nothing recovers from it.
-/

set_option autoImplicit false

namespace Xxlib.Go

open Lib

/-! ## With a budget -/

def fromBBufferWithin (rounds : Nat) (readIObject : Run IObject) : Kind → Run Obj
  | .listInt32 => return .listInt32 (← collectWithin .fuel readInt32 rounds (← readCount).toNat)
  | .listFooExt1 =>
      return .listFooExt1 (← collectWithin .fuel (readPkgFooExt1 readIObject) rounds (← readCount).toNat)
  | kind => fromBBuffer readIObject kind

def readIObjectWithin (rounds : Nat) : Nat → Run IObject
  | 0 => raise .fuel
  | depth + 1 => readIObjectWith (fromBBufferWithin rounds (readIObjectWithin rounds depth))

def readRootWithin (budget : Nat) : Run IObject := do
  beginRead
  readIObjectWithin budget budget

/-- A function with `recover` in a deferred call: a panic ends it with the results that it has then. -/
def recovering {α : Type} (results : α) (body : Run α) : Run α := fun m =>
  match body m with
  | .error .fuel m' => .error .fuel m'
  | .error _ m' => .ok results m'
  | .ok r m' => .ok r m'

def tryReadRoot (budget : Nat) (offset : Int) : Run IObject :=
  recovering .nil (fromOffset offset (readRootWithin budget))

/-- The result `r` and `ok` of the generated functions. An object of another type fails the type assertion. -/
def tryReadRootAs (kinds : List Kind) (budget : Nat) (offset : Int) : Run (IObject × Bool) :=
  recovering (.nil, false) do
    let v ← fromOffset offset (readRootWithin budget)
    let r ← assertKind kinds v
    return (r, true)

def tryReadRootPkgFoo : Nat → Int → Run (IObject × Bool) := tryReadRootAs fooKinds

def tryReadRootListInt32 : Nat → Int → Run (IObject × Bool) := tryReadRootAs [.listInt32]

def tryReadRootPkgFooExt1 : Nat → Int → Run (IObject × Bool) := tryReadRootAs [.fooExt1]

def tryReadRootListPkgFooExt1 : Nat → Int → Run (IObject × Bool) := tryReadRootAs [.listFooExt1]

/-! ## What a reader leaves -/

/-- How many bytes are left of the buffer. -/
def Memory.left (m : Memory) : Nat := m.bb.buf.data.length - m.bb.offset

section
variable {α β : Type} {read : Run α}

theorem left_le (reads : (tape True).Local read) {m m' : Memory} {x : α} (ran : read m = .ok x m') :
    m'.left ≤ m.left := by
  obtain ⟨used, takes, -⟩ := reads m x m' ran
  unfold Memory.left
  rw [takes.buf, takes.offset]
  omega

/-- The reader begins with a byte of the buffer. -/
def Begins (read : Run α) : Prop := ∀ m x m', read m = .ok x m' → m'.left < m.left

theorem Begins.bind {next : α → Run β} (begins : Begins read)
    (rest : ∀ x m y m', next x m = .ok y m' → m'.left ≤ m.left) : Begins (read >>= next) := by
  intro m y m' ran
  obtain ⟨x, m₁, first, second⟩ := bind_ok ran
  exact Nat.lt_of_le_of_lt (rest x m₁ y m' second) (begins m x m₁ first)

theorem Begins.map (begins : Begins read) (f : α → β) : Begins (do return f (← read)) := by
  apply begins.bind
  intro x m y m' ran
  cases ran
  exact Nat.le_refl _

theorem readVarUInt64_begins : Begins readVarUInt64 := by
  intro m v m' ran
  obtain ⟨n, length, found, -, -, rfl⟩ := readVarUInt64_ok ran
  obtain ⟨some, short⟩ := Varint.decode_length found
  simp only [Memory.unread, List.length_drop] at short
  simp only [Memory.left, Memory.advanced]
  omega

theorem readUInt16_begins : Begins readUInt16 := readVarUInt64_begins.map _

theorem readInt32_begins : Begins readInt32 := (readVarUInt64_begins.map _).map _

theorem readIObject_begins (fuel : Nat) : Begins (readIObject fuel) := by
  cases fuel with
  | zero =>
    intro m x m' ran
    cases ran
  | succ fuel =>
    rw [readIObject_succ]
    apply readUInt16_begins.bind
    intro typeId m v m' ran
    exact left_le (readTyped_local (fun kind => fromBBuffer_local (readIObject_local fuel) kind) typeId) ran

end

/-! ## Within the budget -/

/-- While not more than `n` bytes are left. -/
abbrev Ends {α : Type} (n : Nat) (read read' : Run α) : Prop := Within Memory.left Panic.fuel n read read'

section
variable {n : Nat}

theorem readVarUInt64Loop_ne_fuel (buf : List UInt8) (fuel offset : Nat) (shift r : UInt64) :
    readVarUInt64Loop buf fuel offset shift r ≠ .error .fuel := by
  induction fuel generalizing offset shift r with
  | zero =>
    intro failed
    cases failed
  | succ fuel ih =>
    unfold readVarUInt64Loop
    split
    · intro failed
      cases failed
    · simp only
      split
      · intro failed
        cases failed
      · exact ih _ _ _

theorem readVarUInt64_ends : Ends n readVarUInt64 readVarUInt64 := by
  apply Within.same
  intro m m' failed
  unfold readVarUInt64 at failed
  split at failed
  · next loop =>
    cases failed
    exact readVarUInt64Loop_ne_fuel _ _ _ _ _ loop
  · cases failed

theorem nextByte_ends : Ends n nextByte nextByte := by
  apply Within.same
  intro m m' failed
  unfold nextByte at failed
  split at failed <;> cases failed

theorem nextBytes_ends (bufLen : Int) : Ends n (nextBytes bufLen) (nextBytes bufLen) := by
  apply Within.same
  intro m m' failed
  unfold nextBytes at failed
  simp only at failed
  split at failed <;> cases failed

theorem load_ends (addr : Addr) : Ends n (load addr) (load addr) := by
  apply Within.same
  intro m m' failed
  unfold load at failed
  split at failed <;> cases failed

theorem get_ends : Ends n (get : Run Memory) get := by
  apply Within.same
  intro m m' failed
  cases failed

theorem raise_ends {α : Type} {panic : Panic} (other : panic ≠ .fuel) : Ends n (raise panic : Run α) (raise panic) := by
  apply Within.same
  intro m m' failed
  cases failed
  exact other rfl

theorem readLength_ends : Ends n readLength readLength := readVarUInt64_ends.map _

theorem readInt32_ends : Ends n readInt32 readInt32 := (readVarUInt64_ends.map _).map _

theorem readUInt16_ends : Ends n readUInt16 readUInt16 := readVarUInt64_ends.map _

theorem get_shrinks (m x m' : Memory) (ran : (get : Run Memory) m = .ok x m') : m'.left ≤ m.left := by
  cases ran
  exact Nat.le_refl _

theorem readCount_ends : Ends n readCount readCount := by
  apply readLength_ends.bind fun m x m' ran => left_le readLength_local ran
  intro count
  apply get_ends.bind get_shrinks
  intro m
  dsimp only
  split
  · exact raise_ends (by decide)
  · exact .pure _

theorem readNullableInt32_ends : Ends n readNullableInt32 readNullableInt32 := by
  apply (nextByte_ends.map _).bind fun m x m' ran => left_le readBool_local ran
  intro has
  split
  · exact readInt32_ends.map _
  · exact .pure _

theorem assertKind_ends (kinds : List Kind) (v : IObject) : Ends n (assertKind kinds v) (assertKind kinds v) := by
  cases v with
  | nil => exact .pure _
  | typedNil kind =>
    change Ends n (if kind ∈ kinds then _ else _) (if kind ∈ kinds then _ else _)
    split
    · exact .pure _
    · exact raise_ends (by decide)
  | ptr addr =>
    apply (load_ends addr).bind fun m x m' ran => left_le (load_local addr) ran
    intro obj
    split
    · exact .pure _
    · exact raise_ends (by decide)

variable {read : Run IObject} {fuel : Nat} (reads : Ends n read (readIObject fuel))
include reads

theorem asserted_ends (kinds : List Kind) :
    Ends n (do assertKind kinds (← read)) (do assertKind kinds (← readIObject fuel)) :=
  reads.bind (fun _ _ _ ran => left_le (readIObject_local fuel) ran) fun v => assertKind_ends kinds v

theorem readNullableString_ends : Ends n (readNullableString read) (readNullableString (readIObject fuel)) := by
  apply reads.bind fun _ _ _ ran => left_le (readIObject_local fuel) ran
  intro v
  cases v with
  | nil => exact .pure _
  | typedNil kind => exact raise_ends (by decide)
  | ptr addr =>
    apply (load_ends addr).bind fun m x m' ran => left_le (load_local addr) ran
    intro obj
    cases obj with
    | string value => exact .pure _
    | _ => exact raise_ends (by decide)

theorem readFoo_ends : Ends n (readFoo read) (readFoo (readIObject fuel)) := by
  apply readInt32_ends.bind fun _ _ _ ran => left_le readInt32_local ran
  intro id
  apply (readNullableString_ends reads).bind
    fun _ _ _ ran => left_le (readNullableString_local (readIObject_local fuel)) ran
  intro name
  apply readNullableInt32_ends.bind fun _ _ _ ran => left_le readNullableInt32_local ran
  intro age
  exact (asserted_ends reads fooKinds).map _

theorem fromBBuffer_ends {rounds : Nat} (enough : n < rounds) (kind : Kind) :
    Ends n (fromBBufferWithin rounds read kind) (fromBBuffer (readIObject fuel) kind) := by
  have count := readCount_ends (n := n)
  have shrinks (m : Memory) (x : Int) (m' : Memory) (ran : readCount m = .ok x m') :=
    left_le readCount_local ran
  cases kind with
  | string =>
    apply readLength_ends.bind fun m x m' ran => left_le readLength_local ran
    intro bufLen
    exact (nextBytes_ends bufLen).map _
  | bbuffer =>
    apply count.bind shrinks
    intro bufLen
    exact (nextBytes_ends bufLen).map _
  | foo => exact (readFoo_ends reads).map _
  | listInt32 =>
    apply count.bind shrinks
    intro count
    exact (readInt32_ends.collect readInt32_begins enough _).map _
  | fooExt1 =>
    apply (readFoo_ends reads).bind fun _ _ _ ran => left_le (readFoo_local (readIObject_local fuel)) ran
    intro foo
    exact (asserted_ends reads [.listInt32]).map _
  | listFooExt1 =>
    apply count.bind shrinks
    intro count
    have begins : Begins (readPkgFooExt1 (readIObject fuel)) := by
      apply (readIObject_begins fuel).bind
      intro v m y m' ran
      exact left_le (assertKind_local [.fooExt1] v) ran
    exact ((asserted_ends reads [.fooExt1]).collect begins enough _).map _

end

theorem readKnown_ends {n : Nat} (typeId : UInt16) (found : Option Addr) :
    Ends n (readKnown typeId found) (readKnown typeId found) := by
  cases found with
  | none => exact raise_ends (by decide)
  | some addr =>
    apply (load_ends addr).bind fun m x m' ran => left_le (load_local addr) ran
    intro obj
    split
    · exact raise_ends (by decide)
    · exact .pure _

theorem createByTypeId_ends {n : Nat} (typeId : UInt16) : Ends n (createByTypeId typeId) (createByTypeId typeId) := by
  unfold createByTypeId
  split
  · exact Within.same fun m m' failed => by cases failed
  · exact raise_ends (by decide)

section
variable {n : Nat} {make make' : Kind → Run Obj} (reads : ∀ kind, Ends n (make kind) (make' kind))
include reads

theorem readNew_ends (typeId : UInt16) (ptrOffset : Int) :
    Ends n (readNew make typeId ptrOffset) (readNew make' typeId ptrOffset) := by
  apply (createByTypeId_ends typeId).bind fun m x m' ran => left_le (createByTypeId_local typeId) ran
  intro created
  have noted : Ends n (modify fun m : Memory =>
      { m with bb := { m.bb with idxStore := (ptrOffset, created.1) :: m.bb.idxStore } } : Run Unit) _ :=
    Within.same fun m m' failed => by cases failed
  apply noted.bind fun m x m' ran => left_le (noteIdx_local ptrOffset created.1) ran
  intro _
  exact (reads created.2).bind_states fun m obj m' _ _ => ⟨rfl, fun m'' failed => by cases failed⟩

theorem readPointer_ends (typeId : UInt16) (offset : Int) :
    Ends n (readPointer make typeId offset) (readPointer make' typeId offset) := by
  apply readLength_ends.bind fun m x m' ran => left_le readLength_local ran
  intro ptrOffset
  split
  · exact readNew_ends reads typeId ptrOffset
  · exact get_ends.bind get_shrinks fun m => readKnown_ends typeId _

theorem readTyped_ends (typeId : UInt16) : Ends n (readTyped make typeId) (readTyped make' typeId) := by
  unfold readTyped
  split
  · exact .pure _
  · exact get_ends.bind get_shrinks fun m => readPointer_ends reads typeId _

end

/-- Objects inside an object stand behind its type id, so that fewer bytes are left for them. -/
theorem readIObjectWithin_ends {n rounds : Nat} (enough : n < rounds) {depth fuel : Nat} (deep : n < depth)
    (fuels : n < fuel) : Ends n (readIObjectWithin rounds depth) (readIObject fuel) := by
  induction depth generalizing n fuel with
  | zero => omega
  | succ depth ih =>
    obtain ⟨fuel, rfl⟩ : ∃ k, fuel = k + 1 := ⟨fuel - 1, by omega⟩
    rw [readIObject_succ]
    apply readUInt16_ends.bind_less readUInt16_begins
    intro typeId k less
    apply readTyped_ends
    intro kind
    exact fromBBuffer_ends (ih (by omega) (by omega) (by omega)) (by omega) kind

/-- The depth that `ReadRoot` follows suffices. -/
theorem readRootWithin_settles {m : Memory} {budget : Nat} (enough : m.bb.buf.data.length < budget) :
    Settles .fuel m (readRootWithin budget) readRoot := by
  have few : m.begunRead.left ≤ m.bb.buf.data.length := Nat.sub_le _ _
  have followed : m.bb.buf.data.length < m.bb.buf.data.length + m.bb.buf.spare.length + 1 := by omega
  have settles := readIObjectWithin_ends enough enough followed m.begunRead few
  unfold Settles
  rw [readRoot_eq]
  exact settles

/-- More depth than is needed changes nothing. -/
theorem readIObject_fuel {m : Memory} {fuel fuel' : Nat} (enough : m.left < fuel) (enough' : m.left < fuel') :
    readIObject fuel m = readIObject fuel' m := by
  have first := readIObjectWithin_ends (Nat.lt_succ_self _) enough' enough m (Nat.le_refl _)
  have second := readIObjectWithin_ends (Nat.lt_succ_self _) enough' enough' m (Nat.le_refl _)
  exact first.1.symm.trans second.1

/-- A call of `ReadIObject`, followed as deep as there are bytes. -/
def readObject : Run IObject := do
  let buf := (← get).bb.buf
  readIObject (buf.data.length + buf.spare.length + 1)

theorem readObject_eq {m : Memory} {fuel : Nat} (enough : m.left < fuel) : readObject m = readIObject fuel m := by
  change readIObject (m.bb.buf.data.length + m.bb.buf.spare.length + 1) m = readIObject fuel m
  apply readIObject_fuel _ enough
  have few : m.left ≤ m.bb.buf.data.length := Nat.sub_le _ _
  omega

theorem readObject_local : (tape True).Local readObject := by
  intro t v t' ran
  have here := ran
  rw [readObject_eq (Nat.lt_succ_self _)] at here
  obtain ⟨used, takes, -⟩ := readIObject_local _ _ _ _ here
  refine ⟨used, takes, fun u tail alike input => ?_⟩
  -- both are read with a depth that suffices for either
  rw [readObject_eq (Nat.lt_succ_of_le (Nat.le_add_right t.left u.left))] at ran
  obtain ⟨used', takes', stands⟩ := readIObject_local _ _ _ _ ran
  obtain rfl : used = used' := by
    have count := takes.offset.symm.trans takes'.offset
    exact List.append_inj_left (takes.bytes.symm.trans takes'.bytes) (by omega)
  obtain ⟨u', read, taken, alike'⟩ := stands u tail alike input
  refine ⟨u', ?_, taken, alike'⟩
  rw [readObject_eq (Nat.lt_succ_of_le (Nat.le_add_left u.left t.left)), read]

theorem readRoot_local {rooted : Prop} : (tape rooted).Local readRoot := by
  intro t v t' ran
  have ran : readObject t.begunRead = .ok v t' := ran
  obtain ⟨used, takes, stands⟩ := readObject_local _ _ _ ran
  refine ⟨used, ⟨takes.buf, takes.offset, takes.bytes⟩, fun u tail alike input => ?_⟩
  have begun : Alike True t.begunRead u.begunRead :=
    ⟨alike.heap, alike.limit, alike.inside, fun _ => rfl, fun _ => by simp [Memory.begunRead]⟩
  obtain ⟨u', read, taken, alike'⟩ := stands u.begunRead tail begun input
  refine ⟨u', read, ⟨taken.buf, taken.offset, taken.bytes⟩, ?_⟩
  exact ⟨alike'.heap, alike'.limit, alike'.inside, fun _ => alike'.store trivial, fun _ => alike'.place trivial⟩

/-! ## The functions that recover -/

inductive TryRead where
  | root
  | pkgFoo
  | listInt32
  | pkgFooExt1
  | listPkgFooExt1

namespace TryRead

abbrev Result : TryRead → Type
  | root => IObject
  | _ => IObject × Bool

def method (budget : Nat) (offset : Int) : (c : TryRead) → Run c.Result
  | root => tryReadRoot budget offset
  | pkgFoo => tryReadRootPkgFoo budget offset
  | listInt32 => tryReadRootListInt32 budget offset
  | pkgFooExt1 => tryReadRootPkgFooExt1 budget offset
  | listPkgFooExt1 => tryReadRootListPkgFooExt1 budget offset

end TryRead

section
variable {α : Type} {results : α}

/-- What does not exhaust the budget returns. -/
theorem recovering_returns (results : α) {body : Run α} {m : Memory} (never : ∀ m', body m ≠ .error .fuel m') :
    ∃ r m', recovering results body m = .ok r m' := by
  unfold recovering
  cases ran : body m with
  | ok r m' => exact ⟨r, m', rfl⟩
  | error panic m' =>
    cases panic with
    | fuel => exact absurd ran (never m')
    | _ => exact ⟨results, m', rfl⟩

/-- A function that recovers comes to the same end with every budget that suffices. -/
theorem recovering_settles (results : α) (body : Nat → Run α) (settled : Run α) {m : Memory} {least : Nat}
    (settles : ∀ budget, least < budget → Settles .fuel m (body budget) settled) :
    ∃ r m', ∀ more, recovering results (body (least + 1 + more)) m = .ok r m' := by
  have never (m' : Memory) : settled m ≠ .error .fuel m' := by
    obtain ⟨same, never⟩ := settles (least + 1) (by omega)
    rw [← same]
    exact never m'
  obtain ⟨r, m', returned⟩ := recovering_returns results never
  refine ⟨r, m', fun more => ?_⟩
  unfold recovering at returned ⊢
  rw [(settles (least + 1 + more) (by omega)).1]
  exact returned

end

theorem rootAt_settles (offset : Int) (m : Memory) (budget : Nat) (enough : m.bb.buf.data.length < budget) :
    Settles .fuel m (fromOffset offset (readRootWithin budget)) (fromOffset offset readRoot) := by
  unfold Settles fromOffset
  split
  · exact ⟨rfl, fun m' failed => by cases failed⟩
  · exact readRootWithin_settles (m := m.placed offset.toNat) enough

theorem tryReadRootAs_settles (kinds : List Kind) (offset : Int) (m : Memory) :
    ∃ r m', ∀ more, tryReadRootAs kinds (m.bb.buf.data.length + 1 + more) offset m = .ok r m' := by
  apply recovering_settles (.nil, false)
    (fun budget => do
      let v ← fromOffset offset (readRootWithin budget)
      let r ← assertKind kinds v
      return (r, true))
    (do
      let v ← fromOffset offset readRoot
      let r ← assertKind kinds v
      return (r, true))
  intro budget enough
  apply (rootAt_settles offset m budget enough).bind
  intro v m' _
  exact ((assertKind_ends kinds v).map fun r => (r, true)) m' (Nat.le_refl _)

/-- Whatever the bytes claim, the functions return: with every budget from the number of bytes on, and each time
with the same result. -/
theorem tryRead_returns (c : TryRead) (offset : Int) (m : Memory) :
    ∃ r m', ∀ more, c.method (m.bb.buf.data.length + 1 + more) offset m = .ok r m' := by
  cases c with
  | root => exact recovering_settles .nil _ _ (rootAt_settles offset m)
  | pkgFoo => exact tryReadRootAs_settles fooKinds offset m
  | listInt32 => exact tryReadRootAs_settles [.listInt32] offset m
  | pkgFooExt1 => exact tryReadRootAs_settles [.fooExt1] offset m
  | listPkgFooExt1 => exact tryReadRootAs_settles [.listFooExt1] offset m

end Xxlib.Go
