import Xxlib.Uv4.Objects
import Xxlib.Uv4.VarintCodec

/-! How lists, strings and buffers are read from bytes that nobody vouches for (`xx_list.hpp`, `xx_bbuffer.hpp`).

A block of elements is copied after one check of its length. What is done with the bytes is left out, and the memory for
the elements is there. A `size_t` has 64 bits.
-/

set_option autoImplicit false

namespace Xxlib.Uv4.Containers

open Lib

/-! ## Memory -/

/-- The buffer that is read, with the limit that it sets for lengths. -/
structure Source extends Input where
  readLengthLimit : Nat := 0
  word : dataLen < 2 ^ 64

/-- Elements that are copied at once. -/
inductive BlockType where
  | byte | float
  deriving DecidableEq

def BlockType.size : BlockType → Nat
  | .byte => 1
  | .float => 4

/-- A copy of `len` elements, from `offset` on. -/
structure Copy where
  type : BlockType
  offset : Nat
  len : Nat
  deriving DecidableEq

def Copy.bytes (c : Copy) : Nat := c.len * c.type.size % 2 ^ 64

/-- `idxStore` knows the types of the objects that have been read. -/
structure State where
  cursor : Cursor
  offsetRoot : Nat := 0
  idxStore : Nat → Option UInt16 := fun _ => none
  copies : List Copy := []

abbrev Work := EStateM Fault State

/-- `VarRead7` -/
def varRead (signedChar : Bool) (src : Source) (w : Width) : Work Nat := fun s =>
  match w.varRead7 signedChar src.toInput s.cursor with
  | .ok n c => .ok n { s with cursor := c }
  | .error r c => .error (.code r) { s with cursor := c }

def State.copied (s : State) (copy : Copy) : State :=
  { s with
    cursor := ⟨(copy.offset + copy.bytes) % 2 ^ 64, ⟨copy.offset, copy.bytes⟩ :: s.cursor.seen⟩
    copies := copy :: s.copies }

/-- `memcpy` of the next elements. -/
def memcpy (type : BlockType) (len : Nat) : Work Unit := modify fun s => s.copied ⟨type, s.cursor.offset, len⟩

section
variable (signedChar : Bool) (src : Source)

/-- The check of a length in elements, as the sum with the offset is computed. -/
def checkEnd (short : Int) (len : Nat) : Work Unit := fun s =>
  if (s.cursor.offset + len) % 2 ^ 64 > src.dataLen then .error (.code short) s else .ok () s

def checkLimit (len : Nat) : Work Unit :=
  if src.readLengthLimit ≠ 0 ∧ len > src.readLengthLimit then throw (.code (-1)) else pure ()

/-- A value that is copied as it is. -/
def readFixed (size : Nat) : Work Unit := do
  checkEnd src (-1) size
  memcpy .byte size

/-! ## Objects -/

/-- The types of elements and of members. -/
inductive Element where
  | byte
  | float
  | integer (w : Width)
  | ptr (base : UInt16)

/-- What `creators` can make: a list, of which a `String` and a `BBuffer` are cases, or an object that reads its
members one by one. -/
inductive Class where
  | list (element : Element)
  | user (members : List Element)

/-- What `Register` has told, and what `IsBaseOf` answers, where no answer means that it goes round for ever. -/
structure Registry where
  creators : UInt16 → Option Class
  isBaseOf : UInt16 → UInt16 → Option Bool

/-- `BytesFunc<T>::ReadFrom`. The sign of an integer changes nothing about the bytes. -/
def readElement (readPtr : UInt16 → Work Unit) : Element → Work Unit
  | .byte => readFixed src 1
  | .float => readFixed src 4
  | .integer w => do let _ ← varRead signedChar src w
  | .ptr base => readPtr base

/-- What follows a length: the block, or one element after the other. -/
def readElements (readPtr : UInt16 → Work Unit) (len : Nat) : Element → Work Unit
  | .byte => memcpy .byte len
  | .float => memcpy .float len
  | .integer w => times (readElement signedChar src readPtr (.integer w)) len
  | .ptr base => times (readElement signedChar src readPtr (.ptr base)) len

/-- `List<T>::FromBBuffer` -/
def readList (readPtr : UInt16 → Work Unit) (element : Element) : Work Unit := do
  let len ← varRead signedChar src .w64
  checkLimit src len
  checkEnd src (-2) len
  if len = 0 then return
  readElements signedChar src readPtr len element

/-- The constructors from a `BBuffer`. -/
def readObject (readPtr : UInt16 → Work Unit) : Class → Work Unit
  | .list element => readList signedChar src readPtr element
  | .user members => members.forM (readElement signedChar src readPtr)

/-- An entry that is there already stays. -/
def State.published (s : State) (ptrOffset : Nat) (typeId : UInt16) : State :=
  if (s.idxStore ptrOffset).isSome then s
  else { s with idxStore := Function.update s.idxStore ptrOffset (some typeId) }

def State.removed (s : State) (ptrOffset : Nat) : State :=
  { s with idxStore := Function.update s.idxStore ptrOffset none }

/-- The function that `Register` puts into `creators`, and the code for what it does not make. -/
def create (readPtr : UInt16 → Work Unit) (ptrOffset : Nat) (typeId : UInt16) (T : Class) : Work Unit := fun s =>
  match readObject signedChar src readPtr T (s.published ptrOffset typeId) with
  | .error (.code _) s => .error (.code (-3)) (s.removed ptrOffset)
  | result => result

/-- `IsBaseOf`, and the code for another type. -/
def checkBase (registry : Registry) (base typeId : UInt16) : Work Unit :=
  match registry.isBaseOf base typeId with
  | none => throw .endless
  | some false => throw (.code (-2))
  | some true => pure ()

/-- `ReadPtr`. `fuel` bounds how deep objects nest. -/
def readPtr (registry : Registry) : Nat → UInt16 → Work Unit
  | 0, _ => throw .endless
  | fuel + 1, base => do
      let tid := UInt16.ofNat (← varRead signedChar src .w16)
      if tid = 0 then return
      else
        match registry.creators tid with
        | none => throw (.code (-5))
        | some T => do
            let s ← get
            let ptrOffset ← varRead signedChar src .w64
            if ptrOffset = (s.cursor.offset + (2 ^ 64 - s.offsetRoot)) % 2 ^ 64 then
              checkBase registry base tid
              create signedChar src (readPtr registry fuel) ptrOffset tid T
            else
              match (← get).idxStore ptrOffset with
              | none => throw (.code (-4))
              | some typeId => checkBase registry base typeId

/-! ## Containers -/

inductive Container where
  | list (element : Element)
  | string
  | bbuffer

/-- `FromBBuffer`. A `String` is a list of `char`. The length of a `BBuffer` is a `uint32_t`. -/
def fromBBuffer (registry : Registry) (fuel : Nat) : Container → Work Unit
  | .list element => readList signedChar src (readPtr signedChar src registry fuel) element
  | .string => readList signedChar src (readPtr signedChar src registry fuel) .byte
  | .bbuffer => do
      let len ← varRead signedChar src .w32
      checkLimit src len
      checkEnd src (-2) len
      if len = 0 then return
      memcpy .byte len

end

/-! ## Copies that fit -/

section
variable (src : Source)

/-- The sum in the check of a block of bytes is not cut off. Of floats there are four times as many bytes, which no check
has looked at. -/
def Copy.Fits (c : Copy) : Prop :=
  match c.type with
  | .byte => c.offset + c.len < 2 ^ 64
  | .float => c.offset + c.bytes ≤ src.dataLen

def State.Fitting (s : State) : Prop := ∀ c ∈ s.copies, c.Fits src

/-- Nothing was read from behind the data, and the offset is not behind them. -/
structure State.Inside (s : State) : Prop where
  offset : s.cursor.offset ≤ src.dataLen
  seen : ∀ x ∈ s.cursor.seen, x.Below src.dataLen

/-- Every copy has fitted, or one has not and was seen to read from behind the data. -/
def State.Tells (s : State) : Prop := Told (s.Inside src) (∀ x ∈ s.cursor.seen, x.Below src.dataLen) (s.Fitting src)

abbrev Upholds {α : Type} (x : Work α) : Prop := Keeps (State.Tells src) (fun _ => State.Tells src) x

end

section
variable {signedChar : Bool} {src : Source} {s s' : State}

theorem State.Tells.inside_iff (tells : s.Tells src) : s.Inside src ↔ s.Fitting src :=
  tells.iff id fun inside => inside.seen

/-- Where the buffer is read and what is copied is all that counts. -/
theorem State.Tells.same (tells : s.Tells src) (cursor : s'.cursor = s.cursor) (copies : s'.copies = s.copies) :
    s'.Tells src := by
  unfold State.Tells State.Fitting at tells ⊢
  rw [cursor, copies]
  rcases tells with ⟨inside, fitting⟩ | broken
  · refine .inl ⟨⟨?_, ?_⟩, fitting⟩
    · rw [cursor]
      exact inside.offset
    · rw [cursor]
      exact inside.seen
  · exact .inr broken

/-- A reader moves on within the data. -/
theorem State.Tells.moved {c : Cursor} {seen : List Span} (tells : s.Tells src) (below : ∀ x ∈ seen, x.Below src.dataLen)
    (trace : c.seen = seen ++ s.cursor.seen) (offset : s.cursor.offset ≤ src.dataLen → c.offset ≤ src.dataLen) :
    ({ s with cursor := c } : State).Tells src := by
  rcases tells with ⟨inside, fitting⟩ | ⟨beyond, unfitting⟩
  · refine .inl ⟨⟨offset inside.offset, ?_⟩, fitting⟩
    intro x member
    change x ∈ c.seen at member
    rw [trace] at member
    rcases List.mem_append.mp member with new | old
    · exact below x new
    · exact inside.seen x old
  · refine .inr ⟨fun all => beyond fun x member => all x ?_, unfitting⟩
    change x ∈ c.seen
    rw [trace]
    exact List.mem_append_right _ member

theorem upholds_varRead (w : Width) : Upholds src (varRead signedChar src w) := by
  intro s tells
  obtain ⟨seen, below, ran⟩ := w.varRead7_refines signedChar src.toInput s.cursor
  unfold varRead
  rw [ran]
  cases read : w.readList src.toInput.data s.cursor.offset with
  | error r => exact tells.moved below rfl id
  | ok result =>
    obtain ⟨n, after⟩ := result
    obtain ⟨-, bound, -, -⟩ := Width.readList_ok read
    rw [Input.data_length] at bound
    exact tells.moved (c := ⟨after, seen ++ s.cursor.seen⟩) below rfl fun _ => bound

theorem varRead_lt {w : Width} {n : Nat} (ran : varRead signedChar src w s = .ok n s') : n < 2 ^ w.bits := by
  have faithful := w.varRead7_faithful signedChar src.toInput s.cursor
  unfold varRead at ran
  cases read : w.varRead7 signedChar src.toInput s.cursor with
  | error r c =>
    rw [read] at ran
    cases ran
  | ok m c =>
    rw [read] at ran faithful
    cases ran
    exact faithful.2.2.2.2

theorem varRead_word {w : Width} {n : Nat} (ran : varRead signedChar src w s = .ok n s') : n < 2 ^ 64 := by
  refine Nat.lt_of_lt_of_le (varRead_lt ran) (Nat.pow_le_pow_right (by decide) ?_)
  cases w <;> decide

/-- Spans that reach behind the data are those of copies that do not fit. -/
theorem Copy.fits_iff {c : Copy} (word : c.len < 2 ^ 64)
    (checked : (c.offset + c.len) % 2 ^ 64 ≤ src.dataLen) : c.Fits src ↔ c.offset + c.bytes ≤ src.dataLen := by
  have bound := src.word
  unfold Copy.Fits Copy.bytes
  cases c.type with
  | byte =>
    change c.offset + c.len < 2 ^ 64 ↔ c.offset + c.len * 1 % 2 ^ 64 ≤ src.dataLen
    rw [Nat.mul_one, Nat.mod_eq_of_lt word]
    constructor
    · intro fits
      rw [Nat.mod_eq_of_lt fits] at checked
      exact checked
    · omega
  | float => exact Iff.rfl

theorem State.Tells.copied {type : BlockType} {len : Nat} (tells : s.Tells src) (word : len < 2 ^ 64)
    (checked : (s.cursor.offset + len) % 2 ^ 64 ≤ src.dataLen) :
    (s.copied ⟨type, s.cursor.offset, len⟩).Tells src := by
  have bound := src.word
  rcases tells with ⟨inside, fitting⟩ | ⟨beyond, unfitting⟩
  · have fits := Copy.fits_iff (c := ⟨type, s.cursor.offset, len⟩) word checked
    by_cases fit : (Copy.mk type s.cursor.offset len).Fits src
    · have ends := fits.mp fit
      refine .inl ⟨⟨?_, ?_⟩, ?_⟩
      · change (s.cursor.offset + Copy.bytes _) % 2 ^ 64 ≤ src.dataLen
        rw [Nat.mod_eq_of_lt (Nat.lt_of_le_of_lt ends bound)]
        exact ends
      · intro x member
        rcases List.mem_cons.mp member with rfl | old
        · intro i inner
          change s.cursor.offset + i < src.dataLen
          exact Nat.lt_of_lt_of_le (Nat.add_lt_add_left inner _) ends
        · exact inside.seen x old
      · intro c member
        rcases List.mem_cons.mp member with rfl | old
        · exact fit
        · exact fitting c old
    · refine .inr ⟨fun all => fit (fits.mpr ?_), fun all => fit (all _ List.mem_cons_self)⟩
      -- the last byte of a copy that does not fit lies behind the data
      have last : Span.Below src.dataLen ⟨s.cursor.offset, (Copy.mk type s.cursor.offset len).bytes⟩ :=
        all _ List.mem_cons_self
      change s.cursor.offset + (Copy.mk type s.cursor.offset len).bytes ≤ src.dataLen
      rcases Nat.eq_zero_or_pos (Copy.mk type s.cursor.offset len).bytes with none | some
      · rw [none]
        exact inside.offset
      · have end' := last ((Copy.mk type s.cursor.offset len).bytes - 1) (Nat.sub_lt some Nat.one_pos)
        dsimp only at end'
        omega
  · exact .inr ⟨fun all => beyond fun x member => all x (List.mem_cons_of_mem _ member),
      fun all => unfitting fun c member => all c (List.mem_cons_of_mem _ member)⟩

/-! ## Every reader -/

theorem upholds_throw (fault : Fault) : Upholds src (throw fault : Work Unit) := Keeps.throw fun _ tells => tells

/-- What follows the check knows that the check was passed. -/
theorem upholds_checked {short : Int} {len : Nat} {rest : Work Unit}
    (passed : ∀ s : State, s.Tells src → (s.cursor.offset + len) % 2 ^ 64 ≤ src.dataLen →
      Ends (State.Tells src) (fun _ => State.Tells src) (rest s)) :
    Upholds src (do checkEnd src short len; rest) := by
  intro s tells
  by_cases beyond : (s.cursor.offset + len) % 2 ^ 64 > src.dataLen
  · have failed : checkEnd src short len s = .error (.code short) s := if_pos beyond
    rw [bind_error failed]
    exact tells
  · have ran : checkEnd src short len s = .ok () s := if_neg beyond
    have same : (do checkEnd src short len; rest : Work Unit) s = rest s := bind_run ran rfl
    rw [same]
    exact passed s tells (Nat.le_of_not_lt beyond)

theorem upholds_readFixed {size : Nat} (word : size < 2 ^ 64) : Upholds src (readFixed src size) :=
  upholds_checked fun _ tells checked => tells.copied word checked

theorem upholds_checkLimit (len : Nat) : Upholds src (checkLimit src len) := by
  unfold checkLimit
  split
  · exact upholds_throw _
  · exact Keeps.pure ()

section
variable {readPtr : UInt16 → Work Unit} (inner : ∀ base, Upholds src (readPtr base))
include inner

theorem upholds_readElement (element : Element) : Upholds src (readElement signedChar src readPtr element) := by
  cases element with
  | byte => exact upholds_readFixed (by decide)
  | float => exact upholds_readFixed (by decide)
  | integer w => exact (upholds_varRead w).bind fun _ => Keeps.pure ()
  | ptr base => exact inner base

theorem readElements_ends {len : Nat} (word : len < 2 ^ 64) (element : Element) (tells : s.Tells src)
    (checked : (s.cursor.offset + len) % 2 ^ 64 ≤ src.dataLen) :
    Ends (State.Tells src) (fun _ => State.Tells src) (readElements signedChar src readPtr len element s) := by
  cases element with
  | byte => exact tells.copied word checked
  | float => exact tells.copied word checked
  | integer w => exact (upholds_readElement inner (.integer w)).times len s tells
  | ptr base => exact (upholds_readElement inner (.ptr base)).times len s tells

theorem upholds_readList (element : Element) : Upholds src (readList signedChar src readPtr element) := by
  refine (upholds_varRead .w64).bind_ran fun len ⟨_, _, ran⟩ => ?_
  have word := varRead_word ran
  refine (upholds_checkLimit len).bind fun _ => upholds_checked fun s tells checked => ?_
  split
  · exact tells
  · exact readElements_ends inner word element tells checked

theorem upholds_readObject (T : Class) : Upholds src (readObject signedChar src readPtr T) := by
  cases T with
  | list element => exact upholds_readList inner element
  | user members => exact Keeps.forM members fun element _ => upholds_readElement inner element

theorem upholds_create (ptrOffset : Nat) (typeId : UInt16) (T : Class) :
    Upholds src (create signedChar src readPtr ptrOffset typeId T) := by
  intro s tells
  have published : (s.published ptrOffset typeId).Tells src := by
    unfold State.published
    split
    · exact tells
    · exact tells.same rfl rfl
  have reads : Upholds src (readObject signedChar src readPtr T) := upholds_readObject inner T
  have ends := reads _ published
  unfold create
  cases ran : readObject signedChar src readPtr T (s.published ptrOffset typeId) with
  | ok a s' =>
    rw [ran] at ends
    exact ends
  | error fault s' =>
    rw [ran] at ends
    cases fault with
    | code r => exact State.Tells.same ends rfl rfl
    | endless => exact ends
    | invalid => exact ends

end

theorem upholds_checkBase (registry : Registry) (base typeId : UInt16) :
    Upholds src (checkBase registry base typeId) := by
  unfold checkBase
  split
  · exact upholds_throw _
  · exact upholds_throw _
  · exact Keeps.pure ()

/-- By induction on how deep objects nest. -/
theorem upholds_readPtr (registry : Registry) (fuel : Nat) (base : UInt16) :
    Upholds src (readPtr signedChar src registry fuel base) := by
  induction fuel generalizing base with
  | zero => exact upholds_throw _
  | succ fuel ih =>
    unfold readPtr
    refine (upholds_varRead .w16).bind fun tid => ?_
    dsimp only
    split
    · exact Keeps.pure ()
    · split
      · exact upholds_throw _
      · refine Keeps.get_bind fun s => (upholds_varRead .w64).bind fun ptrOffset => ?_
        split
        · exact (upholds_checkBase registry base _).bind fun _ => upholds_create ih ptrOffset _ _
        · refine Keeps.get_bind fun s' => ?_
          split
          · exact upholds_throw _
          · exact upholds_checkBase registry base _

theorem upholds_fromBBuffer (registry : Registry) (fuel : Nat) (container : Container) :
    Upholds src (fromBBuffer signedChar src registry fuel container) := by
  have inner (base : UInt16) : Upholds src (readPtr signedChar src registry fuel base) := upholds_readPtr registry fuel base
  cases container with
  | list element => exact upholds_readList inner element
  | string => exact upholds_readList inner .byte
  | bbuffer =>
    refine (upholds_varRead .w32).bind_ran fun len ⟨_, _, ran⟩ => ?_
    have word := varRead_word ran
    refine (upholds_checkLimit len).bind fun _ => upholds_checked fun s tells checked => ?_
    split
    · exact tells
    · exact tells.copied word checked

/-! ## Decoding -/

/-- What should hold of a call: it returns an error, or it stays inside. -/
def StaysInside (src : Source) : EStateM.Result Fault State Unit → Prop
  | .error (.code _) _ => True
  | .error _ s => s.Inside src
  | .ok _ s => s.Inside src

/-- A call of `FromBBuffer` at an offset, with what other calls have left. -/
def decode (signedChar : Bool) (src : Source) (registry : Registry) (fuel : Nat) (container : Container)
    (offset offsetRoot : Nat) (idxStore : Nat → Option UInt16) : EStateM.Result Fault State Unit :=
  fromBBuffer signedChar src registry fuel container ⟨⟨offset, []⟩, offsetRoot, idxStore, []⟩

/-! ## Blocks that are announced -/

/-- There are no pointers in it, so that what is copied stands right behind the length. -/
def Container.Flat : Container → Prop
  | .list (.ptr _) => False
  | _ => True

/-- What is copied at once. -/
def Container.block : Container → Option BlockType
  | .list .byte | .string | .bbuffer => some .byte
  | .list .float => some .float
  | .list (.integer _) | .list (.ptr _) => none

def Container.lengthWidth : Container → Width
  | .bbuffer => .w32
  | _ => .w64

/-- A block for which there is a length at the offset, such that both checks pass it. -/
structure Announces (src : Source) (w : Width) (offset len after : Nat) : Prop where
  read : w.readList src.toInput.data offset = .ok (len, after)
  limit : ¬ (src.readLengthLimit ≠ 0 ∧ len > src.readLengthLimit)
  checked : (after + len) % 2 ^ 64 ≤ src.dataLen

/-- The block that the bytes at the offset announce fits. -/
def Container.FitsAt (src : Source) (container : Container) (offset : Nat) : Prop :=
  ∀ type ∈ container.block, ∀ len after, Announces src container.lengthWidth offset len after →
    Copy.Fits src ⟨type, after, len⟩

theorem varRead_error {w : Width} {r : Int} (read : w.readList src.toInput.data s.cursor.offset = .error r) :
    ∃ s', varRead signedChar src w s = .error (.code r) s' := by
  obtain ⟨seen, -, ran⟩ := w.varRead7_refines signedChar src.toInput s.cursor
  rw [read] at ran
  refine ⟨{ s with cursor := s.cursor.after seen }, ?_⟩
  unfold varRead
  rw [ran]
  rfl

theorem varRead_ok {w : Width} {len after : Nat} (read : w.readList src.toInput.data s.cursor.offset = .ok (len, after)) :
    ∃ seen, varRead signedChar src w s = .ok len { s with cursor := ⟨after, seen⟩ } := by
  obtain ⟨seen, -, ran⟩ := w.varRead7_refines signedChar src.toInput s.cursor
  rw [read] at ran
  refine ⟨seen ++ s.cursor.seen, ?_⟩
  unfold varRead
  rw [ran]
  rfl

theorem State.fitting_of_none (none : s.copies = []) : s.Fitting src := by
  unfold State.Fitting
  rw [none]
  exact fun _ member => absurd member List.not_mem_nil

theorem copied_inside_iff {type : BlockType} {len : Nat} (tells : s.Tells src) (fitting : s.Fitting src)
    (word : len < 2 ^ 64) (checked : (s.cursor.offset + len) % 2 ^ 64 ≤ src.dataLen) :
    (s.copied ⟨type, s.cursor.offset, len⟩).Inside src ↔ Copy.Fits src ⟨type, s.cursor.offset, len⟩ := by
  refine (tells.copied word checked).inside_iff.trans ⟨fun all => all _ List.mem_cons_self, fun fits => ?_⟩
  intro c member
  rcases List.mem_cons.mp member with rfl | old
  · exact fits
  · exact fitting c old

/-- What is done with a length: its checks and the block, where nothing has been copied before. -/
theorem checkedBlock_inside {type : BlockType} {len : Nat} (word : len < 2 ^ 64) (tells : s.Tells src)
    (none : s.copies = []) :
    StaysInside src ((do
      checkLimit src len
      checkEnd src (-2) len
      if len = 0 then return
      memcpy type len : Work Unit) s) ↔
      (¬ (src.readLengthLimit ≠ 0 ∧ len > src.readLengthLimit) → (s.cursor.offset + len) % 2 ^ 64 ≤ src.dataLen →
        Copy.Fits src ⟨type, s.cursor.offset, len⟩) := by
  have fitting : s.Fitting src := State.fitting_of_none none
  by_cases long : src.readLengthLimit ≠ 0 ∧ len > src.readLengthLimit
  · have refused : checkLimit src len s = .error (.code (-1)) s := by
      unfold checkLimit
      rw [if_pos long]
      rfl
    rw [bind_error refused]
    exact ⟨fun _ short => absurd long short, fun _ => trivial⟩
  have passed : checkLimit src len s = .ok () s := by
    unfold checkLimit
    rw [if_neg long]
    rfl
  rw [bind_run passed rfl]
  by_cases beyond : (s.cursor.offset + len) % 2 ^ 64 > src.dataLen
  · have refused : checkEnd src (-2) len s = .error (.code (-2)) s := if_pos beyond
    rw [bind_error refused]
    exact ⟨fun _ _ checked => absurd checked (Nat.not_le_of_gt beyond), fun _ => trivial⟩
  have ran : checkEnd src (-2) len s = .ok () s := if_neg beyond
  have checked := Nat.le_of_not_lt beyond
  rw [bind_run ran rfl]
  have settled : Copy.Fits src ⟨type, s.cursor.offset, len⟩ ↔
      (¬ (src.readLengthLimit ≠ 0 ∧ len > src.readLengthLimit) → (s.cursor.offset + len) % 2 ^ 64 ≤ src.dataLen →
        Copy.Fits src ⟨type, s.cursor.offset, len⟩) :=
    ⟨fun fits _ _ => fits, fun fits => fits long checked⟩
  rw [← settled]
  have inside := tells.inside_iff.mpr fitting
  split
  · rename_i empty
    subst empty
    refine ⟨fun _ => (Copy.fits_iff word checked).mpr ?_, fun _ => inside⟩
    exact Nat.le_trans (Nat.le_of_eq (by simp [Copy.bytes])) inside.offset
  · exact copied_inside_iff tells fitting word checked

/-- The block that is announced decides. -/
theorem readBlock_inside {w : Width} {type : BlockType} (tells : s.Tells src) (none : s.copies = []) :
    StaysInside src ((do
      let len ← varRead signedChar src w
      checkLimit src len
      checkEnd src (-2) len
      if len = 0 then return
      memcpy type len : Work Unit) s) ↔
      ∀ len after, Announces src w s.cursor.offset len after → Copy.Fits src ⟨type, after, len⟩ := by
  cases read : w.readList src.toInput.data s.cursor.offset with
  | error r =>
    obtain ⟨s', ran⟩ : ∃ s', varRead signedChar src w s = .error (.code r) s' := varRead_error read
    rw [bind_error ran]
    refine ⟨fun _ len after announced => ?_, fun _ => trivial⟩
    cases read.symm.trans announced.read
  | ok result =>
    obtain ⟨len, after⟩ := result
    obtain ⟨seen, ran⟩ : ∃ seen, varRead signedChar src w s = .ok len { s with cursor := ⟨after, seen⟩ } :=
      varRead_ok read
    have upholds : Upholds src (varRead signedChar src w) := upholds_varRead w
    have moved := upholds s tells
    rw [ran] at moved
    rw [bind_run ran rfl]
    refine (checkedBlock_inside (varRead_word ran) moved none).trans ?_
    constructor
    · intro fits len' after' announced
      cases read.symm.trans announced.read
      exact fits announced.limit announced.checked
    · exact fun fits limit checked => fits len after ⟨read, limit, checked⟩

/-- Where nothing has been copied so far. -/
abbrev Uncopied {α : Type} (x : Work α) : Prop := Keeps (fun s : State => s.copies = []) (fun _ s => s.copies = []) x

theorem uncopied_varRead (w : Width) : Uncopied (varRead signedChar src w) := by
  intro s none
  unfold varRead
  split <;> exact none

theorem uncopied_checkLimit (len : Nat) : Uncopied (checkLimit src len) := by
  unfold checkLimit
  split
  · exact Keeps.throw fun _ none => none
  · exact Keeps.pure ()

theorem uncopied_checkEnd (short : Int) (len : Nat) : Uncopied (checkEnd src short len) := by
  intro s none
  unfold checkEnd
  split <;> exact none

theorem fitting_of_uncopied {result : EStateM.Result Fault State Unit}
    (ends : Ends (fun s : State => s.copies = []) (fun _ s => s.copies = []) result) : (final result).Fitting src := by
  have none : (final result).copies = [] := by
    cases result with
    | ok a s => exact ends
    | error fault s => exact ends
  exact State.fitting_of_none none

/-- Integers are read one by one. -/
theorem uncopied_integers (readPtr : UInt16 → Work Unit) (w : Width) :
    Uncopied (readList signedChar src readPtr (.integer w)) := by
  have each : Uncopied (readElement signedChar src readPtr (.integer w)) :=
    (uncopied_varRead w).bind fun _ => Keeps.pure ()
  refine (uncopied_varRead .w64).bind fun len => (uncopied_checkLimit len).bind fun _ => ?_
  refine (uncopied_checkEnd (-2) len).bind fun _ => ?_
  split
  · exact Keeps.pure ()
  · exact each.times len

/-- Where every copy fits, a call stays inside. Unless it returns an error, it stays inside only then. -/
theorem staysInside_of_tells {result : EStateM.Result Fault State Unit}
    (ends : Ends (State.Tells src) (fun _ => State.Tells src) result) :
    ((final result).Fitting src → StaysInside src result) ∧
      ((∀ r s, result ≠ .error (.code r) s) → (StaysInside src result ↔ (final result).Fitting src)) := by
  cases result with
  | ok a s => exact ⟨(State.Tells.inside_iff ends).mpr, fun _ => State.Tells.inside_iff ends⟩
  | error fault s =>
    cases fault with
    | endless => exact ⟨(State.Tells.inside_iff ends).mpr, fun _ => State.Tells.inside_iff ends⟩
    | invalid => exact ⟨(State.Tells.inside_iff ends).mpr, fun _ => State.Tells.inside_iff ends⟩
    | code r => exact ⟨fun _ => trivial, fun never => absurd rfl (never r s)⟩

theorem Container.fitsAt_iff (container : Container) {type : BlockType} {offset : Nat} (block : container.block = some type) :
    container.FitsAt src offset ↔
      ∀ len after, Announces src container.lengthWidth offset len after → Copy.Fits src ⟨type, after, len⟩ := by
  unfold Container.FitsAt
  rw [block]
  exact ⟨fun fits => fits type rfl, fun fits other same => Option.some.inj same ▸ fits⟩

theorem fromBBuffer_flat (registry : Registry) (fuel : Nat) {container : Container} (flat : container.Flat)
    (tells : s.Tells src) (none : s.copies = []) :
    StaysInside src (fromBBuffer signedChar src registry fuel container s) ↔ container.FitsAt src s.cursor.offset := by
  cases container with
  | list element =>
    cases element with
    | byte => exact (readBlock_inside tells none).trans (Container.fitsAt_iff (.list .byte) rfl).symm
    | float => exact (readBlock_inside tells none).trans (Container.fitsAt_iff (.list .float) rfl).symm
    | integer w =>
      have upholds : Upholds src (fromBBuffer signedChar src registry fuel (.list (.integer w))) :=
        upholds_fromBBuffer registry fuel _
      have uncopied : Uncopied (fromBBuffer signedChar src registry fuel (.list (.integer w))) := uncopied_integers _ w
      refine ⟨fun _ type block => ?_, fun _ => ?_⟩
      · cases block
      · exact (staysInside_of_tells (upholds s tells)).1 (fitting_of_uncopied (uncopied s none))
    | ptr base => exact flat.elim
  | string => exact (readBlock_inside tells none).trans (Container.fitsAt_iff .string rfl).symm
  | bbuffer => exact (readBlock_inside tells none).trans (Container.fitsAt_iff .bbuffer rfl).symm

end

instance (limit : Nat) (s : Span) : Decidable (s.Below limit) :=
  decidable_of_iff (s.count = 0 ∨ s.index + s.count ≤ limit) <| by
    unfold Span.Below
    constructor
    · intro ends i inner
      omega
    · intro below
      rcases Nat.eq_zero_or_pos s.count with none | some
      · exact .inl none
      · have last := below (s.count - 1) (by omega)
        exact .inr (by omega)

instance (src : Source) (s : State) : Decidable (s.Inside src) :=
  decidable_of_iff (s.cursor.offset ≤ src.dataLen ∧ ∀ x ∈ s.cursor.seen, x.Below src.dataLen)
    ⟨fun ⟨offset, seen⟩ => ⟨offset, seen⟩, fun inside => ⟨inside.offset, inside.seen⟩⟩

/-- Where there are no pointers, a call stays inside exactly if the block that the bytes announce fits. With pointers, this
is asked of every copy that the call comes to. -/
theorem container_inside (signedChar : Bool) (src : Source) (registry : Registry) (fuel : Nat) (container : Container)
    (offset offsetRoot : Nat) (idxStore : Nat → Option UInt16) (start : offset ≤ src.dataLen) :
    let result := decode signedChar src registry fuel container offset offsetRoot idxStore
    (container.Flat → (StaysInside src result ↔ container.FitsAt src offset)) ∧
      ((final result).Fitting src → StaysInside src result) ∧
      ((∀ r s, result ≠ .error (.code r) s) → (StaysInside src result ↔ (final result).Fitting src)) := by
  have fresh : State.Tells src ⟨⟨offset, []⟩, offsetRoot, idxStore, []⟩ := by
    refine .inl ⟨⟨start, ?_⟩, ?_⟩
    · exact fun _ member => absurd member List.not_mem_nil
    · exact fun _ member => absurd member List.not_mem_nil
  refine ⟨fun flat => fromBBuffer_flat registry fuel flat fresh rfl, ?_⟩
  exact staysInside_of_tells (upholds_fromBBuffer registry fuel container _ fresh)

/-- Nothing is registered. -/
def noTypes : Registry where
  creators _ := none
  isBaseOf _ _ := none

/-- A string of two bytes. -/
def twoBytes : Source := ⟨⟨fun i => if i = 0 then 2 else 7, 3⟩, 0, by decide⟩

theorem container_inside_twoBytes :
    (final (decode true twoBytes noTypes 1 .string 0 0 fun _ => none)).Fitting twoBytes ∧
      StaysInside twoBytes (decode true twoBytes noTypes 1 .string 0 0 fun _ => none) := by
  have fitting : (final (decode true twoBytes noTypes 1 .string 0 0 fun _ => none)).Fitting twoBytes := by
    intro c member
    have only : (final (decode true twoBytes noTypes 1 .string 0 0 fun _ => none)).copies = [⟨.byte, 1, 2⟩] := by
      decide +kernel
    rw [only] at member
    rw [List.mem_singleton.mp member]
    change 1 + 2 < 2 ^ 64
    decide
  exact ⟨fitting, (container_inside true twoBytes noTypes 1 .string 0 0 _ (by decide)).2.1 fitting⟩

/-- One float, of which one byte is there. -/
def shortFloat : Source := ⟨⟨fun _ => 1, 2⟩, 0, by decide⟩

/-- A length with which the sum comes round to the beginning. -/
def longString : Source := ⟨⟨fun _ => 0xFF, 9⟩, 0, by decide⟩

theorem container_beyond :
    ¬ StaysInside shortFloat (decode true shortFloat noTypes 1 (.list .float) 0 0 fun _ => none) ∧
      ¬ StaysInside longString (decode true longString noTypes 1 .string 0 0 fun _ => none) := by
  have float : ¬ (final (decode true shortFloat noTypes 1 (.list .float) 0 0 fun _ => none)).Inside shortFloat := by
    decide +kernel
  have string : ¬ (final (decode true longString noTypes 1 .string 0 0 fun _ => none)).Inside longString := by
    decide +kernel
  exact ⟨float, string⟩

end Xxlib.Uv4.Containers
