import Xxlib.Gens.LengthWalk
import Xxlib.Lib.Monitor
import Xxlib.Uv3.PtrCodec

/-! What `WriteTo` and `ToBBuffer` write, `ReadFrom` and `FromBBuffer` read as far as the limits let them.

The content of an object is considered without the recursion: `Pointers` is what it needs to know about the pointers in
it.
-/

set_option autoImplicit false

namespace Xxlib.Gens.Messages

open Lib
open Interop (IntType)
open Uv3 (Addr PtrType Fault)

/-! ## States -/

def Store.appended (s : Store) (bytes : List UInt8) : Store := { s with bb := (s.core.appended bytes).bb }

def Store.advanced (s : Store) (count : Nat) : Store := { s with bb := (s.core.advanced count).bb }

def Store.unread (s : Store) : List UInt8 := s.core.unread

/-- What has been written of the message. -/
def Store.message (s : Store) : List UInt8 := s.bb.buf.drop s.bb.offsetRoot

abbrev Worlds := World Store Store Trail

/-- Reader and writer are at the same place, have met the same objects, and the maps of the reader lead to objects of
the right classes. -/
structure Agree (heap : List (Option Object)) (w : Worlds) : Prop where
  start : w.writer.bb.offsetRoot ≤ w.writer.bb.buf.length
  place : w.reader.bb.offset = w.reader.bb.offsetRoot + (w.writer.bb.buf.length - w.writer.bb.offsetRoot)
  behind : w.reader.bb.offset ≤ w.reader.bb.buf.length
  limited : w.reader.bb.readLengthLimit = w.log.limit
  met : ∀ a, a ∈ w.log.met ↔ w.writer.bb.ptrs a ≠ none
  known : ∀ a offs, w.writer.bb.ptrs a = some offs → w.writer.bb.offsetRoot + offs < w.writer.bb.buf.length ∧
    ∃ x p y, Lives heap a x ∧ Uv3.find (w.reader.bb.idxs x.class) offs = some p ∧ Lives w.reader.heap p y ∧
      y.class = x.class
  listed : ∀ entry ∈ w.reader.bb.objIdxs ++ w.reader.bb.strIdxs,
    w.reader.bb.offsetRoot + entry.1 < w.reader.bb.offset

/-- Objects that were made stay, with their classes. -/
structure Grows (v w : Worlds) : Prop where
  classes : ∀ b y, Lives v.reader.heap b y → ∃ z, Lives w.reader.heap b z ∧ z.class = y.class
  start : w.reader.bb.offsetRoot = v.reader.bb.offsetRoot

theorem Grows.refl (w : Worlds) : Grows w w := ⟨fun _ y alive => ⟨y, alive, rfl⟩, rfl⟩

theorem Grows.trans {u v w : Worlds} (first : Grows u v) (second : Grows v w) : Grows u w := by
  refine ⟨fun b y alive => ?_, second.start.trans first.start⟩
  obtain ⟨z, alive₁, same₁⟩ := first.classes b y alive
  obtain ⟨o, alive₂, same₂⟩ := second.classes b z alive₁
  exact ⟨o, alive₂, same₂.trans same₁⟩

/-- What a writer does not change. -/
structure Source (heap : List (Option Object)) (s : Store) : Prop where
  heap : s.heap = heap
  start : s.bb.offsetRoot ≤ s.bb.buf.length

/-- Messages are shorter than 2 ^ 32. -/
def limitLink (heap : List (Option Object)) : Link Store Store Trail where
  written := Store.message
  unread := Store.unread
  limit := 2 ^ 32
  Agree := Agree heap
  Grows := Grows
  refl := Grows.refl
  trans := Grows.trans

/-- A reader follows a writer that does not change the objects. -/
abbrev Follows {α : Type} (heap : List (Option Object)) (least : Nat) (visit : Visit) (write : Run Unit)
    (read : Nat → Run α) : Prop :=
  (limitLink heap).Follows (Source heap) least visit.guard write read

section
variable {heap : List (Option Object)} {s t : Store} {trail : Trail} {bytes tail : List UInt8} {α : Type}

theorem Agree.advance (agree : Agree heap ⟨s, t, trail⟩) (input : t.unread = bytes ++ tail) :
    Agree heap ⟨s.appended bytes, t.advanced bytes.length, trail⟩ := by
  have start : s.bb.offsetRoot ≤ s.bb.buf.length := agree.start
  have place : t.bb.offset = t.bb.offsetRoot + (s.bb.buf.length - s.bb.offsetRoot) := agree.place
  have longer : (s.appended bytes).bb.buf.length = s.bb.buf.length + bytes.length := List.length_append
  constructor
  case start => exact Nat.le_trans start (by rw [longer]; exact Nat.le_add_right _ _)
  case place =>
    change t.bb.offset + bytes.length = t.bb.offsetRoot + ((s.appended bytes).bb.buf.length - s.bb.offsetRoot)
    omega
  case behind => exact Uv3.inside_of_unread input agree.behind
  case limited => exact agree.limited
  case met => exact agree.met
  case known =>
    intro a offs known
    obtain ⟨passed, rest⟩ := agree.known a offs known
    have passed : s.bb.offsetRoot + offs < s.bb.buf.length := passed
    refine ⟨?_, rest⟩
    change s.bb.offsetRoot + offs < (s.appended bytes).bb.buf.length
    omega
  case listed =>
    intro entry member
    exact Nat.lt_of_lt_of_le (agree.listed entry member) (Nat.le_add_right _ _)

theorem Grows.advance (count : Nat) : Grows ⟨s, t, trail⟩ ⟨s.appended bytes, t.advanced count, trail⟩ :=
  ⟨fun _ y alive => ⟨y, alive, rfl⟩, rfl⟩

theorem Source.appended (source : Source heap s) (bytes : List UInt8) : Source heap (s.appended bytes) :=
  ⟨source.heap, Nat.le_trans source.start (List.prefix_append _ _).length_le⟩

theorem Source.message (source : Source heap s) (bytes : List UInt8) :
    (s.appended bytes).message = s.message ++ bytes :=
  List.drop_append_of_le_length source.start

/-! ## Running on the buffer -/

theorem onBuffer_appended {run : Uv3.Run Unit} (writes : ∀ m, run m = .ok () (m.appended bytes)) (s : Store) :
    onBuffer run s = .ok () (s.appended bytes) := by
  unfold onBuffer
  rw [writes]
  rfl

theorem onBuffer_ok {run : Uv3.Run α} {x : α} {m : Uv3.Memory} (read : run s.core = .ok x m) :
    onBuffer run s = .ok x { s with bb := m.bb } := by
  unfold onBuffer
  rw [read]

theorem onBuffer_advanced {run : Uv3.Run α} {x : α} {count : Nat} (read : run s.core = .ok x (s.core.advanced count)) :
    onBuffer run s = .ok x (s.advanced count) :=
  onBuffer_ok read

theorem onBuffer_error {run : Uv3.Run α} {fault : Fault} {m : Uv3.Memory} (failed : run s.core = .error fault m) :
    onBuffer run s = .error fault { s with bb := m.bb } := by
  unfold onBuffer
  rw [failed]

/-- Bytes that are read without looking at the objects. -/
theorem follows_leaf {write : Run Unit} {read : Nat → Run α} {least : Nat} (bytes : List UInt8) (marks : List Mark)
    (enough : least ≤ bytes.length) (writes : ∀ s, write s = .ok () (s.appended bytes))
    (reads : bytes.length < 2 ^ 32 → ∀ t fuel tail, t.bb.offset ≤ t.bb.buf.length → t.unread = bytes ++ tail →
      bytes.length ≤ fuel → (judge t.bb.readLengthLimit marks = some t.bb.readLengthLimit ∧
        ∃ y, read fuel t = .ok y (t.advanced bytes.length)) ∨
      (judge t.bb.readLengthLimit marks = none ∧ ∃ fault t', read fuel t = .error fault t')) :
    Follows heap least (.marks marks) write read := by
  intro s x s' source ran
  rw [writes] at ran
  cases ran
  refine ⟨source.appended bytes, bytes, source.message bytes, enough, ?_⟩
  intro short t trail fuel tail agree input deep
  have few : bytes.length < 2 ^ 32 := by
    have short : (s.appended bytes).message.length < 2 ^ 32 := short
    rw [source.message, List.length_append] at short
    omega
  have limited : t.bb.readLengthLimit = trail.limit := agree.limited
  have guard : Visit.guard (.marks marks) trail =
      (judge trail.limit marks).map fun limit => ⟨trail.met, limit⟩ := rfl
  rcases reads few t fuel tail agree.behind input deep with ⟨decided, y, read'⟩ | ⟨decided, fault, t', failed⟩
  · rw [limited] at decided
    exact .accepted (by rw [guard, decided]; rfl) read' (Uv3.unread_advanced input) (agree.advance input)
      (Grows.advance _)
  · rw [limited] at decided
    exact .refused (by rw [guard, decided]; rfl) failed

/-- There is nothing to be checked. -/
theorem follows_plain {write : Run Unit} {read : Nat → Run α} {least : Nat} (bytes : List UInt8)
    (enough : least ≤ bytes.length) (writes : ∀ s, write s = .ok () (s.appended bytes))
    (reads : bytes.length < 2 ^ 32 → ∀ t fuel tail, t.bb.offset ≤ t.bb.buf.length → t.unread = bytes ++ tail →
      bytes.length ≤ fuel → ∃ y, read fuel t = .ok y (t.advanced bytes.length)) :
    Follows heap least (.marks []) write read :=
  follows_leaf bytes [] enough writes fun few t fuel tail behind input deep =>
    .inl ⟨rfl, reads few t fuel tail behind input deep⟩

/-- Neither does the buffer check anything by itself. -/
theorem follows_buffer {write : Uv3.Run Unit} {read : Uv3.Run α} {least : Nat} (bytes : List UInt8)
    (enough : least ≤ bytes.length) (writes : ∀ m, write m = .ok () (m.appended bytes))
    (reads : ∀ m tail, m.bb.offset ≤ m.bb.buf.length → m.unread = bytes ++ tail →
      ∃ y, read m = .ok y (m.advanced bytes.length)) :
    Follows heap least (.marks []) (onBuffer write) fun _ => onBuffer read := by
  refine follows_plain bytes enough (onBuffer_appended writes) fun _ t _ tail behind input _ => ?_
  obtain ⟨y, read'⟩ := reads t.core tail behind input
  exact ⟨y, onBuffer_advanced read'⟩

end

/-! ## Numbers -/

section
variable {w fuel shift u n : Nat} {m : Uv3.Memory} {tail : List UInt8}

/-- The last group of a number is read, wherever its bits go. -/
theorem readVarIntegerLoop_ends (inside : shift < w) (short : shift < 32) (small : n < 128)
    (input : m.unread = UInt8.ofNat n :: tail) :
    ∃ r, Uv3.readVarIntegerLoop w (fuel + 1) shift u m = .ok r (m.advanced 1) := by
  have byte : (UInt8.ofNat n).toNat = n := by
    rw [UInt8.toNat_ofNat']
    omega
  refine ⟨u ||| ((n &&& 0x7F) <<< shift) % 2 ^ 32 % 2 ^ w, ?_⟩
  unfold Uv3.readVarIntegerLoop
  rw [if_pos inside]
  apply bind_run (Uv3.nextByte_eq input)
  rw [if_neg (Nat.not_le.mpr short), byte]
  rw [if_pos ((Uv3.high_bit ⟨n, by omega⟩).mpr small)]
  rfl

theorem readVarIntegerLoop_goes (inside : shift < w) (short : shift < 32)
    (input : m.unread = UInt8.ofNat (n % 128 + 128) :: tail) (fuel u : Nat) :
    ∃ u', Uv3.readVarIntegerLoop w (fuel + 1) shift u m =
      Uv3.readVarIntegerLoop w fuel (shift + 7) u' (m.advanced 1) := by
  have byte : (UInt8.ofNat (n % 128 + 128)).toNat = n % 128 + 128 := by
    rw [UInt8.toNat_ofNat']
    omega
  have marked : ¬ (n % 128 + 128) &&& 0x80 = 0 := fun low =>
    absurd ((Uv3.high_bit ⟨n % 128 + 128, by omega⟩).mp low) (by simp)
  refine ⟨u ||| (((n % 128 + 128) &&& 0x7F) <<< shift) % 2 ^ 32 % 2 ^ w, ?_⟩
  conv => lhs; unfold Uv3.readVarIntegerLoop
  rw [if_pos inside]
  apply bind_run (Uv3.nextByte_eq input)
  rw [if_neg (Nat.not_le.mpr short), byte]
  rw [if_neg marked]

/-- The shift of the sixth group has no result. -/
theorem readVarIntegerLoop_lost {b : UInt8} (inside : shift < w) (long : 32 ≤ shift) (input : m.unread = b :: tail) :
    Uv3.readVarIntegerLoop w (fuel + 1) shift u m = .error .invalid (m.advanced 1) := by
  unfold Uv3.readVarIntegerLoop
  rw [if_pos inside]
  apply bind_run (Uv3.nextByte_eq input)
  rw [if_pos long]
  rfl

/-- With `groups` more groups allowed behind the next one, the loop reads what has no more. -/
theorem readVarIntegerLoop_wide {groups idx size : Nat} (fuel u : Nat) (count : idx + groups = 4)
    (deep : groups + 1 < fuel) (room : groups < size) (input : m.unread = Varint.encodeFull size n ++ tail) :
    (n < 2 ^ (7 * (groups + 1)) ∧
        ∃ r, Uv3.readVarIntegerLoop 64 fuel (7 * idx) u m = .ok r (m.advanced (Varint.encodeFull size n).length)) ∨
      (¬ n < 2 ^ (7 * (groups + 1)) ∧ ∃ fault m', Uv3.readVarIntegerLoop 64 fuel (7 * idx) u m = .error fault m') := by
  induction groups generalizing idx fuel size n u m with
  | zero =>
    obtain ⟨fuel, rfl⟩ : ∃ before, fuel = before + 1 + 1 := ⟨fuel - 2, by omega⟩
    obtain ⟨size, rfl⟩ : ∃ before, size = before + 1 := ⟨size - 1, by omega⟩
    -- this is the fifth group, and behind it any byte is one too many
    by_cases small : n < 128
    · rw [Varint.encodeFull_last small] at input ⊢
      exact .inl ⟨small, readVarIntegerLoop_ends (by omega) (by omega) small input⟩
    · rw [Varint.encodeFull_more small] at input ⊢
      have input : m.unread = [UInt8.ofNat (n % 128 + 128)] ++ (Varint.encodeFull size (n / 128) ++ tail) := input
      obtain ⟨u', goes⟩ := readVarIntegerLoop_goes (by omega : 7 * idx < 64) (by omega) input (fuel + 1) u
      have rest := Uv3.unread_advanced input
      refine .inr ⟨small, ?_⟩
      cases bytes : Varint.encodeFull size (n / 128) with
      | nil => exact absurd (congrArg List.length bytes) (Nat.ne_of_gt (Varint.encodeFull_length_pos _ _))
      | cons b more =>
        rw [bytes] at rest
        exact ⟨_, _, goes.trans (readVarIntegerLoop_lost (by omega) (by omega) rest)⟩
  | succ groups ih =>
    obtain ⟨fuel, rfl⟩ : ∃ before, fuel = before + 1 := ⟨fuel - 1, by omega⟩
    obtain ⟨size, rfl⟩ : ∃ before, size = before + 1 := ⟨size - 1, by omega⟩
    by_cases small : n < 128
    · rw [Varint.encodeFull_last small] at input ⊢
      have below : 2 ^ 7 ≤ 2 ^ (7 * (groups + 1 + 1)) := Nat.pow_le_pow_right (by decide) (by omega)
      exact .inl ⟨by omega, readVarIntegerLoop_ends (by omega) (by omega) small input⟩
    · rw [Varint.encodeFull_more small] at input ⊢
      have input : m.unread = [UInt8.ofNat (n % 128 + 128)] ++ (Varint.encodeFull size (n / 128) ++ tail) := input
      obtain ⟨u', goes⟩ := readVarIntegerLoop_goes (by omega : 7 * idx < 64) (by omega) input fuel u
      have next : 7 * idx + 7 = 7 * (idx + 1) := by omega
      have whole : 2 ^ (7 * (groups + 1 + 1)) = 2 ^ (7 * (groups + 1)) * 128 := by
        rw [show 7 * (groups + 1 + 1) = 7 * (groups + 1) + 7 by omega, Nat.pow_add]
      have fewer : n / 128 < 2 ^ (7 * (groups + 1)) ↔ n < 2 ^ (7 * (groups + 1 + 1)) := by
        rw [Nat.div_lt_iff_lt_mul (by decide), ← whole]
      rw [goes, next]
      have later := ih fuel u' (by omega : idx + 1 + groups = 4) (by omega) (by omega) (Uv3.unread_advanced input)
      rcases later with ⟨fits, r, read⟩ | ⟨large, failed⟩
      · refine .inl ⟨fewer.mp fits, r, ?_⟩
        rw [Uv3.advanced_advanced, ← List.length_append] at read
        exact read
      · exact .inr ⟨fun fits => large (fewer.mpr fits), failed⟩

/-- A number of 64 bits is read if it has five groups at most, whatever becomes of its high bits. -/
theorem readVarInteger_wide (signed : Bool) {u : BitVec 64} (input : m.unread = Uv3.varInteger u ++ tail) :
    (u.toNat < 2 ^ 35 ∧ ∃ v, Uv3.readVarInteger signed 64 m = .ok v (m.advanced (Uv3.varInteger u).length)) ∨
      (¬ u.toNat < 2 ^ 35 ∧ ∃ fault m', Uv3.readVarInteger signed 64 m = .error fault m') := by
  rw [Uv3.varInteger, Uv3.varIntegerLoop_eq] at input ⊢
  have loop := readVarIntegerLoop_wide 64 0 (rfl : 0 + 4 = 4) (by decide) (by decide) input
  rcases loop with ⟨fits, r, read⟩ | ⟨large, fault, m', failed⟩
  · exact .inl ⟨fits, _, bind_run read rfl⟩
  · exact .inr ⟨large, fault, m', bind_error failed⟩

end

section
variable {heap : List (Option Object)} {visit : Option Addr → Visit}

theorem wide_follows (signed : Bool) (v : BitVec 64) :
    Follows heap 1 (.marks [.wide (if signed then zigZagEncode v else v).toNat])
      (onBuffer (Uv3.writeVarIntger signed v)) fun _ => onBuffer (Uv3.readVarInteger signed 64) := by
  refine follows_leaf (Uv3.varInteger (if signed then zigZagEncode v else v)) _ (Uv3.varInteger_pos _)
    (onBuffer_appended fun _ => rfl) fun _ t _ tail _ input _ => ?_
  rcases readVarInteger_wide (m := t.core) signed input with ⟨fits, y, read⟩ | ⟨large, fault, m', failed⟩
  · exact .inl ⟨if_pos fits, y, onBuffer_advanced read⟩
  · exact .inr ⟨if_neg large, _, _, onBuffer_error failed⟩

theorem short_follows {w : Nat} (some : 0 < w) (word : w ≤ 32) (signed : Bool) (v : BitVec w) :
    Follows heap 1 (.marks []) (onBuffer (Uv3.writeVarIntger signed v)) fun _ =>
      onBuffer (Uv3.readVarInteger signed w) := by
  refine follows_buffer (Uv3.varInteger (if signed then zigZagEncode v else v)) (Uv3.varInteger_pos _) (fun _ => rfl)
    fun m tail _ input => ⟨_, Uv3.readVarInteger_eq some ?_ input⟩
  exact Nat.lt_of_lt_of_le (BitVec.isLt _) (Nat.pow_le_pow_right (by decide) word)

theorem number_follows (type : IntType) (v : type.Value) : Follows heap 1 (visitCell heap visit ⟨.number type, v⟩)
    (onBuffer (Interop.cppWrite type v)) fun _ => onBuffer (Interop.cppRead type) := by
  cases type with
  | bool =>
    refine follows_buffer [Uv3.boolByte v] (Nat.le_refl 1) (fun _ => rfl) fun m tail _ input => ⟨v, ?_⟩
    apply bind_run (Interop.readFixed_byte input)
    cases (v : Bool) <;> rfl
  | int8 | uint8 =>
    refine follows_buffer [⟨v⟩] (Nat.le_refl 1) (fun _ => rfl) fun m tail _ input => ⟨v, ?_⟩
    exact bind_run (Interop.readFixed_byte input) rfl
  | int16 => exact short_follows (by decide) (by decide) true (w := 16) v
  | uint16 => exact short_follows (by decide) (by decide) false (w := 16) v
  | int32 => exact short_follows (by decide) (by decide) true (w := 32) v
  | uint32 => exact short_follows (by decide) (by decide) false (w := 32) v
  | int64 => exact wide_follows true v
  | uint64 => exact wide_follows false v

theorem float_follows (short : Fault) (v : BitVec 32) :
    Follows heap 1 (.marks []) (onBuffer (Uv3.append (Uv3.floatBytes v))) fun _ => onBuffer (readFloat short) := by
  refine follows_buffer (Uv3.floatBytes v) (by decide : 1 ≤ 4) (fun _ => rfl) fun m tail behind input => ?_
  have fixed : Uv3.readFixed short 4 m = _ := Uv3.readFixed_eq short behind input
  exact ⟨_, bind_run fixed rfl⟩

/-- The first byte of a double tells what follows. -/
theorem tagged_follows {write : Uv3.Run Unit} (b : UInt8) (rest : List UInt8)
    (writes : ∀ m, write m = .ok () (m.appended (b :: rest)))
    (reads : ∀ m tail, m.bb.offset ≤ m.bb.buf.length → m.unread = rest ++ tail →
      ∃ y, readTagged b m = .ok y (m.advanced rest.length)) :
    Follows heap 1 (.marks []) (onBuffer write) fun _ => onBuffer readDouble := by
  refine follows_buffer (b :: rest) (Nat.succ_pos _) writes fun m tail behind input => ?_
  have input : m.unread = [b] ++ (rest ++ tail) := input
  have fixed : Uv3.readFixed (.code (-13)) [b].length m = _ := Uv3.readFixed_eq (.code (-13)) behind input
  obtain ⟨y, read⟩ := reads (m.advanced [b].length) tail (Uv3.inside_of_unread input behind) (Uv3.unread_advanced input)
  refine ⟨y, bind_run fixed ?_⟩
  rw [Uv3.advanced_advanced, ← List.length_append] at read
  exact read

theorem double_follows (v : Float) :
    Follows heap 1 (.marks []) (onBuffer (writeDouble v)) fun _ => onBuffer readDouble := by
  unfold writeDouble
  by_cases zero : (v == 0) = true
  · rw [if_pos zero]
    exact tagged_follows 0 [] (fun _ => rfl) fun m _ _ _ => ⟨0, rfl⟩
  rw [if_neg zero]
  by_cases nan : v.isNaN = true
  · rw [if_pos nan]
    exact tagged_follows 1 [] (fun _ => rfl) fun m _ _ _ => ⟨quietNaN, rfl⟩
  rw [if_neg nan]
  by_cases negative : (v == -infinity) = true
  · rw [if_pos negative]
    exact tagged_follows 2 [] (fun _ => rfl) fun m _ _ _ => ⟨-infinity, rfl⟩
  rw [if_neg negative]
  by_cases positive : (v == infinity) = true
  · rw [if_pos positive]
    exact tagged_follows 3 [] (fun _ => rfl) fun m _ _ _ => ⟨infinity, rfl⟩
  rw [if_neg positive]
  by_cases whole : (v == v.toInt32.toFloat) = true
  · rw [if_pos whole]
    refine tagged_follows 4 (Uv3.varInteger (zigZagEncode v.toInt32.toBitVec)) (fun m => ?_) fun m tail _ input => ?_
    · exact bind_run rfl (congrArg (EStateM.Result.ok ()) (Uv3.appended_appended m [4] _))
    · have read : Uv3.readVarInteger true 32 m = _ := Uv3.readVarInteger_eq (by decide) (BitVec.isLt _) input
      exact ⟨_, bind_run read rfl⟩
  · rw [if_neg whole]
    refine tagged_follows 5 (doubleBytes v) (fun _ => rfl) fun m tail behind input => ?_
    have fixed : Uv3.readFixed (.code (-14)) 8 m = _ := Uv3.readFixed_eq (.code (-14)) behind input
    exact ⟨_, bind_run fixed rfl⟩

/-! ## Lengths -/

theorem readLength_limited {m : Uv3.Memory} {n : Nat} {bytes tail : List UInt8} (above beyond : Int)
    (behind : m.bb.offset ≤ m.bb.buf.length) (few : n ≤ bytes.length) (fits : n < 2 ^ 32)
    (input : m.unread = Uv3.sizeBytes n ++ (bytes ++ tail)) :
    ((m.bb.readLengthLimit = 0 ∨ n ≤ m.bb.readLengthLimit) ∧
        Uv3.readLength above beyond m = .ok n (m.advanced (Uv3.sizeBytes n).length)) ∨
      (¬ (m.bb.readLengthLimit = 0 ∨ n ≤ m.bb.readLengthLimit) ∧
        ∃ fault m', Uv3.readLength above beyond m = .error fault m') := by
  have size := Uv3.readSize_eq fits input
  by_cases within : m.bb.readLengthLimit = 0 ∨ n ≤ m.bb.readLengthLimit
  · have limit : Uv3.checkLimit above n (m.advanced (Uv3.sizeBytes n).length) =
        .ok n (m.advanced (Uv3.sizeBytes n).length) :=
      if_neg fun exceeds => within.elim exceeds.1 (Nat.not_le.mpr exceeds.2)
    have end' := Uv3.checkEnd_eq beyond (Uv3.inside_of_unread input behind) few (Uv3.unread_advanced input)
    exact .inl ⟨within, bind_run size (bind_run limit end')⟩
  · have limit : Uv3.checkLimit above n (m.advanced (Uv3.sizeBytes n).length) =
        .error (.code above) (m.advanced (Uv3.sizeBytes n).length) :=
      if_pos ⟨fun zero => within (.inl zero), Nat.not_le.mp fun small => within (.inr small)⟩
    exact .inr ⟨within, _, _, bind_run size (bind_error limit)⟩

theorem string_follows (data : List UInt8) : Follows heap 1 (.marks [.length data.length])
    (onBuffer (Uv3.writeString data)) fun _ => onBuffer Uv3.readString := by
  have size : 0 < (Uv3.sizeBytes data.length).length := Uv3.varInteger_pos _
  refine follows_leaf (Uv3.sizeBytes data.length ++ data) _ (by rw [List.length_append]; omega)
    (onBuffer_appended fun m => ?_) ?_
  · exact congrArg (EStateM.Result.ok ()) (Uv3.appended_appended m _ data)
  intro few t _ tail behind input _
  rw [List.length_append] at few
  have input : t.core.unread = Uv3.sizeBytes data.length ++ (data ++ tail) := by
    rw [← List.append_assoc]
    exact input
  rcases readLength_limited (-16) (-17) behind (Nat.le_refl _) (by omega) input with
    ⟨within, length⟩ | ⟨exceeds, fault, m', failed⟩
  · have content := Uv3.readFixed_eq .invalid (Uv3.inside_of_unread input behind) (Uv3.unread_advanced input)
    rw [Uv3.advanced_advanced, ← List.length_append] at content
    exact .inl ⟨if_pos within, data, onBuffer_advanced (bind_run length content)⟩
  · exact .inr ⟨if_neg exceeds, _, _, onBuffer_error (bind_error failed)⟩

theorem bbuffer_follows (data : List UInt8) :
    Follows heap 0 (.marks []) (onBuffer (Uv3.writeString data)) fun _ => onBuffer Uv3.readBuffer := by
  refine follows_plain (Uv3.sizeBytes data.length ++ data) (Nat.zero_le _) (onBuffer_appended fun m => ?_) ?_
  · exact congrArg (EStateM.Result.ok ()) (Uv3.appended_appended m _ data)
  intro few t _ tail behind input _
  rw [List.length_append] at few
  have input : t.core.unread = Uv3.sizeBytes data.length ++ (data ++ tail) := by
    rw [← List.append_assoc]
    exact input
  have room := Uv3.inside_of_unread input behind
  have length := Uv3.checkEnd_eq (-11) room (Nat.le_refl _) (Uv3.unread_advanced input)
  have content := Uv3.readFixed_eq .invalid room (Uv3.unread_advanced input)
  rw [Uv3.advanced_advanced, ← List.length_append] at content
  exact ⟨data, onBuffer_advanced (bind_run (Uv3.readSize_eq (by omega) input) (bind_run length content))⟩

end

/-! ## Members -/

instance : Nonempty Value := ⟨.cell ⟨.float, 0#32⟩⟩

instance : Nonempty Members := ⟨fun _ => Classical.arbitrary Value⟩

section
variable {heap : List (Option Object)} {α β : Type} {least more : Nat} {first second : Visit} {write write' : Run Unit}

/-- One after the other. -/
theorem follows_next [Nonempty α] {read : Nat → Run α} {read' : α → Nat → Run β}
    (follows : Follows heap least first write read) (next : ∀ y, Follows heap more second write' (read' y)) :
    Follows heap (least + more) (.next first second) (write >>= fun _ => write') fun fuel =>
      read fuel >>= fun y => read' y fuel := by
  unfold Follows
  rw [Visit.guard_next]
  exact Link.Follows.bind follows fun _ => next

theorem limit_follows (limit : Int) :
    Follows heap 0 (.marks [.limit (limit % 2 ^ 64).toNat]) (pure ()) fun _ => setLimit limit := by
  intro s x s' source ran
  cases ran
  refine ⟨source, [], (List.append_nil _).symm, Nat.zero_le _, fun _ t trail _ tail agree input _ => ?_⟩
  exact .accepted rfl rfl input ⟨agree.start, agree.place, agree.behind, rfl, agree.met, agree.known, agree.listed⟩
    ⟨fun _ y alive => ⟨y, alive, rfl⟩, rfl⟩

end

section
variable {heap : List (Option Object)} {least : Nat} {visit : FieldInfo → Visit} {write : FieldInfo → Run Unit}
  {read : Nat → FieldInfo → Run Value}

theorem members_follow (fs : List FieldInfo)
    (each : ∀ f ∈ fs, Follows heap least (visit f) (write f) fun fuel => read fuel f)
    (initial : Members) : Follows heap (fs.length * least) (.each visit fs) (fs.forM write) fun fuel =>
      readMembers (read fuel) fs initial := by
  induction fs generalizing initial with
  | nil => exact (Link.Follows.done () initial).fewer (by simp)
  | cons f fs ih =>
    have rest := ih fun other member => each other (List.mem_cons_of_mem f member)
    have both := follows_next (each f List.mem_cons_self) fun v => rest (Function.update initial f v)
    apply both.fewer
    rw [List.length_cons, Nat.succ_mul]
    omega

/-- What is done for a field, with the limit in front of it. -/
abbrev limitedVisit (visit : FieldInfo → Visit) (f : FieldInfo) : Visit :=
  .next (.marks (FieldInfo.limitMarks f)) (visit f)

/-- `FromBBufferCore` reads the fields that are not left out. -/
theorem core_follows (base core : Members → Run Members) (fs : List FieldInfo)
    (each : ∀ f ∈ fs.filter fun f => !f.foreign, Follows heap 0 (visit f) (write f) fun fuel => read fuel f)
    (initial : Members) :
    Follows heap 0 (.each (limitedVisit visit) (fs.filter fun f => !f.foreign))
      ((fs.filter fun f => !f.foreign).forM write) fun fuel => execute base core (read fuel) (fs.flatMap genRead ++ [.returnZero]) initial := by
  induction fs generalizing initial with
  | nil => exact Link.Follows.done () initial
  | cons f fs ih =>
    cases foreign : f.foreign with
    | true =>
      -- both sides leave the field out
      have skipped : (f :: fs).filter (fun f => !f.foreign) = fs.filter fun f => !f.foreign := by simp [foreign]
      have nothing : genRead f = [] := if_pos foreign
      rw [skipped] at each ⊢
      simp only [List.flatMap_cons, nothing, List.nil_append]
      exact ih each initial
    | false =>
      have taken : (f :: fs).filter (fun f => !f.foreign) = f :: fs.filter fun f => !f.foreign := by simp [foreign]
      rw [taken] at each ⊢
      have rest := ih fun other member => each other (List.mem_cons_of_mem f member)
      have value := each f List.mem_cons_self
      have statements : genRead f = (if f.type.isContainer then [.readLengthLimit f.limit] else []) ++ [.read f] :=
        if_neg (by rw [← FieldInfo.foreign, foreign]; exact Bool.false_ne_true)
      simp only [List.flatMap_cons, statements, List.append_assoc]
      cases container : f.type.isContainer with
      | false =>
        have field : Follows heap 0 (limitedVisit visit f) (write f) fun fuel => read fuel f := by
          unfold limitedVisit FieldInfo.limitMarks
          rw [container]
          exact value
        exact follows_next field fun v => rest (Function.update initial f v)
      | true =>
        -- the limit is set by the reader alone, and stays for `rest`
        have field : Follows heap 0 (limitedVisit visit f) (write f) fun fuel =>
            setLimit f.limit >>= fun _ => read fuel f := by
          unfold limitedVisit FieldInfo.limitMarks
          rw [container]
          exact follows_next (limit_follows f.limit) fun _ => value
        have both := follows_next field fun v => rest (Function.update initial f v)
        simp only [bind_assoc] at both
        exact both

/-- `FromBBuffer` reads the fields of the base first. -/
theorem levels_follow (levels : List (List FieldInfo))
    (each : ∀ f ∈ Gens.collect (fun f => !f.foreign) levels, Follows heap 0 (visit f) (write f) fun fuel => read fuel f)
    (initial : Members) :
    Follows heap 0 (.each (limitedVisit visit) (Gens.collect (fun f => !f.foreign) levels))
      ((Gens.collect (fun f => !f.foreign) levels).forM write)
      fun fuel => fromBBufferLevels (read fuel) levels initial := by
  induction levels generalizing initial with
  | nil => exact Link.Follows.done () initial
  | cons own bases ih =>
    unfold Gens.collect at each ⊢
    have base := ih (fun f member => each f (List.mem_append_left _ member)) initial
    have core := core_follows pure pure (getFields own bases)
      fun f member => each f (List.mem_append_right _ member)
    have both := follows_next base core
    have writes : ∀ xs ys : List FieldInfo, (xs ++ ys).forM write = xs.forM write >>= fun _ => ys.forM write :=
      fun _ _ => List.forM_append
    rw [Visit.each_append, writes]
    cases bases with
    -- without a base there is nothing to be read first
    | nil => exact both
    | cons more bases => exact both

end

/-! ## Pointers -/

/-- What objects need to know about the pointers in them. -/
structure Pointers (schema : Schema) (heap : List (Option Object)) (part : Addr → Prop) (visit : Option Addr → Visit)
    (write : Option Addr → Run Unit) (read : Nat → PtrType → Run (Option Addr)) : Prop where
  follows : ∀ T v, Leads schema heap part T v → Follows heap 1 (visit v) (write v) fun fuel => read fuel T
  null : ∀ T, Follows heap 1 (visit none) (onBuffer (Uv3.writeUInt16 0)) fun fuel => read fuel T

/-- The call of a regular struct writes all of its members. -/
theorem writeTo_fields {S : Struct} (regular : S.Regular) : (genWriteTo S.fields).map Prod.snd = S.fields := by
  have kept : (S.fields.filter fun f => !f.notSerialize) = S.fields :=
    List.filter_eq_self.mpr fun f member => (Bool.and_eq_true_iff.mp (regular f member)).2
  unfold genWriteTo
  rw [kept, List.map_map]
  exact List.map_id _

theorem readFrom_fields (S : Struct) : (genReadFrom S.fields).map Prod.snd = S.fields := by
  unfold genReadFrom
  rw [List.map_map]
  exact List.map_id _

/-- A regular class writes what it reads. -/
theorem written_eq_readBack {c : Class} (regular : c.Regular) : Class.written c = readBack (Class.levels c) := by
  have agrees := (c.agrees_iff.mpr regular).1
  unfold Class.written
  change (Gens.written (c.own :: c.bases)).toOption.getD [] = _
  rw [agrees]
  rfl

section
variable {schema : Schema} {heap : List (Option Object)} {part : Addr → Prop} {visit : Option Addr → Visit}
  {write : Option Addr → Run Unit} {read : Nat → PtrType → Run (Option Addr)}
  (pointers : Pointers schema heap part visit write read)
include pointers

theorem Pointers.wire (short : Fault) (cell : Cell) (sound : Cell.Sound schema heap part cell) :
    Follows heap 1 (visitCell heap visit cell) (writeWire write cell.1 cell.2) fun fuel =>
      readWire short (read fuel) cell.1 := by
  obtain ⟨type, v⟩ := cell
  cases type with
  | number type => exact number_follows type v
  | float => exact float_follows short v
  | double => exact double_follows v
  | string => exact string_follows v
  | shared T => exact pointers.follows T v sound
  | weak T =>
    have sound : Leads schema heap part T (lock heap v) := sound
    change Follows heap 1 (visit (lock heap v)) _ _
    -- the writer locks in its own store, which has the same objects
    cases locked : lock heap v with
    | none =>
      refine (pointers.null T).on_source fun s source => bind_run rfl ?_
      rw [source.heap, locked]
    | some p =>
      refine (pointers.follows T (some p) (locked ▸ sound)).on_source fun s source => bind_run rfl ?_
      rw [source.heap, locked]

theorem Pointers.value {layout : Layout} {value : Value} (regular : layout.Regular)
    (sound : Value.Sound schema heap part layout value) :
    Follows heap 1 (visitValue heap visit value) (writeValue write value) fun fuel =>
      readValue schema.initial (read fuel) layout := by
  induction sound with
  | cell sound => exact (pointers.wire (.code (-12)) _ sound).map fun v => Value.cell ⟨_, v⟩
  | @struct S layout member _ ih =>
    obtain ⟨fields, some, members⟩ := regular
    -- both calls go through all members, since the struct is regular
    have each := members_follow S.fields (fun f inside => ih f inside (members f inside)) schema.initial
    unfold writeValue readValue
    rw [writeTo_fields fields, readFrom_fields]
    apply (each.map fun member => Value.struct S member).fewer
    have count := List.length_pos_of_ne_nil some
    omega

theorem Pointers.item {item : Layout} {value : Value} (regular : item.Regular)
    (sound : Value.Sound schema heap part item value) :
    Follows heap 1 (visitValue heap visit value) (writeValue write value) fun fuel =>
      readItem schema.initial (read fuel) item := by
  have other := pointers.value regular sound
  cases sound with
  | @cell type v sound =>
    cases type with
    -- a short block of floats is not noticed, but this one is not short
    | float => exact (pointers.wire .invalid _ sound).map fun v => Value.cell ⟨_, v⟩
    | _ => exact other
  | struct _ => exact other

/-- The content of a list: the number of its elements, and the elements. -/
theorem Pointers.items {item : Layout} (items : List Value) (regular : item.Regular)
    (sound : ∀ v ∈ items, Value.Sound schema heap part item v) (type : Nat) :
    Follows heap 0 (.next (.marks [.length items.length]) (.each (visitValue heap visit) items))
      (do onBuffer (Uv3.writeSize items.length); items.forM (writeValue write)) fun fuel => do
        let count ← onBuffer (Uv3.readLength (-1) (-2))
        return Object.list type (← Lib.collect (readItem schema.initial (read fuel) item) count) := by
  have elements := Link.Follows.forM items fun v member => pointers.item regular (sound v member)
  rw [← Visit.guard_each] at elements
  intro s u s' source ran
  obtain ⟨_, s₁, first, rest⟩ := bind_ok ran
  have size : onBuffer (Uv3.writeSize items.length) s = .ok () (s.appended (Uv3.sizeBytes items.length)) :=
    onBuffer_appended (fun _ => rfl) s
  rw [size] at first
  cases first
  obtain ⟨source', bytes, written, count, reads⟩ := elements (s.appended _) _ _ (source.appended _) rest
  have written : s'.message = s.message ++ (Uv3.sizeBytes items.length ++ bytes) := by
    rw [← List.append_assoc, ← source.message]
    exact written
  refine ⟨source', Uv3.sizeBytes items.length ++ bytes, written, Nat.zero_le _, ?_⟩
  intro short t trail fuel tail agree input deep
  rw [List.append_assoc] at input
  rw [List.length_append] at deep
  -- each element has at least a byte, so that the length is not beyond the end
  have few : items.length ≤ bytes.length := by omega
  have fits : items.length < 2 ^ 32 := by
    have short : s'.message.length < 2 ^ 32 := short
    rw [written, List.length_append, List.length_append] at short
    omega
  have limited : t.bb.readLengthLimit = trail.limit := agree.limited
  rw [Visit.guard_next]
  rcases readLength_limited (m := t.core) (-1) (-2) agree.behind few fits input with
    ⟨within, length⟩ | ⟨exceeds, fault, m', failed⟩
  · have passes : Visit.guard (.marks [.length items.length]) trail = some trail := by
      rw [Visit.guard, Visit.marks, judge, if_pos (limited ▸ within)]
      rfl
    have next := reads short _ trail fuel tail (agree.advance input) (Uv3.unread_advanced input) (by omega)
    have length := onBuffer_advanced length
    simp only [passes]
    rcases next.cases with ⟨decided, fault, t', failed⟩ | ⟨trail', ys, t', decided, read', input', agree', grows⟩
    · exact .refused decided (bind_run length (bind_error failed))
    · exact .accepted decided (bind_run length (bind_run read' rfl)) input' agree'
        ((Grows.advance _).trans grows)
  · have stops : Visit.guard (.marks [.length items.length]) trail = none := by
      rw [Visit.guard, Visit.marks, judge, if_neg (limited ▸ exceeds)]
      rfl
    simp only [stops]
    exact .refused rfl (bind_error (onBuffer_error failed))

/-- The content of an object. -/
theorem Pointers.body (regular : schema.Regular) {x : Object} (sound : x.Sound schema heap part) :
    Follows heap 0 (visitObject heap visit schema x) (toBBuffer schema write x) fun fuel =>
      fromBBuffer schema (read fuel) x.class := by
  cases sound with
  | string data => exact ((string_follows data).map Object.string).fewer (Nat.zero_le 1)
  | bbuffer data => exact (bbuffer_follows data).map Object.bbuffer
  | @list type items item shape sound =>
    simp only [Object.class, fromBBuffer, shape]
    exact pointers.items items (regular.items type item shape) sound type
  | @generated type member c shape sound =>
    have fields := regular.fields type c shape
    have order : schema.written type = readBack (Class.levels c) := by
      simp only [Schema.written, shape]
      exact written_eq_readBack (regular.classes type c shape)
    simp only [Object.class, fromBBuffer, shape, toBBuffer, visitObject, order]
    rw [readBack_eq] at fields sound ⊢
    have members := levels_follow (Class.levels c)
      (fun f inside => (pointers.value (fields f inside) (sound f inside)).fewer (Nat.zero_le 1)) schema.initial
    exact members.map fun member => Object.generated type member

end

end Xxlib.Gens.Messages
