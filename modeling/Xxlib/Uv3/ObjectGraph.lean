import Xxlib.Lib.Varint
import Xxlib.Uv3.Objects

/-! The states of a graph that is written and of its copy that is read.

The copies are the objects from the address `base` on. Until the root has been read the maps of the buffer own all of
them.
-/

set_option autoImplicit false

namespace Xxlib.Uv3

open Lib

/-! ## Graphs -/

/-- A pointer of the type `T` may point to it. -/
def Types.Fits (types : Types) : PtrType → Class → Prop
  | .string, C => C = .string
  | .object type, C => C ≠ .string ∧ types.derives C type = true

/-- The ids up to 2 belong to strings and buffers. -/
def Types.Registered (types : Types) (C : Class) : Prop :=
  C = .string ∨ C = .bbuffer ∨ (2 < types.typeId C ∧ types.creators (types.typeId C) = some C)

/-- It points to a living object of its type, or nowhere. -/
def Has (types : Types) (heap : List (Option Object)) (T : PtrType) (v : Option Addr) : Prop :=
  ∀ a, v = some a → ∃ x, Lives heap a x ∧ types.Fits T x.class

def Cell.Typed (types : Types) (heap : List (Option Object)) : Cell → Prop
  | ⟨.shared T, v⟩ => Has types heap T v
  | ⟨.weak T, v⟩ => Has types heap T (lock heap v)
  | _ => True

/-- The objects that a member leads to. -/
def Cell.links (heap : List (Option Object)) : Cell → List Addr
  | ⟨.shared _, v⟩ => Option.toList (α := Addr) v
  | ⟨.weak _, v⟩ => (lock heap v).toList
  | _ => []

/-- A registered class, with its members, and pointers of their types. -/
structure Object.Valid (types : Types) (heap : List (Option Object)) (x : Object) : Prop where
  registered : types.Registered x.class
  members : ∀ type cells, x = .user type cells → cells.map Sigma.fst = types.fields type
  typed : ∀ c ∈ x.cells, c.Typed types heap

/-- By a `shared_ptr` or a `weak_ptr`. -/
def Points (heap : List (Option Object)) (a b : Addr) : Prop := ∃ x, Lives heap a x ∧ ∃ c ∈ x.cells, b ∈ c.links heap

/-- The objects that a root leads to, among others. -/
structure Graph (types : Types) (root : Option Addr) where
  heap : List (Option Object)
  valid : ∀ a x, Reaches (Points heap) root a → Lives heap a x → x.Valid types heap

/-- By a `shared_ptr`. -/
abbrev Holds (heap : List (Option Object)) : Addr → Addr → Prop := Owns Object.edges heap

section
variable (shared weak : Option Addr → Option Addr → Prop)

/-- The same value, where pointers are related as they are told. -/
def SameValue : (type : FieldType) → type.Value → type.Value → Prop
  | .shared _, x, y => shared x y
  | .weak _, x, y => weak x y
  | .bool, x, y | .int8, x, y | .uint8, x, y | .int16, x, y | .uint16, x, y | .int32, x, y | .uint32, x, y
  | .float, x, y | .string, x, y => x = y

inductive SameCell : Cell → Cell → Prop where
  | cell {type : FieldType} {x y : type.Value} (same : SameValue shared weak type x y) : SameCell ⟨type, x⟩ ⟨type, y⟩

/-- The same class and the same content. -/
inductive SameObject : Object → Object → Prop where
  | string (data : List UInt8) : SameObject (.string data) (.string data)
  | bbuffer (data : List UInt8) : SameObject (.bbuffer data) (.bbuffer data)
  | list (type : FieldType) {xs ys : List type.Value} (same : List.Forall₂ (SameValue shared weak type) xs ys) :
      SameObject (.list type xs) (.list type ys)
  | user (type : Nat) {xs ys : List Cell} (same : List.Forall₂ (SameCell shared weak) xs ys) :
      SameObject (.user type xs) (.user type ys)

end

/-! ## The log -/

abbrev Worlds := World Memory Memory (List Copied)

def Memory.unread (m : Memory) : List UInt8 := m.bb.buf.drop m.bb.offset

/-- The map that has the objects of a class. -/
def BBuffer.idxs (bb : BBuffer) (C : Class) : List (Nat × Addr) := if C = .string then bb.strIdxs else bb.objIdxs

/-- The same object, as far as it has been copied. -/
abbrev Alike (heap : List (Option Object)) (log : List Copied) : Object → Object → Prop :=
  SameObject (SamePtr (Paired log)) fun v r => SamePtr (Paired log) (lock heap v) r

/-- The copy is complete. -/
def Done (w : Worlds) (e : Copied) : Prop :=
  ∃ x y, Lives w.writer.heap e.source x ∧ Lives w.reader.heap e.copy y ∧ Alike w.writer.heap w.log x y

/-- Where the two buffers are. -/
structure Placed (s t : BBuffer) (log : List Copied) : Prop where
  start : s.offsetRoot ≤ s.buf.length
  place : t.offset = t.offsetRoot + (s.buf.length - s.offsetRoot)
  behind : t.offset ≤ t.buf.length
  unlimited : t.readLengthLimit = 0
  passed : ∀ e ∈ log, s.offsetRoot + e.offset < s.buf.length

section
variable {types : Types} {root : Option Addr} (graph : Graph types root) (base : Nat)

/-- The objects that have been made, and the maps that lead to them. -/
structure Copies (t : Memory) (log : List Copied) : Prop where
  reached : ∀ e ∈ log, Reaches (Points graph.heap) root e.source
  made : ∀ e ∈ log, base ≤ e.copy ∧ ∃ x y, Lives graph.heap e.source x ∧ Lives t.heap e.copy y ∧ y.class = x.class ∧
    find (t.bb.idxs x.class) e.offset = some e.copy
  listed : ∀ p ∈ t.bb.objIdxs ++ t.bb.strIdxs, ∃ e ∈ log, e.offset = p.1 ∧ e.copy = p.2
  covered : ∀ b, base ≤ b → b < t.heap.length → ∃ e ∈ log, e.copy = b
  room : base ≤ t.heap.length

structure Agree (w : Worlds) : Prop where
  source : w.writer.heap = graph.heap
  recorded : Recorded w.writer.bb.ptrs w.log
  placed : Placed w.writer.bb w.reader.bb w.log
  copies : Copies graph base w.reader w.log

structure Grows (v w : Worlds) : Prop where
  sources : w.writer.heap = v.writer.heap
  copies : ∀ (b : Addr) (y : Option Object), v.reader.heap[b]? = some y → w.reader.heap[b]? = some y
  owners : w.reader.owners = v.reader.owners
  input : w.reader.bb.buf = v.reader.bb.buf
  ptrs : w.reader.bb.ptrs = v.reader.bb.ptrs
  log : ∃ new, w.log = new ++ v.log ∧ ∀ e ∈ new, Done w e

end

section
variable {shared shared' weak weak' : Option Addr → Option Addr → Prop}

theorem SameValue.imp {type : FieldType} {x y : type.Value}
    (more : ∀ v r, (∀ a, v = some a → a ∈ Cell.edges ⟨type, x⟩) → shared v r → shared' v r)
    (less : ∀ v r, weak v r → weak' v r) (same : SameValue shared weak type x y) : SameValue shared' weak' type x y := by
  cases type with
  | shared T =>
    refine more x y (fun a here => ?_) same
    change a ∈ Option.toList (α := Addr) x
    rw [here]
    exact List.mem_singleton_self a
  | weak T => exact less x y same
  | _ => exact same

theorem SameObject.imp {x y : Object} (more : ∀ v r, (∀ a, v = some a → a ∈ x.edges) → shared v r → shared' v r)
    (less : ∀ v r, weak v r → weak' v r) (same : SameObject shared weak x y) : SameObject shared' weak' x y := by
  cases same with
  | string data => exact .string data
  | bbuffer data => exact .bbuffer data
  | @list type xs ys same =>
    have every := (List.forall₂_and_left _ _).mpr ⟨fun _ member => member, same⟩
    refine .list type (every.imp fun item other alike => alike.2.imp (fun v r inside => more v r fun a here => ?_) less)
    exact List.mem_flatMap.mpr ⟨⟨type, item⟩, List.mem_map_of_mem alike.1, inside a here⟩
  | @user type xs ys same =>
    have every := (List.forall₂_and_left _ _).mpr ⟨fun _ member => member, same⟩
    refine .user type (every.imp fun cell other alike => ?_)
    obtain ⟨member, @⟨type, item, _, same⟩⟩ := alike
    refine .cell (same.imp (fun v r inside => more v r fun a here => ?_) less)
    exact List.mem_flatMap.mpr ⟨⟨type, item⟩, member, inside a here⟩

theorem SameObject.class {x y : Object} (same : SameObject shared weak x y) : y.class = x.class := by
  cases same <;> rfl

theorem SameObject.cells {x y : Object} (same : SameObject shared weak x y) :
    List.Forall₂ (SameCell shared weak) x.cells y.cells := by
  cases same with
  | string data | bbuffer data => exact .nil
  | list type same => exact List.forall₂_map_left_iff.mpr (List.forall₂_map_right_iff.mpr (same.imp fun _ _ => .cell))
  | user type same => exact same

theorem SameCell.edges {pairs : Addr → Addr → Prop} {c d : Cell} (same : SameCell (SamePtr pairs) weak c d) :
    List.Forall₂ pairs c.edges d.edges := by
  obtain @⟨type, x, y, same⟩ := same
  cases type with
  | shared T =>
    cases same with
    | null => exact .nil
    | ptr related => exact .cons related .nil
  | _ => exact .nil

/-- The same edges, in the same order. -/
theorem SameObject.edges {pairs : Addr → Addr → Prop} {x y : Object} (same : SameObject (SamePtr pairs) weak x y) :
    List.Forall₂ pairs x.edges y.edges :=
  List.rel_flatMap same.cells fun _ _ => SameCell.edges

end

section
variable {u v w : Worlds}

theorem Alike.mono {heap : List (Option Object)} {log more : List Copied} {x y : Object} (alike : Alike heap log x y) :
    Alike heap (more ++ log) x y :=
  SameObject.imp (fun _ _ _ => SamePtr.mono fun _ _ => Paired.mono) (fun _ _ => SamePtr.mono fun _ _ => Paired.mono) alike

theorem Grows.paired (grows : Grows v w) (a b : Addr) (paired : Paired v.log a b) : Paired w.log a b := by
  obtain ⟨new, log, -⟩ := grows.log
  rw [log]
  exact paired.mono

theorem Done.mono (grows : Grows v w) {e : Copied} (done : Done v e) : Done w e := by
  obtain ⟨x, y, source, copy, alike⟩ := done
  obtain ⟨new, log, -⟩ := grows.log
  refine ⟨x, y, by rw [grows.sources]; exact source, grows.copies _ _ copy, ?_⟩
  rw [grows.sources, log]
  exact alike.mono

theorem Grows.refl (w : Worlds) : Grows w w :=
  ⟨rfl, fun _ _ found => found, rfl, rfl, rfl, [], rfl, fun _ member => absurd member List.not_mem_nil⟩

theorem Grows.trans (first : Grows u v) (second : Grows v w) : Grows u w := by
  obtain ⟨new, log, done⟩ := first.log
  obtain ⟨new', log', done'⟩ := second.log
  refine ⟨second.sources.trans first.sources, fun b y found => second.copies _ _ (first.copies _ _ found),
    second.owners.trans first.owners, second.input.trans first.input, second.ptrs.trans first.ptrs, new' ++ new,
    by rw [log', log, List.append_assoc], fun e member => ?_⟩
  rcases List.mem_append.mp member with late | early
  · exact done' e late
  · exact (done e early).mono second

end

/-- The streams are shorter than 2 ^ 32. -/
def graphLink {types : Types} {root : Option Addr} (graph : Graph types root) (base : Nat) :
    Link Memory Memory (List Copied) where
  written := fun m => m.bb.buf
  unread := Memory.unread
  limit := 2 ^ 32
  Agree := Agree graph base
  Grows := Grows
  refl := Grows.refl
  trans := Grows.trans

/-! ## Bytes -/

section
variable {bytes tail : List UInt8}

theorem appended_appended (m : Memory) (first second : List UInt8) :
    (m.appended first).appended second = m.appended (first ++ second) := by
  simp [Memory.appended]

theorem advanced_advanced (m : Memory) (first second : Nat) :
    (m.advanced first).advanced second = m.advanced (first + second) := by
  simp [Memory.advanced, Nat.add_assoc]

theorem unread_advanced {m : Memory} (input : m.unread = bytes ++ tail) : (m.advanced bytes.length).unread = tail := by
  have drop : (m.advanced bytes.length).unread = m.unread.drop bytes.length := by
    simp [Memory.unread, Memory.advanced, List.drop_drop]
  rw [drop, input, List.drop_left]

/-- There is what is still to be read. -/
theorem inside_of_unread {m : Memory} (input : m.unread = bytes ++ tail) (behind : m.bb.offset ≤ m.bb.buf.length) :
    m.bb.offset + bytes.length ≤ m.bb.buf.length := by
  have count := congrArg List.length input
  rw [Memory.unread, List.length_drop, List.length_append] at count
  omega

theorem nextByte_eq {m : Memory} {b : UInt8} (input : m.unread = b :: tail) : nextByte m = .ok b (m.advanced 1) := by
  have first : m.bb.buf[m.bb.offset]? = some b := by
    have head := congrArg List.head? input
    rwa [Memory.unread, List.head?_drop] at head
  unfold nextByte
  rw [first]

/-! ## Numbers -/

theorem low_mark : ∀ b : Fin 128, b.val ||| 0x80 = b.val + 128 := by decide +kernel

theorem varIntegerLoop_eq (fuel u : Nat) : varIntegerLoop fuel u = Varint.encodeFull fuel u := by
  induction fuel generalizing u with
  | zero => rfl
  | succ fuel ih =>
    unfold varIntegerLoop Varint.encodeFull
    by_cases small : u < 128
    · rw [if_neg (by omega), if_pos small]
    · rw [if_pos (by omega), if_neg small, ih, Nat.shiftRight_eq_div_pow, Varint.low_group,
        low_mark ⟨u % 128, Nat.mod_lt u (by decide)⟩]

theorem varInteger_pos {w : Nat} (u : BitVec w) : 0 < (varInteger u).length := by
  rw [varInteger, varIntegerLoop_eq]
  exact Varint.encodeFull_length_pos _ _

/-- A byte tells whether another group follows. -/
theorem high_bit : ∀ b : Fin 256, b.val &&& 0x80 = 0 ↔ b.val < 128 := by decide +kernel

section
variable {w fuel idx u n : Nat} {m : Memory}

/-- A group goes above what has been read. -/
theorem or_low_group {b : Nat} (low : u < 2 ^ (7 * idx)) (word : u + b % 128 * 2 ^ (7 * idx) < 2 ^ 32)
    (fits : u + b % 128 * 2 ^ (7 * idx) < 2 ^ w) :
    u ||| ((b &&& 0x7F) <<< (7 * idx)) % 2 ^ 32 % 2 ^ w = u + b % 128 * 2 ^ (7 * idx) := by
  have small : (b % 128) <<< (7 * idx) < 2 ^ 32 := by
    rw [Nat.shiftLeft_eq]
    omega
  rw [Varint.low_group, Nat.mod_eq_of_lt small]
  exact Varint.or_group low fits

theorem readVarIntegerLoop_last (inside : 7 * idx < w) (short : 7 * idx < 32) (low : u < 2 ^ (7 * idx))
    (fits : u + n * 2 ^ (7 * idx) < 2 ^ w) (word : u + n * 2 ^ (7 * idx) < 2 ^ 32) (small : n < 128)
    (input : m.unread = UInt8.ofNat n :: tail) :
    readVarIntegerLoop w (fuel + 1) (7 * idx) u m = .ok (u + n * 2 ^ (7 * idx)) (m.advanced 1) := by
  have byte : (UInt8.ofNat n).toNat = n := by
    rw [UInt8.toNat_ofNat']
    omega
  have same : n % 128 = n := Nat.mod_eq_of_lt small
  unfold readVarIntegerLoop
  rw [if_pos inside]
  apply bind_run (nextByte_eq input)
  rw [if_neg (Nat.not_le.mpr short), byte]
  rw [if_pos ((high_bit ⟨n, by omega⟩).mpr small), or_low_group low (by rwa [same]) (by rwa [same]), same]
  rfl

theorem readVarIntegerLoop_more (inside : 7 * idx < w) (short : 7 * idx < 32) (low : u < 2 ^ (7 * idx))
    (fits : u + n % 128 * 2 ^ (7 * idx) < 2 ^ w) (word : u + n % 128 * 2 ^ (7 * idx) < 2 ^ 32)
    (input : m.unread = UInt8.ofNat (n % 128 + 128) :: tail) :
    readVarIntegerLoop w (fuel + 1) (7 * idx) u m =
      readVarIntegerLoop w fuel (7 * (idx + 1)) (u + n % 128 * 2 ^ (7 * idx)) (m.advanced 1) := by
  have byte : (UInt8.ofNat (n % 128 + 128)).toNat = n % 128 + 128 := by
    rw [UInt8.toNat_ofNat']
    omega
  have same : (n % 128 + 128) % 128 = n % 128 := by omega
  have marked : ¬ (n % 128 + 128) &&& 0x80 = 0 := fun low =>
    absurd ((high_bit ⟨n % 128 + 128, by omega⟩).mp low) (by simp)
  conv => lhs; unfold readVarIntegerLoop
  rw [if_pos inside]
  apply bind_run (nextByte_eq input)
  rw [if_neg (Nat.not_le.mpr short), byte]
  rw [if_neg marked, or_low_group low (by rwa [same]) (by rwa [same]), same]
  rfl

/-- The loop reads on where the writer wrote on: `u` is what has been read, and `n` is what remains of the number. -/
theorem readVarIntegerLoop_encode {size : Nat} (enough : size ≤ fuel) (inside : 7 * idx < w) (short : 7 * idx < 32)
    (low : u < 2 ^ (7 * idx)) (fits : u + n * 2 ^ (7 * idx) < 2 ^ w) (word : u + n * 2 ^ (7 * idx) < 2 ^ 32)
    (last : n < 2 ^ (7 * (size + 1))) (input : m.unread = Varint.encodeFull size n ++ tail) :
    readVarIntegerLoop w (fuel + 1) (7 * idx) u m =
      .ok (u + n * 2 ^ (7 * idx)) (m.advanced (Varint.encodeFull size n).length) := by
  induction size generalizing fuel idx u n m with
  | zero => exact readVarIntegerLoop_last inside short low fits word last input
  | succ size ih =>
    by_cases small : n < 128
    · rw [Varint.encodeFull_last small] at input ⊢
      exact readVarIntegerLoop_last inside short low fits word small input
    · rw [Varint.encodeFull_more small] at input ⊢
      obtain ⟨fuel, rfl⟩ : ∃ before, fuel = before + 1 := ⟨fuel - 1, by omega⟩
      have split := Varint.group_split u n (7 * idx)
      have next : 7 * (idx + 1) = 7 * idx + 7 := by omega
      -- more groups follow only in a word that has room for them
      have room : ∀ {k : Nat}, u + n * 2 ^ (7 * idx) < 2 ^ k → 7 * idx + 7 < k := by
        intro k below
        have more : 2 ^ (7 * idx + 7) < 2 ^ k := by
          calc 2 ^ (7 * idx + 7) ≤ n / 128 * 2 ^ (7 * idx + 7) :=
                Nat.le_mul_of_pos_left _ (Nat.div_pos (Nat.not_lt.mp small) (by decide))
            _ ≤ u + n % 128 * 2 ^ (7 * idx) + n / 128 * 2 ^ (7 * idx + 7) := Nat.le_add_left _ _
            _ = u + n * 2 ^ (7 * idx) := split
            _ < 2 ^ k := below
        exact (Nat.pow_lt_pow_iff_right (by decide)).mp more
      have input : m.unread = [UInt8.ofNat (n % 128 + 128)] ++ (Varint.encodeFull size (n / 128) ++ tail) := input
      have whole : 2 ^ (7 * (size + 1 + 1)) = 2 ^ (7 * (size + 1)) * 128 := by
        rw [show 7 * (size + 1 + 1) = 7 * (size + 1) + 7 by omega, Nat.pow_add]
      have fewer : n / 128 < 2 ^ (7 * (size + 1)) := by rwa [Nat.div_lt_iff_lt_mul (by decide), ← whole]
      have done : readVarIntegerLoop w (fuel + 1) (7 * (idx + 1)) (u + n % 128 * 2 ^ (7 * idx)) (m.advanced 1) = _ :=
        ih (Nat.le_of_succ_le_succ enough) (by rw [next]; exact room fits) (by rw [next]; exact room word)
          (by rw [next]; exact Varint.group_lt low) (by rw [next, split]; exact fits) (by rw [next, split]; exact word)
          fewer (unread_advanced input)
      have less : u + n % 128 * 2 ^ (7 * idx) ≤ u + n * 2 ^ (7 * idx) :=
        Nat.add_le_add_left (Nat.mul_le_mul_right _ (Nat.mod_le n 128)) u
      rw [readVarIntegerLoop_more inside short low (Nat.lt_of_le_of_lt less fits) (Nat.lt_of_le_of_lt less word) input,
        done, next, split, advanced_advanced, List.length_cons, Nat.add_comm 1]

theorem readVarInteger_eq {u : BitVec w} {signed : Bool} (some : 0 < w) (word : u.toNat < 2 ^ 32)
    (input : m.unread = varInteger u ++ tail) : readVarInteger signed w m =
      .ok (if signed then zigZagDecode u else u) (m.advanced (varInteger u).length) := by
  obtain ⟨fuel, rfl⟩ : ∃ before, w = before + 1 := ⟨w - 1, by omega⟩
  rw [varInteger, varIntegerLoop_eq] at input ⊢
  have last : u.toNat < 2 ^ (7 * ((fuel + 1) / 7 + 1)) :=
    Nat.lt_of_lt_of_le u.isLt (Nat.pow_le_pow_right (by decide) (by omega))
  have read : readVarIntegerLoop (fuel + 1) (fuel + 1) (7 * 0) 0 m = _ := readVarIntegerLoop_encode (by omega) (by omega)
    (by decide) (by decide) (by simpa using u.isLt) (by simpa using word) last input
  apply bind_run read
  have same : BitVec.ofNat (fuel + 1) u.toNat = u := by rw [BitVec.ofNat_toNat, BitVec.setWidth_eq]
  simp only [Nat.mul_zero, Nat.pow_zero, Nat.mul_one, Nat.zero_add, same]
  rfl

end

theorem readSize_eq {m : Memory} {n : Nat} (fits : n < 2 ^ 32)
    (input : m.unread = varInteger (BitVec.ofNat 64 n) ++ tail) :
    readSize m = .ok n (m.advanced (varInteger (BitVec.ofNat 64 n)).length) := by
  have same : (BitVec.ofNat 64 n).toNat = n := by
    rw [BitVec.toNat_ofNat]
    omega
  have read : readVarInteger false 64 m = _ := readVarInteger_eq (by decide) (by rwa [same]) input
  apply bind_run read
  change EStateM.Result.ok (BitVec.ofNat 64 n).toNat _ = _
  rw [same]

theorem readUInt16_eq {m : Memory} {n : UInt16} (input : m.unread = varInteger n.toBitVec ++ tail) :
    readUInt16 m = .ok n (m.advanced (varInteger n.toBitVec).length) := by
  have word := n.toBitVec.isLt
  have read : readVarInteger false 16 m = _ := readVarInteger_eq (by decide) (by omega) input
  exact bind_run read rfl

end

/-! ## Bytes that are read back without looking at the objects -/

section
variable {types : Types} {root : Option Addr} {graph : Graph types root} {base : Nat} {s t : Memory} {log : List Copied}
  {bytes tail : List UInt8}

theorem readFixed_eq {m : Memory} (short : Fault) (behind : m.bb.offset ≤ m.bb.buf.length)
    (input : m.unread = bytes ++ tail) : readFixed short bytes.length m = .ok bytes (m.advanced bytes.length) := by
  have content : (m.bb.buf.drop m.bb.offset).take bytes.length = bytes := by
    change m.unread.take bytes.length = bytes
    rw [input, List.take_left]
  unfold readFixed
  rw [if_neg (Nat.not_lt.mpr (inside_of_unread input behind)), content]

/-- A length that is not beyond the end. -/
theorem checkEnd_eq {m : Memory} {n : Nat} (beyond : Int) (behind : m.bb.offset ≤ m.bb.buf.length)
    (few : n ≤ bytes.length) (input : m.unread = bytes ++ tail) : checkEnd beyond n m = .ok n m := by
  have room := inside_of_unread input behind
  have below := Nat.mod_le (m.bb.offset + n) (2 ^ 64)
  exact if_neg (by omega)

/-- The number of elements, of which each has at least a byte. -/
theorem readLength_eq {m : Memory} {n : Nat} (above beyond : Int) (unlimited : m.bb.readLengthLimit = 0)
    (behind : m.bb.offset ≤ m.bb.buf.length) (few : n ≤ bytes.length) (fits : n < 2 ^ 32)
    (input : m.unread = varInteger (BitVec.ofNat 64 n) ++ (bytes ++ tail)) :
    readLength above beyond m = .ok n (m.advanced (varInteger (BitVec.ofNat 64 n)).length) := by
  have within : ∀ m' : Memory, m'.bb.readLengthLimit = 0 → checkLimit above n m' = .ok n m' :=
    fun m' unlimited => if_neg fun limited => limited.1 unlimited
  apply bind_run (readSize_eq fits input)
  apply bind_run (within (m.advanced _) unlimited)
  exact checkEnd_eq beyond (inside_of_unread input behind) few (unread_advanced input)

theorem Placed.advance {s t : Memory} (placed : Placed s.bb t.bb log) (input : t.unread = bytes ++ tail) :
    Placed (s.appended bytes).bb (t.advanced bytes.length).bb log := by
  have start := placed.start
  have place := placed.place
  refine ⟨?_, ?_, inside_of_unread input placed.behind, placed.unlimited, fun e member => ?_⟩
  · simp only [Memory.appended, List.length_append]
    omega
  · simp only [Memory.appended, Memory.advanced, List.length_append]
    omega
  · have passed := placed.passed e member
    simp only [Memory.appended, List.length_append]
    omega

theorem Agree.advance (agree : Agree graph base ⟨s, t, log⟩) (input : t.unread = bytes ++ tail) :
    Agree graph base ⟨s.appended bytes, t.advanced bytes.length, log⟩ := by
  obtain ⟨reached, made, listed, covered, room⟩ := agree.copies
  exact ⟨agree.source, agree.recorded, agree.placed.advance input, reached, made, listed, covered, room⟩

theorem Grows.advance (count : Nat) : Grows ⟨s, t, log⟩ ⟨s.appended bytes, t.advanced count, log⟩ :=
  ⟨rfl, fun _ _ found => found, rfl, rfl, rfl, [], rfl, fun _ member => absurd member List.not_mem_nil⟩

theorem plain {α : Type} {write : Run Unit} {read : Nat → Run α} {y : α} (bytes : List UInt8)
    (writes : ∀ m, write m = .ok () (m.appended bytes))
    (reads : bytes.length < 2 ^ 32 → ∀ m fuel tail, m.bb.readLengthLimit = 0 → m.bb.offset ≤ m.bb.buf.length →
      m.unread = bytes ++ tail → bytes.length ≤ fuel → read fuel m = .ok y (m.advanced bytes.length)) :
    (graphLink graph base).Codec (fun _ => True) write read fun _ _ z => z = y := by
  intro s x s' ran
  rw [writes] at ran
  cases ran
  refine ⟨bytes, rfl, fun short t log fuel tail agree _ input enough => ?_⟩
  have few : bytes.length < 2 ^ 32 := by
    have short : (s.bb.buf ++ bytes).length < 2 ^ 32 := short
    rw [List.length_append] at short
    omega
  exact ⟨y, t.advanced bytes.length, log,
    reads few t fuel tail agree.placed.unlimited agree.placed.behind input enough, unread_advanced input,
    agree.advance input, Grows.advance _, rfl⟩

end

end Xxlib.Uv3
