import Mathlib.Logic.Function.Iterate
import Xxlib.Lib.ObjectGraph
import Xxlib.Uv4.Objects

/-! The states of a graph that is written and of its copy that is read.

The copies are the objects from the address `base` on. A `Ptr` that was read is counted in `refs` at once, but its
object is complete only later; until then the log holds it as pending.
-/

set_option autoImplicit false

namespace Xxlib.Uv4

open Lib

/-! ## Graphs -/

def Object.pointers : Object → List (Option Addr)
  | .listOfPtr items => items
  | _ => []

/-- The objects that an object points to, as often as it does. -/
def Object.edges (object : Object) : List Addr := object.pointers.flatMap Option.toList

/-- A class with an id below 65535, from which the parents lead to `Object`. -/
structure Types.Registered (types : Types) (T : Class) : Prop where
  named : types.typeId T ≠ 0
  below : (types.typeId T).toNat < 65535
  creator : types.creators (types.typeId T) = some T
  parents : ∃ n, types.pids^[n] (types.typeId T) = 0

structure Block.Valid (types : Types) (heap : List Block) (block : Block) : Prop where
  typeId : block.typeId = types.typeId block.object.class
  registered : types.Registered block.object.class
  inside : ∀ a ∈ block.object.edges, a < heap.length

/-- Objects of registered classes. -/
structure Graph (types : Types) where
  heap : List Block
  valid : ∀ block ∈ heap, block.Valid types heap

def Points (heap : List Block) (a b : Addr) : Prop := ∃ block, heap[a]? = some block ∧ b ∈ block.object.edges

/-- The same class and the same content. -/
inductive SameObject (pairs : Addr → Addr → Prop) : Object → Object → Prop where
  | string (data : List UInt8) : SameObject pairs (.string data) (.string data)
  | bbuffer (data : List UInt8) : SameObject pairs (.bbuffer data) (.bbuffer data)
  | list (type : Integer) (items : List (BitVec type.bits)) : SameObject pairs (.list type items) (.list type items)
  | listOfPtr {xs ys : List (Option Addr)} (same : List.Forall₂ (SamePtr pairs) xs ys) :
      SameObject pairs (.listOfPtr xs) (.listOfPtr ys)

structure SameBlock (pairs : Addr → Addr → Prop) (x y : Block) : Prop where
  typeId : y.typeId = x.typeId
  object : SameObject pairs x.object y.object

/-- The edges of the objects from `base` on. -/
def edgesFrom (base : Nat) (heap : List Block) : List Addr := (heap.drop base).flatMap fun block => block.object.edges

/-! ## The log -/

structure Log where
  entries : List Copied
  pending : List Addr

abbrev Worlds := World Memory Memory Log

def Memory.unread (m : Memory) : List UInt8 := m.bb.data.drop m.bb.offset

/-- The copy is complete. -/
def Done (w : Worlds) (e : Copied) : Prop :=
  ∃ x y, w.writer.heap[e.source]? = some x ∧ w.reader.heap[e.copy]? = some y ∧ SameBlock (Paired w.log.entries) x y

section
variable {types : Types} (graph : Graph types) (root : Option Addr) (base : Nat)

structure Agree (w : Worlds) : Prop where
  source : w.writer.heap = graph.heap
  met : ∀ a offset, w.writer.ptrStore a = some offset → ∃ e ∈ w.log.entries, e.source = a ∧ e.offset = offset
  unmet : ∀ e ∈ w.log.entries, w.writer.ptrStore e.source = some e.offset
  index : ∀ e ∈ w.log.entries, ∀ x, graph.heap[e.source]? = some x →
    w.reader.idxStore e.offset = some (e.copy, x.typeId)
  sources : w.log.entries.Pairwise fun e f => e.source ≠ f.source
  copies : w.log.entries.Pairwise fun e f => e.copy ≠ f.copy
  offsets : w.log.entries.Pairwise fun e f => e.offset ≠ f.offset
  passed : ∀ e ∈ w.log.entries, w.writer.bb.offsetRoot + e.offset < w.writer.bb.data.length
  reached : ∀ e ∈ w.log.entries, Reaches (Points graph.heap) root e.source
  inside : ∀ e ∈ w.log.entries, e.source < graph.heap.length ∧ base ≤ e.copy ∧ e.copy < w.reader.heap.length
  covered : ∀ b, base ≤ b → b < w.reader.heap.length → ∃ e ∈ w.log.entries, e.copy = b
  targets : ∀ b ∈ edgesFrom base w.reader.heap ++ w.log.pending, b < w.reader.heap.length
  refs : ∀ b, base ≤ b → b < w.reader.heap.length →
    w.reader.refs b = UInt32.ofNat ((edgesFrom base w.reader.heap ++ w.log.pending).count b)
  room : base ≤ w.reader.heap.length
  start : w.writer.bb.offsetRoot ≤ w.writer.bb.data.length
  place : w.reader.bb.offset = w.reader.bb.offsetRoot + (w.writer.bb.data.length - w.writer.bb.offsetRoot)
  behind : w.reader.bb.offset ≤ w.reader.bb.data.length
  unlimited : w.reader.bb.readLengthLimit = 0

structure Grows (v w : Worlds) : Prop where
  sources : w.writer.heap = v.writer.heap
  copies : ∀ (b : Addr) (y : Block), v.reader.heap[b]? = some y → w.reader.heap[b]? = some y
  input : w.reader.bb.data = v.reader.bb.data
  log : ∃ new, w.log.entries = new ++ v.log.entries ∧ ∀ e ∈ new, Done w e

/-- What is pending, and how many bytes were written beyond one for each edge. -/
structure Ledger (P : List Addr) (count : Nat) (w : Worlds) : Prop where
  pending : w.log.pending = P
  credit : w.writer.bb.offsetRoot + ((edgesFrom base w.reader.heap).length + P.length + count) ≤
    w.writer.bb.data.length

end

section
variable {u v w : Worlds}

theorem SameObject.mono {pairs pairs' : Addr → Addr → Prop} (more : ∀ a b, pairs a b → pairs' a b) {x y : Object}
    (same : SameObject pairs x y) : SameObject pairs' x y := by
  cases same with
  | string data => exact .string data
  | bbuffer data => exact .bbuffer data
  | list type items => exact .list type items
  | listOfPtr same => exact .listOfPtr (same.imp fun _ _ => SamePtr.mono more)

theorem SameObject.class {pairs : Addr → Addr → Prop} {x y : Object} (same : SameObject pairs x y) :
    y.class = x.class := by
  cases same <;> rfl

theorem Grows.paired (grows : Grows v w) (a b : Addr) (paired : Paired v.log.entries a b) :
    Paired w.log.entries a b := by
  obtain ⟨new, log, -⟩ := grows.log
  rw [log]
  exact paired.mono

theorem Done.mono (grows : Grows v w) {e : Copied} (done : Done v e) : Done w e := by
  obtain ⟨x, y, source, copy, same⟩ := done
  exact ⟨x, y, by rw [grows.sources]; exact source, grows.copies _ _ copy, same.typeId, same.object.mono grows.paired⟩

theorem Grows.refl (w : Worlds) : Grows w w :=
  ⟨rfl, fun _ _ found => found, rfl, [], rfl, fun _ member => absurd member List.not_mem_nil⟩

theorem Grows.trans (first : Grows u v) (second : Grows v w) : Grows u w := by
  obtain ⟨new, log, done⟩ := first.log
  obtain ⟨new', log', done'⟩ := second.log
  refine ⟨second.sources.trans first.sources, fun b y found => second.copies _ _ (first.copies _ _ found),
    second.input.trans first.input, new' ++ new, by rw [log', log, List.append_assoc], fun e member => ?_⟩
  rcases List.mem_append.mp member with late | early
  · exact done' e late
  · exact (done e early).mono second

end

/-- The streams are shorter than a `uint32_t` can tell. -/
def graphLink {types : Types} (graph : Graph types) (root : Option Addr) (base : Nat) : Link Memory Memory Log where
  written := fun m => m.bb.data
  unread := Memory.unread
  limit := 2 ^ 32
  Agree := Agree graph root base
  Grows := Grows
  refl := Grows.refl
  trans := Grows.trans

/-! ## Values -/

section
variable {bytes tail : List UInt8}

theorem appended_appended (m : Memory) (first second : List UInt8) :
    (m.appended first).appended second = m.appended (first ++ second) := by
  simp [Memory.appended]

theorem advanced_advanced (m : Memory) (first second : Nat) :
    (m.advanced first).advanced second = m.advanced (first + second) := by
  simp [Memory.advanced, Nat.add_assoc]

theorem unread_advanced {m : Memory} (input : m.unread = bytes ++ tail) : (m.advanced bytes.length).unread = tail := by
  have drop : (m.advanced bytes.length).unread = m.unread.drop bytes.length := by
    simp [Memory.unread, Memory.advanced, List.drop_drop]
  rw [drop, input, List.drop_left]

/-- There is what is still to be read. -/
theorem inside_of_unread {m : Memory} (input : m.unread = bytes ++ tail) (behind : m.bb.offset ≤ m.bb.data.length) :
    m.bb.offset + bytes.length ≤ m.bb.data.length := by
  have count := congrArg List.length input
  rw [Memory.unread, List.length_drop, List.length_append] at count
  omega

theorem varRead_eq {α : Type} {m : Memory} {varRead7 : List UInt8 → Nat → Except Int (Nat × Nat)} {n : Nat}
    (out : Nat → α) (reads : varRead7 m.bb.data m.bb.offset = .ok (n, m.bb.offset + bytes.length)) :
    varRead varRead7 out m = .ok (out n) (m.advanced bytes.length) := by
  unfold varRead
  rw [reads]
  rfl

theorem readUInt16_eq {m : Memory} {n : UInt16} (input : m.unread = varWrite7U16 n ++ tail) :
    readUInt16 m = .ok n (m.advanced (varWrite7U16 n).length) := by
  have read := varRead_eq UInt16.ofNat (varRead7U16_varWrite7U16 input)
  rwa [UInt16.ofNat_toNat] at read

theorem readSize_eq {m : Memory} {n : Nat} (fits : n < 2 ^ 64) (input : m.unread = sizeBytes n ++ tail) :
    readSize m = .ok n (m.advanced (sizeBytes n).length) := by
  have read := varRead_eq id (varRead7U64_varWrite7U64 input)
  rwa [UInt64.toNat_ofNat_of_lt' fits] at read

theorem readByte_eq {m : Memory} {b : UInt8} (input : m.unread = b :: tail) : readByte m = .ok b (m.advanced 1) := by
  have first : m.bb.data[m.bb.offset]? = some b := by
    have head := congrArg List.head? input
    rwa [Memory.unread, List.head?_drop] at head
  unfold readByte
  rw [first]

/-- A word goes through its number. -/
theorem ofNat_toNat {w : Nat} (v : BitVec w) : BitVec.ofNat w v.toNat = v := by
  rw [BitVec.ofNat_toNat, BitVec.setWidth_eq]

theorem zigZag_ofNat_toNat {w : Nat} (v : BitVec w) : zigZagDecode (BitVec.ofNat w (zigZagEncode v).toNat) = v := by
  rw [ofNat_toNat, zigZagDecode_zigZagEncode]

theorem readInteger_eq {m : Memory} {type : Integer} {v : BitVec type.bits} (input : m.unread = type.bytes v ++ tail) :
    readInteger type m = .ok v (m.advanced (type.bytes v).length) := by
  cases type with
  | int8 => exact bind_run (readByte_eq input) rfl
  | uint8 => exact bind_run (readByte_eq input) rfl
  | int16 =>
    have read := varRead_eq (fun n => zigZagDecode (BitVec.ofNat 16 n)) (varRead7U16_varWrite7U16 input)
    exact read.trans (congrArg (EStateM.Result.ok · _) (zigZag_ofNat_toNat v))
  | uint16 =>
    have read := varRead_eq (BitVec.ofNat 16) (varRead7U16_varWrite7U16 input)
    exact read.trans (congrArg (EStateM.Result.ok · _) (ofNat_toNat v))
  | int32 =>
    have read := varRead_eq (fun n => zigZagDecode (BitVec.ofNat 32 n)) (varRead7_varWrite7 input)
    exact read.trans (congrArg (EStateM.Result.ok · _) (zigZag_ofNat_toNat v))
  | uint32 =>
    have read := varRead_eq (BitVec.ofNat 32) (varRead7_varWrite7 input)
    exact read.trans (congrArg (EStateM.Result.ok · _) (ofNat_toNat v))
  | int64 =>
    have read := varRead_eq (fun n => zigZagDecode (BitVec.ofNat 64 n)) (varRead7U64_varWrite7U64 input)
    exact read.trans (congrArg (EStateM.Result.ok · _) (zigZag_ofNat_toNat v))
  | uint64 =>
    have read := varRead_eq (BitVec.ofNat 64) (varRead7U64_varWrite7U64 input)
    exact read.trans (congrArg (EStateM.Result.ok · _) (ofNat_toNat v))

theorem readBytes_eq {m : Memory} (behind : m.bb.offset ≤ m.bb.data.length) (input : m.unread = bytes ++ tail) :
    readBytes bytes.length m = .ok bytes (m.advanced bytes.length) := by
  have content : (m.bb.data.drop m.bb.offset).take bytes.length = bytes := by
    change m.unread.take bytes.length = bytes
    rw [input, List.take_left]
  unfold readBytes
  rw [if_pos (inside_of_unread input behind), content]

/-- The number of elements, of which each has at least a byte. -/
theorem readLength_eq {m : Memory} {n : Nat} (unlimited : m.bb.readLengthLimit = 0)
    (behind : m.bb.offset ≤ m.bb.data.length) (few : n ≤ bytes.length) (fits : n < 2 ^ 64)
    (input : m.unread = sizeBytes n ++ (bytes ++ tail)) :
    readLength m = .ok n (m.advanced (sizeBytes n).length) := by
  have room := inside_of_unread (unread_advanced input) (inside_of_unread input behind)
  have below := Nat.mod_le ((m.advanced (sizeBytes n).length).bb.offset + n) (2 ^ 64)
  have room : (m.advanced (sizeBytes n).length).bb.offset + bytes.length ≤
      (m.advanced (sizeBytes n).length).bb.data.length := room
  apply bind_run (readSize_eq fits input)
  apply bind_run rfl
  rw [if_neg fun limited => limited.1 unlimited, if_neg (by omega)]
  rfl

end

/-! ## Codecs -/

section
variable {types : Types} {graph : Graph types} {root : Option Addr} {base : Nat} {s t : Memory} {log : Log}
  {bytes tail : List UInt8} {P : List Addr} {c : Nat}

/-- Values are written and read past the objects. -/
theorem Agree.advance (agree : Agree graph root base ⟨s, t, log⟩) (input : t.unread = bytes ++ tail) :
    Agree graph root base ⟨s.appended bytes, t.advanced bytes.length, log⟩ := by
  have room := inside_of_unread input agree.behind
  constructor
  case passed =>
    intro e member
    have passed := agree.passed e member
    simp only [Memory.appended, List.length_append] at passed ⊢
    omega
  case start =>
    have start := agree.start
    simp only [Memory.appended, List.length_append] at start ⊢
    omega
  case place =>
    have start := agree.start
    have place := agree.place
    simp only [Memory.appended, Memory.advanced, List.length_append] at start place ⊢
    omega
  case behind => exact room
  case source => exact agree.source
  case met => exact agree.met
  case unmet => exact agree.unmet
  case index => exact agree.index
  case sources => exact agree.sources
  case copies => exact agree.copies
  case offsets => exact agree.offsets
  case reached => exact agree.reached
  case inside => exact agree.inside
  case covered => exact agree.covered
  case targets => exact agree.targets
  case refs => exact agree.refs
  case room => exact agree.room
  case unlimited => exact agree.unlimited

theorem Grows.advance (count : Nat) : Grows ⟨s, t, log⟩ ⟨s.appended bytes, t.advanced count, log⟩ :=
  ⟨rfl, fun _ _ found => found, rfl, [], rfl, fun _ member => absurd member List.not_mem_nil⟩

theorem Ledger.advance (ledger : Ledger base P c ⟨s, t, log⟩) (count : Nat) :
    Ledger base P (c + bytes.length) ⟨s.appended bytes, t.advanced count, log⟩ := by
  refine ⟨ledger.pending, ?_⟩
  have credit : s.bb.offsetRoot + ((edgesFrom base t.heap).length + P.length + c) ≤ s.bb.data.length := ledger.credit
  change s.bb.offsetRoot + ((edgesFrom base t.heap).length + P.length + (c + bytes.length)) ≤ (s.bb.data ++ bytes).length
  rw [List.length_append]
  omega

theorem Ledger.less {w : Worlds} (ledger : Ledger base P c w) {c' : Nat} (less : c' ≤ c) : Ledger base P c' w := by
  refine ⟨ledger.pending, ?_⟩
  have credit := ledger.credit
  omega

/-- Bytes that are read back without looking at the objects. -/
theorem plain {α : Type} {write : Run Unit} {read : Nat → Run α} {y : α} (bytes : List UInt8)
    (writes : ∀ m, write m = .ok () (m.appended bytes))
    (reads : bytes.length < 2 ^ 32 → ∀ m fuel tail, m.bb.readLengthLimit = 0 → m.bb.offset ≤ m.bb.data.length →
      m.unread = bytes ++ tail → bytes.length ≤ fuel → read fuel m = .ok y (m.advanced bytes.length)) :
    (graphLink graph root base).Codec (Ledger base P c) write read
      fun w _ z => z = y ∧ Ledger base P (c + bytes.length) w := by
  intro s x s' ran
  rw [writes] at ran
  cases ran
  refine ⟨bytes, rfl, fun short t log fuel tail agree ledger input enough => ?_⟩
  have few : bytes.length < 2 ^ 32 := by
    have short : (s.bb.data ++ bytes).length < 2 ^ 32 := short
    rw [List.length_append] at short
    omega
  exact ⟨y, t.advanced bytes.length, log, reads few t fuel tail agree.unlimited agree.behind input enough,
    unread_advanced input, agree.advance input, Grows.advance _, rfl, ledger.advance _⟩

end

end Xxlib.Uv4
