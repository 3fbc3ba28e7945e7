import Xxlib.Uv4.ObjectGraph

/-! What `WritePtr` writes, `ReadPtr` reads back.

An object that is met for the first time gets an entry in the log, and its content follows; any other pointer is the
offset of an object that is in the log. The content is considered without the recursion: `Pointers` is what it needs to
know about the pointers in it.
-/

set_option autoImplicit false

namespace Xxlib.Uv4

open Lib

section
variable {types : Types} {graph : Graph types} {root : Option Addr} {base : Nat} {P : List Addr} {c : Nat}

/-! ## Content -/

/-- The content of a string, or of a buffer. -/
theorem data_codec (data : List UInt8) (make : List UInt8 → Object) : (graphLink graph root base).Codec (Ledger base P c)
    (do writeSize data.length; append data) (fun _ => do return make (← readBytes (← readLength)))
    fun w _ z => z = make data ∧ Ledger base P c w := by
  have codec : (graphLink graph root base).Codec (Ledger base P c) (do writeSize data.length; append data)
      (fun _ => do return make (← readBytes (← readLength)))
      fun w _ z => z = make data ∧ Ledger base P (c + (sizeBytes data.length ++ data).length) w := by
    apply plain (sizeBytes data.length ++ data)
    · intro m
      exact congrArg (EStateM.Result.ok ()) (appended_appended m _ data)
    · intro few m _ tail unlimited behind input _
      rw [List.length_append] at few
      rw [List.append_assoc] at input
      have length := readLength_eq unlimited behind (Nat.le_refl _) (by omega) input
      have room := inside_of_unread input behind
      have content := readBytes_eq room (unread_advanced input)
      rw [advanced_advanced, ← List.length_append] at content
      exact bind_run length (bind_run content rfl)
  exact codec.imp (fun _ ledger => ledger) fun w _ z after => ⟨after.1, after.2.less (Nat.le_add_right _ _)⟩

/-- Elements that are written one after the other. What is pending grows by what each of them adds. -/
theorem items_codec {α β : Type} [Nonempty β] (items : List α) {write : α → Run Unit} {read : Nat → Run β}
    (adds : β → List Addr) {R : Worlds → α → β → Prop}
    (stable : ∀ x y, (graphLink graph root base).Stable fun w => R w x y)
    (each : ∀ x ∈ items, ∀ P, (graphLink graph root base).Codec (Ledger base P c) (write x) read
      fun w _ y => R w x y ∧ Ledger base (P ++ adds y) c w) (P : List Addr) :
    (graphLink graph root base).Codec (Ledger base P c) (items.forM write) (fun fuel => collect (read fuel) items.length)
      fun w _ ys => List.Forall₂ (R w) items ys ∧ Ledger base (P ++ ys.flatMap adds) c w := by
  induction items generalizing P with
  | nil => exact .done fun w ledger => ⟨.nil, by rw [List.flatMap_nil, List.append_nil]; exact ledger⟩
  | cons x items ih =>
    apply Link.Codec.bind (each x List.mem_cons_self P)
    intro _ y
    have rest := ih (fun other member => each other (List.mem_cons_of_mem x member)) (P ++ adds y)
    apply (rest.frame (stable x y)).inspect
    intro w _ ys _ after
    obtain ⟨first, same, ledger⟩ := after
    refine ⟨y :: ys, rfl, .cons first same, ?_⟩
    rw [List.flatMap_cons, ← List.append_assoc]
    exact ledger

/-- A list: the number of its elements, and the elements. -/
theorem list_codec {α β : Type} [Nonempty β] (items : List α) {write : α → Run Unit} {read : Nat → Run β}
    (make : List β → Object) (adds : β → List Addr) {R : Worlds → α → β → Prop}
    (stable : ∀ x y, (graphLink graph root base).Stable fun w => R w x y)
    (each : ∀ x ∈ items, ∀ P, (graphLink graph root base).Codec (Ledger base P c) (write x) read
      fun w _ y => R w x y ∧ Ledger base (P ++ adds y) c w)
    (positive : ∀ x s u s', write x s = .ok u s' → s.bb.data.length < s'.bb.data.length) :
    (graphLink graph root base).Codec (Ledger base P c) (do writeSize items.length; items.forM write)
      (fun fuel => do return make (← collect (read fuel) (← readLength)))
      fun w _ z => ∃ ys, z = make ys ∧ List.Forall₂ (R w) items ys ∧ Ledger base (P ++ ys.flatMap adds) c w := by
  intro s u s' ran
  obtain ⟨_, s₁, first, rest⟩ := bind_ok ran
  cases first
  have count := forM_size positive items rest
  obtain ⟨bytes, written, reads⟩ := items_codec items adds stable each P _ _ _ rest
  have written : s'.bb.data = s.bb.data ++ sizeBytes items.length ++ bytes := written
  refine ⟨sizeBytes items.length ++ bytes, by rw [← List.append_assoc]; exact written, ?_⟩
  intro short t log fuel tail agree ledger input enough
  rw [List.append_assoc] at input
  rw [List.length_append] at enough
  have few : items.length ≤ bytes.length := by
    have count : (s.bb.data ++ sizeBytes items.length).length + items.length ≤ s'.bb.data.length := count
    have total := congrArg List.length written
    rw [List.length_append] at total
    omega
  have fits : items.length < 2 ^ 64 := by
    have short : s'.bb.data.length < 2 ^ 32 := short
    rw [written, List.length_append] at short
    omega
  have length := readLength_eq agree.unlimited agree.behind few fits input
  obtain ⟨ys, t', log', read, rest', agree', grows, same, ledger'⟩ := reads short _ log fuel tail (agree.advance input)
    ((ledger.advance _).less (Nat.le_add_right _ _)) (unread_advanced input) (by omega)
  exact ⟨make ys, t', log', bind_run length (bind_run read rfl), rest', agree', (Grows.advance _).trans grows, ys, rfl,
    same, ledger'⟩

theorem varWrite7U16_pos (n : UInt16) : 0 < (varWrite7U16 n).length := by
  rw [varWrite7U16, varWrite7Loop_eq]
  exact Varint.encode_length_pos 2 _

theorem varWrite7_pos (n : UInt32) : 0 < (varWrite7 n).length := by
  rw [varWrite7, varWrite7Loop_eq]
  exact Varint.encode_length_pos 4 _

theorem varWrite7U64_pos (n : UInt64) : 0 < (varWrite7U64 n).length := by
  rw [varWrite7U64, varWrite7U64Loop_eq]
  exact Varint.encodeFull_length_pos 8 _

theorem integer_pos (type : Integer) (v : BitVec type.bits) : 0 < (type.bytes v).length := by
  cases type with
  | int8 | uint8 => exact Nat.one_pos
  | int16 | uint16 => exact varWrite7U16_pos _
  | int32 | uint32 => exact varWrite7_pos _
  | int64 | uint64 => exact varWrite7U64_pos _

theorem append_positive {bytes : List UInt8} (some : 0 < bytes.length) {s s' : Memory} {u : Unit}
    (ran : append bytes s = .ok u s') : s.bb.data.length < s'.bb.data.length := by
  cases ran
  change s.bb.data.length < (s.bb.data ++ bytes).length
  rw [List.length_append]
  omega

/-- What objects need to know about the pointers in them. -/
structure Pointers (graph : Graph types) (root : Option Addr) (base : Nat) (write : Option Addr → Run Unit)
    (read : Nat → Run (Option Addr)) : Prop where
  codec : ∀ v, (∀ a, v = some a → Reaches (Points graph.heap) root a) → ∀ P c,
    (graphLink graph root base).Codec (Ledger base P c) (write v) read
      fun w _ r => SamePtr (Paired w.log.entries) v r ∧ Ledger base P (c + 1) w
  longer : ∀ v s u s', write v s = .ok u s' → s.bb.data <+: s'.bb.data
  positive : ∀ v s u s', write v s = .ok u s' → s.bb.data.length < s'.bb.data.length

theorem append_longer {bytes : List UInt8} {s s' : Memory} {u : Unit} (ran : append bytes s = .ok u s') :
    s.bb.data <+: s'.bb.data := by
  cases ran
  exact List.prefix_append _ _

theorem toBBuffer_longer {write : Option Addr → Run Unit}
    (longer : ∀ v s u s', write v s = .ok u s' → s.bb.data <+: s'.bb.data) {object : Object} {s s' : Memory} {u : Unit}
    (ran : toBBuffer write object s = .ok u s') : s.bb.data <+: s'.bb.data := by
  cases object with
  | string data | bbuffer data =>
    obtain ⟨_, s₁, first, rest⟩ := bind_ok ran
    exact (append_longer first).trans (append_longer rest)
  | list type items =>
    obtain ⟨_, s₁, first, rest⟩ := bind_ok ran
    have all := forM_trans (R := fun s s' : Memory => s.bb.data <+: s'.bb.data) (fun _ => List.prefix_rfl)
      (fun one two => one.trans two) (fun _ _ _ _ ran => append_longer ran) items rest
    exact (append_longer first).trans all
  | listOfPtr items =>
    obtain ⟨_, s₁, first, rest⟩ := bind_ok ran
    have all := forM_trans (R := fun s s' : Memory => s.bb.data <+: s'.bb.data) (fun _ => List.prefix_rfl)
      (fun one two => one.trans two) longer items rest
    exact (append_longer first).trans all

/-- A pointer that is read into an empty `Ptr` is counted, and its byte is spent. -/
theorem Agree.assigned {s t : Memory} {log : Log} (agree : Agree graph root base ⟨s, t, log⟩) {b : Addr}
    (inside : b < t.heap.length) :
    Agree graph root base ⟨s, { t with refs := Function.update t.refs b (t.refs b + 1) },
      { log with pending := log.pending ++ [b] }⟩ := by
  constructor
  case targets =>
    intro i member
    rw [← List.append_assoc] at member
    rcases List.mem_append.mp member with old | new
    · exact agree.targets i old
    · exact List.mem_singleton.mp new ▸ inside
  case refs =>
    intro i low high
    have counted := agree.refs i low high
    dsimp only at counted ⊢
    rw [← List.append_assoc, List.count_append]
    by_cases here : i = b
    · rw [here, Function.update_self, List.count_singleton_self, UInt32.ofNat_add, ← here, counted]
      rfl
    · rw [Function.update_of_ne here, counted, List.count_singleton, if_neg (by simpa using fun same => here same.symm)]
      rfl
  case source => exact agree.source
  case met => exact agree.met
  case unmet => exact agree.unmet
  case index => exact agree.index
  case sources => exact agree.sources
  case copies => exact agree.copies
  case offsets => exact agree.offsets
  case passed => exact agree.passed
  case reached => exact agree.reached
  case inside => exact agree.inside
  case covered => exact agree.covered
  case room => exact agree.room
  case start => exact agree.start
  case place => exact agree.place
  case behind => exact agree.behind
  case unlimited => exact agree.unlimited

theorem readTo_codec {v : Option Addr} {write : Run Unit} {read : Nat → Run (Option Addr)}
    (codec : (graphLink graph root base).Codec (Ledger base P c) write read
      fun w _ r => SamePtr (Paired w.log.entries) v r ∧ Ledger base P (c + 1) w) :
    (graphLink graph root base).Codec (Ledger base P c) write (fun fuel => readTo (read fuel))
      fun w _ r => SamePtr (Paired w.log.entries) v r ∧ Ledger base (P ++ r.toList) c w := by
  apply codec.follow
  intro s t log x r agree after
  obtain ⟨same, ledger⟩ := after
  cases r with
  | none =>
    refine ⟨none, t, log, rfl, rfl, agree, Grows.refl _, same, ?_⟩
    rw [Option.toList_none, List.append_nil]
    exact ledger.less (Nat.le_succ c)
  | some b =>
    have inside : b < t.heap.length := by
      cases same with
      | ptr related =>
        obtain ⟨e, member, -, rfl⟩ := related
        exact (agree.inside e member).2.2
    refine ⟨some b, _, { log with pending := log.pending ++ [b] }, rfl, rfl, agree.assigned inside, ?_, same, ?_⟩
    · exact ⟨rfl, fun _ _ found => found, rfl, [], rfl, fun _ member => absurd member List.not_mem_nil⟩
    · refine ⟨congrArg (· ++ [b]) ledger.pending, ?_⟩
      have credit := ledger.credit
      dsimp only at credit ⊢
      rw [List.length_append, Option.toList_some, List.length_singleton]
      omega

theorem stable_paired (v r : Option Addr) :
    (graphLink graph root base).Stable fun w => SamePtr (Paired w.log.entries) v r :=
  fun _ _ grows same => same.mono (Grows.paired grows)

section
variable {write : Option Addr → Run Unit} {read : Nat → Run (Option Addr)} (pointers : Pointers graph root base write read)
include pointers

/-- The content of an object that was reached. -/
theorem Pointers.body (object : Object) (reached : ∀ a ∈ object.edges, Reaches (Points graph.heap) root a) :
    (graphLink graph root base).Codec (Ledger base P c) (toBBuffer write object)
      (fun fuel => fromBBuffer (read fuel) object.class)
      fun w _ z => SameObject (Paired w.log.entries) object z ∧ Ledger base (P ++ z.edges) c w := by
  cases object with
  | string data =>
    apply (data_codec data .string).imp (fun _ ledger => ledger)
    rintro w _ z ⟨rfl, ledger⟩
    exact ⟨.string data, by rw [show (Object.string data).edges = [] from rfl, List.append_nil]; exact ledger⟩
  | bbuffer data =>
    apply (data_codec data .bbuffer).imp (fun _ ledger => ledger)
    rintro w _ z ⟨rfl, ledger⟩
    exact ⟨.bbuffer data, by rw [show (Object.bbuffer data).edges = [] from rfl, List.append_nil]; exact ledger⟩
  | list type items =>
    have each : ∀ x ∈ items, ∀ P, (graphLink graph root base).Codec (Ledger base P c) (writeInteger type x)
        (fun _ => readInteger type) fun w _ y => y = x ∧ Ledger base (P ++ []) c w := by
      intro x _ P
      apply (plain (type.bytes x) (fun _ => rfl) fun _ _ _ _ _ _ input _ => readInteger_eq input).imp fun _ ledger => ledger
      rintro w _ y ⟨same, ledger⟩
      rw [List.append_nil]
      exact ⟨same, ledger.less (Nat.le_add_right _ _)⟩
    apply (list_codec items (.list type) (fun _ => []) (fun x y => Link.Stable.fixed (y = x)) each
      fun x s u s' ran => append_positive (integer_pos type x) ran).imp fun _ ledger => ledger
    rintro w _ z ⟨ys, rfl, same, ledger⟩
    obtain rfl : ys = items := by
      clear ledger each reached
      induction same with
      | nil => rfl
      | cons first _ ih => rw [first, ih]
    refine ⟨.list type ys, ?_⟩
    rw [List.flatMap_eq_nil_iff.mpr fun _ _ => rfl] at ledger
    exact ledger
  | listOfPtr items =>
    have each : ∀ v ∈ items, ∀ P, (graphLink graph root base).Codec (Ledger base P c) (write v)
        (fun fuel => readTo (read fuel))
        fun w _ r => SamePtr (Paired w.log.entries) v r ∧ Ledger base (P ++ r.toList) c w := by
      intro v member P
      refine readTo_codec (pointers.codec v (fun a same => reached a ?_) P c)
      exact List.mem_flatMap.mpr ⟨v, member, Option.mem_toList.mpr same⟩
    apply (list_codec items .listOfPtr Option.toList stable_paired each pointers.positive).imp fun _ ledger => ledger
    rintro w _ z ⟨ys, rfl, same, ledger⟩
    exact ⟨.listOfPtr same, ledger⟩

end

end

end Xxlib.Uv4
