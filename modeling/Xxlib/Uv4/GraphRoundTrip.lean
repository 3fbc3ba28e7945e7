import Xxlib.Lib.Traversal
import Xxlib.Uv4.PtrCodec

/-! Object graphs are read back as they were written, and every copy counts the pointers to it. -/

set_option autoImplicit false

namespace Xxlib.Uv4

open Lib

/-! ## Writing comes to an end -/

section
variable {types : Types} {graph : Graph types} {depth : Nat}

/-- The memory of `graph`, with a buffer that may be read as far as it goes. -/
structure Writable (graph : Graph types) (m : Memory) : Prop where
  heap : m.heap = graph.heap
  unlimited : m.bb.readLengthLimit = 0

/-- Writing returns, where `depth` objects have not been met. -/
abbrev Returns {α : Type} (graph : Graph types) (depth : Nat) (run : Run α) : Prop :=
  Completes (Writable graph) (fun m => unmetCount graph.heap.length m.ptrStore) depth run

theorem append_returns (bytes : List UInt8) : Returns graph depth (append bytes) :=
  fun m writable _ => ⟨(), m.appended bytes, rfl, ⟨writable.heap, writable.unlimited⟩, Nat.le_refl _⟩

theorem toBBuffer_returns {write : Option Addr → Run Unit} {object : Object}
    (writes : ∀ v ∈ object.pointers, Returns graph depth (write v)) : Returns graph depth (toBBuffer write object) := by
  cases object with
  | string data | bbuffer data => exact (append_returns _).bind fun _ => append_returns _
  | list type items => exact (append_returns _).bind fun _ => .forM fun x _ => append_returns _
  | listOfPtr items => exact (append_returns _).bind fun _ => .forM writes

/-- A pointer into the graph, or null. -/
def Inside (heap : List Block) (v : Option Addr) : Prop := ∀ a, v = some a → a < heap.length

theorem writePtr_returns (depth : Nat) {v : Option Addr} (inside : Inside graph.heap v) :
    Returns graph depth (writePtr (depth + 1) v) := by
  induction depth using Nat.strong_induction_on generalizing v with
  | h depth ih =>
    intro m writable few
    cases v with
    | none => exact append_returns [0] m writable few
    | some addr =>
      have bound := inside addr rfl
      have found : m.heap[addr]? = some graph.heap[addr] := by
        rw [writable.heap, List.getElem?_eq_getElem bound]
      cases known : m.ptrStore addr with
      | some offset =>
        rw [writePtr_known found known]
        exact ⟨(), _, rfl, ⟨writable.heap, writable.unlimited⟩, Nat.le_refl _⟩
      | none =>
        have valid := graph.valid _ (List.getElem_mem bound)
        have fewer := unmetCount_update_lt bound known (m.nextOffset graph.heap[addr].typeId)
        have few : unmetCount graph.heap.length m.ptrStore ≤ depth := few
        -- this object has not been met, so that `depth` is not 0
        obtain ⟨depth, rfl⟩ : ∃ before, depth = before + 1 := ⟨depth - 1, by omega⟩
        have body : Returns graph depth (toBBuffer (writePtr (depth + 1)) graph.heap[addr].object) :=
          toBBuffer_returns fun v member => ih depth (Nat.lt_succ_self depth) fun a here =>
            valid.inside a (List.mem_flatMap.mpr ⟨v, member, Option.mem_toList.mpr here⟩)
        have few : unmetCount graph.heap.length (Function.update m.ptrStore addr _) ≤ depth :=
          Nat.le_of_lt_succ (Nat.lt_of_lt_of_le fewer few)
        obtain ⟨u, m', ran, writable', less⟩ :=
          body (m.opened addr graph.heap[addr].typeId) ⟨writable.heap, writable.unlimited⟩ few
        exact ⟨u, m', (writePtr_new found known).trans ran, writable', Nat.le_trans less (Nat.le_of_lt fewer)⟩

end

/-! ## Roots -/

section
variable {types : Types} {graph : Graph types} {root : Option Addr} {base : Nat}

theorem pointers (fuel : Nat) : Pointers graph root base (writePtr fuel) (readPtr types 0) := by
  induction fuel with
  | zero =>
    constructor
    case codec =>
      intro v _ P c s u s' ran
      cases ran
    case longer => exact fun v s u s' ran => nomatch ran
    case positive => exact fun v s u s' ran => nomatch ran
  | succ fuel ih =>
    refine ⟨fun v reached P c => ih.next_codec v reached (fun a block _ found => ?_) P c,
      fun v s u s' ran => (ih.next_longer v s u s' ran).1, fun v s u s' ran => (ih.next_longer v s u s' ran).2⟩
    -- every class derives from `Object`
    obtain ⟨shape, registered⟩ := graph.block_eq found
    rw [shape]
    exact registered.isBaseOf

/-- The memory in which a root is written, or read. -/
def Memory.begun (m : Memory) : Memory :=
  { m with ptrStore := fun _ => none, bb := { m.bb with offsetRoot := m.bb.data.length } }

def Memory.begunRead (m : Memory) : Memory :=
  { m with idxStore := fun _ => none, bb := { m.bb with offsetRoot := m.bb.offset } }

theorem writeRoot_eq (v : Option Addr) (m : Memory) : writeRoot v m = writePtr (m.heap.length + 1) v m.begun :=
  bind_run rfl (bind_run rfl rfl)

theorem readRoot_eq (baseId : UInt16) (m : Memory) :
    readRoot types baseId m = readTo (readPtr types baseId (m.bb.data.length + 1)) m.begunRead :=
  bind_run rfl (bind_run rfl rfl)

theorem edgesFrom_end (heap : List Block) : edgesFrom heap.length heap = [] := by
  rw [edgesFrom, List.drop_length]
  rfl

/-- Nothing has been copied. -/
theorem agree_begun {s t : Memory} (same : s.heap = graph.heap) (behind : t.bb.offset ≤ t.bb.data.length)
    (unlimited : t.bb.readLengthLimit = 0) : Agree graph root t.heap.length ⟨s.begun, t.begunRead, ⟨[], []⟩⟩ := by
  constructor
  case source => exact same
  case met => exact fun _ _ never => nomatch never
  case unmet => exact fun _ member => absurd member List.not_mem_nil
  case index => exact fun _ member => absurd member List.not_mem_nil
  case sources => exact .nil
  case copies => exact .nil
  case offsets => exact .nil
  case passed => exact fun _ member => absurd member List.not_mem_nil
  case reached => exact fun _ member => absurd member List.not_mem_nil
  case inside => exact fun _ member => absurd member List.not_mem_nil
  case covered => exact fun b low high => absurd high (Nat.not_lt.mpr low)
  case targets =>
    intro b member
    change b ∈ edgesFrom t.heap.length t.heap ++ [] at member
    rw [edgesFrom_end] at member
    cases member
  case refs => exact fun b low high => absurd high (Nat.not_lt.mpr low)
  case room => exact Nat.le_refl _
  case start => exact Nat.le_refl _
  case place => simp [Memory.begun, Memory.begunRead]
  case behind => exact behind
  case unlimited => exact unlimited

/-- What is behind `r` from the address `base` on is a copy of what is behind `v`, and every copy counts the pointers to
it: those in the copies, and the root. -/
structure IsCopy (heap : List Block) (v : Option Addr) (base : Nat) (m : Memory) (r : Option Addr) : Prop where
  isomorphic : ∃ pairs, Isomorphism SameBlock heap m.heap v r pairs ∧
    (∀ a, Reaches (Points heap) v a ↔ ∃ b, pairs a b) ∧ ∀ b, base ≤ b ∧ b < m.heap.length ↔ ∃ a, pairs a b
  refs : ∀ b, base ≤ b → b < m.heap.length → (m.refs b).toNat = (edgesFrom base m.heap).count b + r.toList.count b

/-- An edge of the one is an edge of the other. -/
theorem SameObject.edge {pairs : Addr → Addr → Prop} {x y : Object} (same : SameObject pairs x y) {a : Addr}
    (edge : a ∈ x.edges) : ∃ b, pairs a b := by
  cases same with
  | string data | bbuffer data | list type items => cases edge
  | listOfPtr same =>
    obtain ⟨v, member, here⟩ := List.mem_flatMap.mp edge
    obtain rfl : v = some a := Option.mem_toList.mp here
    obtain ⟨r, -, pointer⟩ := forall₂_exists same member
    cases pointer with
    | ptr related => exact ⟨_, related⟩

theorem reaches_paired {heap heap' : List Block} {v r : Option Addr} {pairs : Addr → Addr → Prop}
    (same : Isomorphism SameBlock heap heap' v r pairs) {a : Addr} (reaches : Reaches (Points heap) v a) :
    ∃ b, pairs a b := by
  obtain ⟨first, rfl, path⟩ := reaches
  induction path with
  | refl =>
    cases same.root with
    | ptr related => exact ⟨_, related⟩
  | tail _ step ih =>
    obtain ⟨b, related⟩ := ih
    obtain ⟨x, y, source, -, alike⟩ := same.objects _ _ related
    obtain ⟨block, source', edge⟩ := step
    cases source.symm.trans source'
    exact alike.object.edge edge

/-- When everything in the log is complete, what it pairs are copies. -/
theorem isCopy_of_log {w : Worlds} (agree : Agree graph root base w) (done : ∀ e ∈ w.log.entries, Done w e)
    {r : Option Addr} (same : SamePtr (Paired w.log.entries) root r) (ledger : Ledger base r.toList 0 w)
    (short : w.writer.bb.data.length < 2 ^ 32) : IsCopy graph.heap root base w.reader r := by
  have isomorphic : Isomorphism SameBlock graph.heap w.reader.heap root r (Paired w.log.entries) := by
    refine ⟨fun a b b' => Paired.functional agree.sources, fun a a' b => Paired.injective agree.copies, ?_, same⟩
    rintro a b ⟨e, member, rfl, rfl⟩
    obtain ⟨x, y, source, copy, alike⟩ := done e member
    rw [agree.source] at source
    exact ⟨x, y, source, copy, alike⟩
  refine ⟨⟨_, isomorphic, fun a => ⟨reaches_paired isomorphic, ?_⟩, fun b => ⟨?_, ?_⟩⟩, fun b low high => ?_⟩
  · rintro ⟨b, e, member, rfl, -⟩
    exact agree.reached e member
  · rintro ⟨low, high⟩
    obtain ⟨e, member, rfl⟩ := agree.covered b low high
    exact ⟨e.source, e, member, rfl, rfl⟩
  · rintro ⟨a, e, member, -, rfl⟩
    exact (agree.inside e member).2
  · have counted := agree.refs b low high
    have credit := ledger.credit
    have few : (edgesFrom base w.reader.heap ++ r.toList).count b ≤ (edgesFrom base w.reader.heap ++ r.toList).length :=
      List.count_le_length
    rw [List.length_append] at few
    have below : (edgesFrom base w.reader.heap ++ r.toList).count b < 2 ^ 32 := by omega
    rw [counted, ledger.pending, UInt32.toNat_ofNat_of_lt' below, List.count_append]

end

/-- A graph that is appended to a buffer is written, and read back from where it begins: all of it is read, and a
copy is made. `baseId` is the static type of the root. -/
theorem root_round_trip {types : Types} (graph : Graph types) (v : Option Addr) (inside : Inside graph.heap v)
    (baseId : UInt16) (derived : ∀ a block, v = some a → graph.heap[a]? = some block →
      types.isBaseOf baseId block.typeId = some true) (m : Memory) (same : m.heap = graph.heap)
    (unlimited : m.bb.readLengthLimit = 0) : ∃ m', writeRoot v m = .ok () m' ∧ m.bb.data <+: m'.bb.data ∧
      (m'.bb.data.length < 2 ^ 32 → ∃ r t', readRoot types baseId
        { m' with bb := { m'.bb with offset := m.bb.data.length } } = .ok r t' ∧
          t'.bb.data = m'.bb.data ∧ t'.bb.offset = t'.bb.data.length ∧ IsCopy graph.heap v m'.heap.length t' r) := by
  have few : unmetCount graph.heap.length m.begun.ptrStore ≤ graph.heap.length := unmetCount_le _ _
  obtain ⟨u, m', ran, writable, -⟩ := writePtr_returns graph.heap.length inside m.begun ⟨same, unlimited⟩ few
  have reached : ∀ a, v = some a → Reaches (Points graph.heap) v a := fun a root => ⟨a, root, .refl⟩
  have known : Pointers graph v m'.heap.length (writePtr graph.heap.length) (readPtr types 0) := pointers _
  have nested := known.next_codec v reached derived [] 0
  obtain ⟨bytes, written, reads⟩ := readTo_codec nested _ _ _ ran
  have written : m'.bb.data = m.bb.data ++ bytes := written
  refine ⟨m', by rw [writeRoot_eq, same]; exact ran, ⟨bytes, written.symm⟩, fun short => ?_⟩
  let t : Memory := { m' with bb := { m'.bb with offset := m.bb.data.length } }
  have input : t.begunRead.unread = bytes ++ [] := by
    change m'.bb.data.drop m.bb.data.length = bytes ++ []
    rw [written, List.drop_left, List.append_nil]
  have behind : t.bb.offset ≤ t.bb.data.length := by
    change m.bb.data.length ≤ m'.bb.data.length
    rw [written, List.length_append]
    exact Nat.le_add_right _ _
  have enough : bytes.length ≤ t.bb.data.length + 1 := by
    change bytes.length ≤ m'.bb.data.length + 1
    rw [written, List.length_append]
    omega
  have begun : Agree graph v m'.heap.length ⟨m.begun, t.begunRead, ⟨[], []⟩⟩ :=
    agree_begun (t := t) same behind writable.unlimited
  have ledger : Ledger m'.heap.length [] 0 ⟨m.begun, t.begunRead, ⟨[], []⟩⟩ := by
    refine ⟨rfl, ?_⟩
    change m.bb.data.length + ((edgesFrom m'.heap.length m'.heap).length + 0 + 0) ≤ m.bb.data.length
    rw [edgesFrom_end]
    exact Nat.le_refl _
  obtain ⟨r, t', log, read, rest, agree, grows, paired, spent⟩ :=
    reads short t.begunRead ⟨[], []⟩ (t.bb.data.length + 1) [] begun ledger input enough
  have done : ∀ e ∈ log.entries, Done ⟨m', t', log⟩ e := by
    obtain ⟨new, split, done⟩ := grows.log
    have split : log.entries = new := split.trans (List.append_nil new)
    rw [split]
    exact done
  have kept : t'.bb.data = m'.bb.data := grows.input
  refine ⟨r, t', (readRoot_eq baseId t).trans read, kept, ?_, isCopy_of_log agree done paired spent short⟩
  have inside : t'.bb.offset ≤ t'.bb.data.length := agree.behind
  have nothing : t'.bb.data.length ≤ t'.bb.offset := List.drop_eq_nil_iff.mp rest
  exact Nat.le_antisymm inside nothing

/-- The internal types, and two lists. -/
def listTypes : Types :=
  let fresh : Types := {
    typeId := fun
      | .string => 1
      | .bbuffer => 2
      | .listOfPtr => 3
      | .list _ => 4
    pids := fun _ => 0
    creators := fun _ => none }
  (((fresh.register .string 0).register .bbuffer 0).register .listOfPtr 0).register (.list .int16) 0

/-- A list that holds itself, and another list twice. -/
def ownElement : Graph listTypes where
  heap := [⟨3, .listOfPtr [some 0, some 1, none, some 1]⟩, ⟨4, .list .int16 [-1, 300]⟩]
  valid := by
    intro block member
    rcases List.mem_cons.mp member with rfl | second
    · exact ⟨rfl, ⟨by decide, by decide, rfl, 1, rfl⟩, by decide⟩
    · rw [List.mem_singleton.mp second]
      exact ⟨rfl, ⟨by decide, by decide, rfl, 1, rfl⟩, by decide⟩

theorem root_round_trip_cycle : ∃ m' r t', writeRoot (some 0) { heap := ownElement.heap } = .ok () m' ∧
    readRoot listTypes 0 { m' with bb := { m'.bb with offset := 0 } } = .ok r t' ∧
      t'.bb.offset = t'.bb.data.length ∧ IsCopy ownElement.heap (some 0) 2 t' r := by
  have inside : Inside ownElement.heap (some 0) := by
    rintro a same
    cases same
    decide
  have derived : ∀ a block, some 0 = some a → ownElement.heap[a]? = some block →
      listTypes.isBaseOf 0 block.typeId = some true := by
    rintro a block same found
    cases same
    cases found
    rfl
  obtain ⟨m', wrote, -, reads⟩ :=
    root_round_trip ownElement (some 0) inside 0 derived { heap := ownElement.heap } rfl rfl
  have facts : (match writeRoot (some 0) { heap := ownElement.heap } with
      | .ok _ m => decide (m.bb.data.length < 2 ^ 32 ∧ m.heap.length = 2)
      | .error _ _ => false) = true := by decide +kernel
  rw [wrote] at facts
  obtain ⟨short, size⟩ := of_decide_eq_true facts
  obtain ⟨r, t', read, -, all, copy⟩ := reads short
  exact ⟨m', r, t', wrote, read, all, size ▸ copy⟩

end Xxlib.Uv4
