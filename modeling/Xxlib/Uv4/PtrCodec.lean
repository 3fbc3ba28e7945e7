import Mathlib.Data.Fintype.Card
import Mathlib.Order.Interval.Finset.Nat
import Xxlib.Lib.Growing
import Xxlib.Uv4.GraphCodec

/-! `WritePtr` and `ReadPtr` fit together: the recursion. -/

set_option autoImplicit false

namespace Xxlib.Uv4

open Lib

/-! ## Parents -/

section
variable {types : Types} {id : UInt16}

/-- The parents of an id do not repeat on the way to `Object`. -/
theorem iterate_injective {f : UInt16 → UInt16} {n : Nat} (last : f^[n] id = 0) (first : ∀ k < n, f^[k] id ≠ 0)
    {i j : Nat} (low : i < j) (high : j ≤ n) : f^[i] id ≠ f^[j] id := by
  intro same
  apply first (i + (n - j)) (by omega)
  calc f^[i + (n - j)] id = f^[n - j] (f^[i] id) := by rw [Nat.add_comm, Function.iterate_add_apply]
    _ = f^[n - j] (f^[j] id) := by rw [same]
    _ = f^[n] id := by rw [← Function.iterate_add_apply, Nat.sub_add_cancel high]
    _ = 0 := last

/-- The way to `Object` is not longer than there are ids. -/
theorem exists_parent {f : UInt16 → UInt16} (parents : ∃ n, f^[n] id = 0) :
    ∃ n < 2 ^ 16, f^[n] id = 0 ∧ ∀ k < n, f^[k] id ≠ 0 := by
  have last := Nat.find_spec parents
  have first : ∀ k < Nat.find parents, f^[k] id ≠ 0 := fun k less => Nat.find_min parents less
  refine ⟨Nat.find parents, ?_, last, first⟩
  generalize Nat.find parents = n at last first
  have injective : Function.Injective fun k : Fin (n + 1) => (f^[k.val] id).toFin := by
    intro i j same
    have same : f^[i.val] id = f^[j.val] id := UInt16.toFin_inj.mp same
    rcases Nat.lt_trichotomy i.val j.val with less | equal | more
    · exact absurd same (iterate_injective last first less (Nat.le_of_lt_succ j.isLt))
    · exact Fin.ext equal
    · exact absurd same.symm (iterate_injective last first more (Nat.le_of_lt_succ i.isLt))
  have count := Fintype.card_le_of_injective _ injective
  simp only [Fintype.card_fin] at count
  exact count

theorem isBaseOfLoop_object {n fuel : Nat} (last : types.pids^[n] id = 0) (first : ∀ k < n, types.pids^[k] id ≠ 0)
    (enough : n < fuel) : types.isBaseOfLoop 0 fuel id = some true := by
  induction n generalizing id fuel with
  | zero =>
    obtain ⟨fuel, rfl⟩ : ∃ before, fuel = before + 1 := ⟨fuel - 1, by omega⟩
    exact if_pos last
  | succ n ih =>
    obtain ⟨fuel, rfl⟩ : ∃ before, fuel = before + 1 := ⟨fuel - 1, by omega⟩
    have here : id ≠ 0 := first 0 (Nat.succ_pos n)
    have moves : id ≠ types.pids id := by
      intro fixed
      have stays : types.pids^[n + 1] id = id := Function.iterate_fixed fixed.symm (n + 1)
      exact here (stays.symm.trans last)
    rw [Types.isBaseOfLoop, if_neg here, if_neg (not_or.mpr ⟨here, moves⟩)]
    exact ih last (fun k less => first (k + 1) (Nat.succ_lt_succ less)) (by omega)

theorem Types.Registered.isBaseOf {T : Class} (registered : types.Registered T) :
    types.isBaseOf 0 (types.typeId T) = some true := by
  obtain ⟨n, few, last, first⟩ := exists_parent registered.parents
  exact isBaseOfLoop_object last first few

end

/-! ## Pointers -/

/-- What is written in front of an object, or instead of it. -/
def headBytes (typeId : UInt16) (offset : Nat) : List UInt8 := varWrite7U16 typeId ++ sizeBytes offset

/-- The offset of an object that is written now: behind its type id. -/
def Memory.nextOffset (m : Memory) (typeId : UInt16) : Nat :=
  m.bb.data.length + (varWrite7U16 typeId).length - m.bb.offsetRoot

/-- The memory when the content of an object comes to be written. -/
def Memory.opened (m : Memory) (addr : Addr) (typeId : UInt16) : Memory :=
  { m.appended (headBytes typeId (m.nextOffset typeId)) with
    ptrStore := Function.update m.ptrStore addr (some (m.nextOffset typeId)) }

/-- The memory when the content of an object comes to be read. -/
def Memory.published (m : Memory) (types : Types) (T : Class) (offset : Nat) : Memory :=
  { m.advanced (headBytes (types.typeId T) offset).length with
    heap := m.heap ++ [⟨types.typeId T, T.empty⟩]
    refs := Function.update m.refs m.heap.length 0
    idxStore := Function.update m.idxStore offset (some (m.heap.length, types.typeId T)) }

theorem headBytes_length (typeId : UInt16) (offset : Nat) : 2 ≤ (headBytes typeId offset).length := by
  have id := varWrite7U16_pos typeId
  have size := varWrite7U64_pos (UInt64.ofNat offset)
  rw [headBytes, sizeBytes, List.length_append]
  omega

section
variable {m : Memory} {fuel : Nat} {addr : Addr} {block : Block}

theorem load_found (found : m.heap[addr]? = some block) : load addr m = .ok block m := by
  unfold load
  rw [found]

theorem writePtr_known {offset : Nat} (found : m.heap[addr]? = some block) (known : m.ptrStore addr = some offset) :
    writePtr (fuel + 1) (some addr) m = .ok () (m.appended (headBytes block.typeId offset)) := by
  apply bind_run (load_found found)
  apply bind_run rfl
  apply bind_run rfl
  rw [headBytes, ← appended_appended]
  simp only [Memory.appended, known]
  rfl

theorem writePtr_new (found : m.heap[addr]? = some block) (unknown : m.ptrStore addr = none) :
    writePtr (fuel + 1) (some addr) m =
      toBBuffer (writePtr fuel) block.object (m.opened addr block.typeId) := by
  have here : (m.bb.data ++ varWrite7U16 block.typeId).length - m.bb.offsetRoot = m.nextOffset block.typeId := by
    rw [List.length_append]
    rfl
  apply bind_run (load_found found)
  apply bind_run rfl
  apply bind_run rfl
  simp only [Memory.appended, unknown, here]
  apply bind_run rfl
  apply bind_run rfl
  simp [Memory.opened, Memory.appended, headBytes]

end

/-- What writing a pointer to an object can do. -/
theorem writePtr_cases {fuel : Nat} {addr : Addr} {s s' : Memory} {u : Unit}
    (ran : writePtr (fuel + 1) (some addr) s = .ok u s') : ∃ block, s.heap[addr]? = some block ∧
      ((∃ offset, s.ptrStore addr = some offset ∧ s' = s.appended (headBytes block.typeId offset)) ∨
        (s.ptrStore addr = none ∧
          toBBuffer (writePtr fuel) block.object (s.opened addr block.typeId) = .ok u s')) := by
  cases found : s.heap[addr]? with
  | none =>
    obtain ⟨block, s₁, loaded, -⟩ := bind_ok ran
    unfold load at loaded
    rw [found] at loaded
    cases loaded
  | some block =>
    refine ⟨block, rfl, ?_⟩
    cases known : s.ptrStore addr with
    | some offset =>
      rw [writePtr_known found known] at ran
      cases ran
      exact .inl ⟨offset, rfl, rfl⟩
    | none =>
      rw [writePtr_new found known] at ran
      exact .inr ⟨rfl, ran⟩

section
variable {types : Types} {m : Memory} {id baseId : UInt16} {offset fuel : Nat} {tail : List UInt8} {T : Class}

theorem readPtr_null (input : m.unread = 0 :: tail) : readPtr types baseId (fuel + 1) m = .ok none (m.advanced 1) := by
  have read : readUInt16 m = .ok 0 (m.advanced 1) := readUInt16_eq input
  exact bind_run read rfl

theorem head_reads (input : m.unread = headBytes id offset ++ tail) (fits : offset < 2 ^ 64) :
    readUInt16 m = .ok id (m.advanced (varWrite7U16 id).length) ∧
      readSize (m.advanced (varWrite7U16 id).length) = .ok offset (m.advanced (headBytes id offset).length) := by
  unfold headBytes at input ⊢
  rw [List.append_assoc] at input
  have size := readSize_eq fits (unread_advanced input)
  rw [advanced_advanced] at size
  rw [List.length_append]
  exact ⟨readUInt16_eq input, size⟩

theorem readPtr_back {addr : Addr} (registered : types.Registered T)
    (input : m.unread = headBytes (types.typeId T) offset ++ tail) (fits : offset < 2 ^ 64)
    (back : offset ≠ (m.advanced (varWrite7U16 (types.typeId T)).length).bb.offset -
      (m.advanced (varWrite7U16 (types.typeId T)).length).bb.offsetRoot)
    (known : m.idxStore offset = some (addr, types.typeId T)) (derived : types.isBaseOf baseId (types.typeId T) = some true) :
    readPtr types baseId (fuel + 1) m = .ok (some addr) (m.advanced (headBytes (types.typeId T) offset).length) := by
  obtain ⟨id, size⟩ := head_reads input fits
  apply bind_run id
  rw [if_neg registered.named]
  simp only [registered.creator]
  apply bind_run rfl
  apply bind_run size
  rw [if_neg back]
  apply bind_run rfl
  have known : (m.advanced (headBytes (types.typeId T) offset).length).idxStore offset = some (addr, types.typeId T) := known
  simp only [known, derived]
  rfl

theorem create_eq {m' : Memory} {object : Object} {read : Run (Option Addr)}
    (content : fromBBuffer read T (m.published types T offset) = .ok object m') :
    create types read offset T (m.advanced (headBytes (types.typeId T) offset).length) =
      .ok m.heap.length { m' with heap := m'.heap.set m.heap.length ⟨types.typeId T, object⟩ } := by
  apply bind_run rfl
  exact catch_run (bind_run content (bind_run rfl rfl))

theorem readPtr_new {m' : Memory} {object : Object} (registered : types.Registered T)
    (input : m.unread = headBytes (types.typeId T) offset ++ tail) (fits : offset < 2 ^ 64)
    (here : offset = (m.advanced (varWrite7U16 (types.typeId T)).length).bb.offset -
      (m.advanced (varWrite7U16 (types.typeId T)).length).bb.offsetRoot)
    (derived : types.isBaseOf baseId (types.typeId T) = some true)
    (content : fromBBuffer (readPtr types 0 fuel) T (m.published types T offset) = .ok object m') :
    readPtr types baseId (fuel + 1) m =
      .ok (some m.heap.length) { m' with heap := m'.heap.set m.heap.length ⟨types.typeId T, object⟩ } := by
  obtain ⟨id, size⟩ := head_reads input fits
  apply bind_run id
  rw [if_neg registered.named]
  simp only [registered.creator]
  apply bind_run rfl
  apply bind_run size
  rw [if_pos here]
  simp only [derived]
  exact bind_run (create_eq content) rfl

end

/-! ## The log while an object is copied -/

section
variable {base : Nat} {heap : List Block}

theorem empty_edges (T : Class) : T.empty.edges = [] := by cases T <;> rfl

theorem edgesFrom_append (room : base ≤ heap.length) (id : UInt16) (T : Class) :
    edgesFrom base (heap ++ [⟨id, T.empty⟩]) = edgesFrom base heap := by
  unfold edgesFrom
  rw [List.drop_append_of_le_length room, List.flatMap_append, List.flatMap_singleton, empty_edges, List.append_nil]

theorem flatMap_set_perm {α β : Type} {f : α → List β} {l : List α} {k : Nat} {x : α} (y : α) (found : l[k]? = some x)
    (nothing : f x = []) : ((l.set k y).flatMap f).Perm (f y ++ l.flatMap f) := by
  induction l generalizing k with
  | nil => cases found
  | cons z l ih =>
    cases k with
    | zero =>
      cases found
      rw [List.set_cons_zero, List.flatMap_cons, List.flatMap_cons, nothing]
      exact List.Perm.refl _
    | succ k =>
      rw [List.set_cons_succ, List.flatMap_cons, List.flatMap_cons]
      have rest := (ih (k := k) found).append_left (f z)
      rw [← List.append_assoc] at rest ⊢
      exact rest.trans (List.perm_append_comm.append_right _)

theorem edgesFrom_set {p : Addr} {x y : Block} (low : base ≤ p) (found : heap[p]? = some x)
    (nothing : x.object.edges = []) : (edgesFrom base (heap.set p y)).Perm (y.object.edges ++ edgesFrom base heap) := by
  unfold edgesFrom
  rw [List.drop_set, if_neg (Nat.not_lt.mpr low)]
  apply flatMap_set_perm (x := x) y _ nothing
  rw [List.getElem?_drop, Nat.add_sub_cancel' low]
  exact found

/-- What was pending for an object are its edges when it is complete. -/
theorem edgesFrom_closed {p : Addr} {x y : Block} (low : base ≤ p) (found : heap[p]? = some x)
    (nothing : x.object.edges = []) (P : List Addr) :
    (edgesFrom base (heap.set p y) ++ P).Perm (edgesFrom base heap ++ (P ++ y.object.edges)) := by
  have moved := (edgesFrom_set (y := y) low found nothing).append_right P
  rw [List.append_assoc] at moved
  rw [← List.append_assoc]
  exact moved.trans List.perm_append_comm

end

section
variable {types : Types} {graph : Graph types} {root : Option Addr} {base : Nat} {s t s' t' : Memory} {log log' : Log}
  {addr : Addr} {object copy : Object} {tail : List UInt8} {P : List Addr} {c : Nat}

theorem Agree.opened (agree : Agree graph root base ⟨s, t, log⟩)
    (found : graph.heap[addr]? = some ⟨types.typeId object.class, object⟩) (unknown : s.ptrStore addr = none)
    (reached : Reaches (Points graph.heap) root addr)
    (input : t.unread = headBytes (types.typeId object.class) (s.nextOffset (types.typeId object.class)) ++ tail) :
    Agree graph root base ⟨s.opened addr (types.typeId object.class),
      t.published types object.class (s.nextOffset (types.typeId object.class)),
      ⟨⟨addr, s.nextOffset (types.typeId object.class), t.heap.length⟩ :: log.entries, log.pending⟩⟩ := by
  have ahead := agree.advance input
  have start : s.bb.offsetRoot ≤ s.bb.data.length := agree.start
  have room : base ≤ t.heap.length := agree.room
  have later : ∀ e ∈ log.entries, s.nextOffset (types.typeId object.class) ≠ e.offset := by
    intro e member
    have passed : s.bb.offsetRoot + e.offset < s.bb.data.length := agree.passed e member
    unfold Memory.nextOffset
    omega
  have recorded : Recorded s.ptrStore log.entries :=
    ⟨agree.met, agree.unmet, agree.sources, agree.copies, agree.offsets⟩
  have entered := recorded.cons unknown later fun e member => Nat.ne_of_gt (agree.inside e member).2.2
  have grown : ∀ {b : Addr}, b < t.heap.length →
      b < (t.heap ++ [Block.mk (types.typeId object.class) object.class.empty]).length := by
    intro b inside
    rw [List.length_append]
    exact Nat.lt_add_right _ inside
  constructor
  case source => exact agree.source
  case met => exact entered.met
  case unmet => exact entered.unmet
  case index =>
    intro e member x source
    rcases List.mem_cons.mp member with rfl | old
    · cases found.symm.trans source
      exact Function.update_self _ _ _
    · exact (Function.update_of_ne (later e old).symm _ _).trans (agree.index e old x source)
  case sources => exact entered.sources
  case copies => exact entered.copies
  case offsets => exact entered.offsets
  case passed =>
    intro e member
    rcases List.mem_cons.mp member with rfl | old
    · have size := varWrite7U64_pos (UInt64.ofNat (s.nextOffset (types.typeId object.class)))
      change s.bb.offsetRoot + (s.bb.data.length + (varWrite7U16 (types.typeId object.class)).length - s.bb.offsetRoot) <
        (s.bb.data ++ headBytes _ _).length
      rw [headBytes, sizeBytes, List.length_append, List.length_append]
      omega
    · exact ahead.passed e old
  case reached =>
    intro e member
    rcases List.mem_cons.mp member with rfl | old
    · exact reached
    · exact agree.reached e old
  case inside =>
    intro e member
    rcases List.mem_cons.mp member with rfl | old
    · refine ⟨(List.getElem?_eq_some_iff.mp found).1, room, ?_⟩
      change t.heap.length < (t.heap ++ [_]).length
      rw [List.length_append]
      exact Nat.lt_add_one _
    · obtain ⟨source, low, high⟩ := agree.inside e old
      exact ⟨source, low, grown high⟩
  case covered =>
    intro b low high
    by_cases last : b = t.heap.length
    · exact ⟨_, List.mem_cons_self, last.symm⟩
    · have high : b < (t.heap ++ [_]).length := high
      rw [List.length_append, List.length_singleton] at high
      obtain ⟨e, member, same⟩ := agree.covered b low (by dsimp only; omega)
      exact ⟨e, List.mem_cons_of_mem _ member, same⟩
  case targets =>
    intro b member
    change b ∈ edgesFrom base (t.heap ++ [_]) ++ log.pending at member
    rw [edgesFrom_append room] at member
    exact grown (agree.targets b member)
  case refs =>
    intro b low high
    change Function.update t.refs t.heap.length 0 b = UInt32.ofNat ((edgesFrom base (t.heap ++ [_]) ++ log.pending).count b)
    rw [edgesFrom_append room]
    by_cases last : b = t.heap.length
    · have nowhere : b ∉ edgesFrom base t.heap ++ log.pending := fun member =>
        Nat.lt_irrefl _ (last ▸ agree.targets b member)
      rw [List.count_eq_zero_of_not_mem nowhere, last, Function.update_self]
      rfl
    · have high : b < (t.heap ++ [_]).length := high
      rw [List.length_append, List.length_singleton] at high
      rw [Function.update_of_ne last]
      exact agree.refs b low (by dsimp only; omega)
  case room =>
    change base ≤ (t.heap ++ [_]).length
    rw [List.length_append]
    exact Nat.le_add_right_of_le room
  case start => exact ahead.start
  case place => exact ahead.place
  case behind => exact ahead.behind
  case unlimited => exact agree.unlimited

theorem Agree.closed (agree : Agree graph root base ⟨s, t, log⟩) {e : Copied} (member : e ∈ log.entries) {x y : Block}
    (found : t.heap[e.copy]? = some x) (nothing : x.object.edges = []) (pending : log.pending = P ++ y.object.edges) :
    Agree graph root base ⟨s, { t with heap := t.heap.set e.copy y }, { log with pending := P }⟩ := by
  have low : base ≤ e.copy := (agree.inside e member).2.1
  have moved : (edgesFrom base (t.heap.set e.copy y) ++ P).Perm (edgesFrom base t.heap ++ log.pending) := by
    rw [pending]
    exact edgesFrom_closed low found nothing P
  have size : (t.heap.set e.copy y).length = t.heap.length := List.length_set
  constructor
  case inside =>
    intro f inLog
    dsimp only
    rw [size]
    exact agree.inside f inLog
  case covered =>
    intro b low high
    dsimp only at high ⊢
    rw [size] at high
    exact agree.covered b low high
  case targets =>
    intro b member
    dsimp only at member ⊢
    rw [size]
    exact agree.targets b (moved.mem_iff.mp member)
  case refs =>
    intro b low high
    dsimp only at high ⊢
    rw [size] at high
    rw [moved.count_eq]
    exact agree.refs b low high
  case room =>
    dsimp only
    rw [size]
    exact agree.room
  case source => exact agree.source
  case met => exact agree.met
  case unmet => exact agree.unmet
  case index => exact agree.index
  case sources => exact agree.sources
  case copies => exact agree.copies
  case offsets => exact agree.offsets
  case passed => exact agree.passed
  case reached => exact agree.reached
  case start => exact agree.start
  case place => exact agree.place
  case behind => exact agree.behind
  case unlimited => exact agree.unlimited

/-- Two bytes at least stand in front of an object. -/
theorem Ledger.opened (ledger : Ledger base P c ⟨s, t, log⟩) (room : base ≤ t.heap.length) {T : Class} {offset : Nat} :
    Ledger base P (c + 1) ⟨s.opened addr (types.typeId T), t.published types T offset,
      ⟨⟨addr, offset, t.heap.length⟩ :: log.entries, log.pending⟩⟩ := by
  refine ⟨ledger.pending, ?_⟩
  have head := headBytes_length (types.typeId T) (s.nextOffset (types.typeId T))
  have credit : s.bb.offsetRoot + ((edgesFrom base t.heap).length + P.length + c) ≤ s.bb.data.length := ledger.credit
  change s.bb.offsetRoot + ((edgesFrom base (t.heap ++ [_])).length + P.length + (c + 1)) ≤ (s.bb.data ++ headBytes _ _).length
  rw [edgesFrom_append room, List.length_append]
  omega

theorem Ledger.closed (ledger : Ledger base (P ++ copy.edges) c ⟨s, t, log⟩) {p : Addr} {x : Block} {id : UInt16}
    (low : base ≤ p) (found : t.heap[p]? = some x) (nothing : x.object.edges = []) :
    Ledger base P c ⟨s, { t with heap := t.heap.set p ⟨id, copy⟩ }, { log with pending := P }⟩ := by
  refine ⟨rfl, ?_⟩
  have moved := (edgesFrom_closed (y := ⟨id, copy⟩) low found nothing P).length_eq
  have credit := ledger.credit
  dsimp only at credit moved ⊢
  rw [List.length_append, List.length_append] at moved
  omega

/-- From the pointer on, the object and what it refers to have been copied. -/
theorem Grows.closed {offset : Nat} (grows : Grows ⟨s.opened addr (types.typeId object.class),
      t.published types object.class offset, ⟨⟨addr, offset, t.heap.length⟩ :: log.entries, log.pending⟩⟩ ⟨s', t', log'⟩)
    (agree : Agree graph root base ⟨s', t', log'⟩)
    (found : graph.heap[addr]? = some ⟨types.typeId object.class, object⟩)
    (same : SameObject (Paired log'.entries) object copy) :
    Grows ⟨s, t, log⟩ ⟨s', { t' with heap := t'.heap.set t.heap.length ⟨types.typeId object.class, copy⟩ },
      { log' with pending := P }⟩ := by
  obtain ⟨new, split, done⟩ := grows.log
  have split : log'.entries = new ++ ⟨addr, offset, t.heap.length⟩ :: log.entries := split
  have room : t.heap.length < t'.heap.length :=
    (List.getElem?_eq_some_iff.mp (grows.copies t.heap.length _ List.getElem?_concat_length)).1
  refine ⟨grows.sources, fun b y old => ?_, grows.input, new ++ [⟨addr, offset, t.heap.length⟩],
    by rw [split]; simp, ?_⟩
  · have inside : b < t.heap.length := (List.getElem?_eq_some_iff.mp old).1
    have kept := grows.copies b y (getElem?_append_of_some old)
    rw [← kept]
    exact List.getElem?_set_ne (Nat.ne_of_gt inside)
  · intro e member
    rcases List.mem_append.mp member with nested | last
    · obtain ⟨x, y, source, copied, alike⟩ := done e nested
      have apart : t.heap.length ≠ e.copy := by
        have distinct : log'.entries.Pairwise fun e f => e.copy ≠ f.copy := agree.copies
        rw [split, List.pairwise_append] at distinct
        exact (distinct.2.2 e nested _ List.mem_cons_self).symm
      exact ⟨x, y, source, by rw [← copied]; exact List.getElem?_set_ne apart, alike⟩
    · rw [List.mem_singleton.mp last]
      refine ⟨⟨types.typeId object.class, object⟩, ⟨types.typeId object.class, copy⟩, ?_, List.getElem?_set_self room, rfl, same⟩
      have source : s'.heap = graph.heap := agree.source
      rw [source]
      exact found

/-- A pointer to an object that was written before is read as a pointer to its copy. -/
theorem Agree.read_known {offset : Nat} {baseId : UInt16} (agree : Agree graph root base ⟨s, t, log⟩) (fuel : Nat)
    (found : graph.heap[addr]? = some ⟨types.typeId object.class, object⟩)
    (registered : types.Registered object.class) (known : s.ptrStore addr = some offset)
    (derived : types.isBaseOf baseId (types.typeId object.class) = some true)
    (short : (s.bb.data ++ headBytes (types.typeId object.class) offset).length < 2 ^ 32)
    (input : t.unread = headBytes (types.typeId object.class) offset ++ tail) :
    ∃ e ∈ log.entries, e.source = addr ∧ readPtr types baseId (fuel + 1) t =
      .ok (some e.copy) (t.advanced (headBytes (types.typeId object.class) offset).length) := by
  obtain ⟨e, member, rfl, rfl⟩ := agree.met addr offset known
  have passed : s.bb.offsetRoot + e.offset < s.bb.data.length := agree.passed e member
  have place : t.bb.offset = t.bb.offsetRoot + (s.bb.data.length - s.bb.offsetRoot) := agree.place
  rw [List.length_append] at short
  refine ⟨e, member, rfl, readPtr_back registered input (by omega) ?_ (agree.index e member _ found) derived⟩
  simp only [Memory.advanced]
  omega

end

/-! ## The recursion -/

section
variable {types : Types} {graph : Graph types} {root : Option Addr} {base : Nat} {P : List Addr} {c : Nat}

theorem null_codec (baseId : UInt16) : (graphLink graph root base).Codec (Ledger base P c) (append [0])
    (readPtr types baseId) fun w _ r => r = none ∧ Ledger base P (c + 1) w := by
  apply plain [0] (fun _ => rfl)
  intro _ m fuel tail _ _ input enough
  obtain ⟨fuel, rfl⟩ : ∃ before, fuel = before + 1 := ⟨fuel - 1, by simp at enough; omega⟩
  exact readPtr_null input

theorem Graph.block_eq (graph : Graph types) {addr : Addr} {block : Block} (found : graph.heap[addr]? = some block) :
    block = ⟨types.typeId block.object.class, block.object⟩ ∧ types.Registered block.object.class := by
  have valid := graph.valid block (List.mem_of_getElem? found)
  refine ⟨?_, valid.registered⟩
  rw [← valid.typeId]

section
variable {fuel : Nat} (pointers : Pointers graph root base (writePtr fuel) (readPtr types 0))
include pointers

theorem Pointers.next_longer (v : Option Addr) (s : Memory) (u : Unit) (s' : Memory)
    (ran : writePtr (fuel + 1) v s = .ok u s') : s.bb.data <+: s'.bb.data ∧ s.bb.data.length < s'.bb.data.length := by
  cases v with
  | none => exact ⟨append_longer ran, append_positive (by decide : 0 < [(0 : UInt8)].length) ran⟩
  | some addr =>
    have further : ∀ {head : List UInt8}, 2 ≤ head.length → s.bb.data ++ head <+: s'.bb.data →
        s.bb.data <+: s'.bb.data ∧ s.bb.data.length < s'.bb.data.length := by
      intro head some longer
      have length := longer.length_le
      rw [List.length_append] at length
      exact ⟨(List.prefix_append _ _).trans longer, by omega⟩
    obtain ⟨block, -, ⟨offset, -, rfl⟩ | ⟨-, body⟩⟩ := writePtr_cases ran
    · exact further (headBytes_length block.typeId offset) List.prefix_rfl
    · exact further (headBytes_length block.typeId (s.nextOffset block.typeId)) (toBBuffer_longer pointers.longer body)

/-- `derived` is the check of the static type. -/
theorem Pointers.next_codec (v : Option Addr) (reached : ∀ a, v = some a → Reaches (Points graph.heap) root a)
    {baseId : UInt16} (derived : ∀ a block, v = some a → graph.heap[a]? = some block →
      types.isBaseOf baseId block.typeId = some true) (P : List Addr) (c : Nat) :
    (graphLink graph root base).Codec (Ledger base P c) (writePtr (fuel + 1) v) (readPtr types baseId)
      fun w _ r => SamePtr (Paired w.log.entries) v r ∧ Ledger base P (c + 1) w := by
  cases v with
  | none =>
    apply (null_codec baseId).imp fun _ ledger => ledger
    rintro w _ r ⟨rfl, ledger⟩
    exact ⟨.null, ledger⟩
  | some addr =>
    intro s u s' ran
    -- only the objects of the graph matter, but what is written may be looked at anywhere
    by_cases same : s.heap = graph.heap
    case neg =>
      obtain ⟨bytes, written⟩ := (pointers.next_longer (some addr) s u s' ran).1
      exact ⟨bytes, written.symm, fun _ _ _ _ _ agree => absurd agree.source same⟩
    case pos =>
    obtain ⟨block, found, choice⟩ := writePtr_cases ran
    rw [same] at found
    obtain ⟨shape, registered⟩ := graph.block_eq found
    have derived := derived addr block rfl found
    obtain ⟨id, object⟩ := block
    obtain rfl : id = types.typeId object.class := congrArg Block.typeId shape
    have reached := reached addr rfl
    dsimp only at derived choice registered
    rcases choice with ⟨offset, known, rfl⟩ | ⟨unknown, body⟩
    · refine ⟨headBytes (types.typeId object.class) offset, rfl, fun short t log k tail agree ledger input enough => ?_⟩
      have head := headBytes_length (types.typeId object.class) offset
      obtain ⟨k, rfl⟩ : ∃ before, k = before + 1 := ⟨k - 1, by omega⟩
      obtain ⟨e, member, rfl, read⟩ := agree.read_known k found registered known derived short input
      exact ⟨some e.copy, _, log, read, unread_advanced input, agree.advance input, Grows.advance _,
        .ptr ⟨e, member, rfl, rfl⟩, (ledger.advance _).less (by omega)⟩
    · have inside : ∀ a ∈ object.edges, Reaches (Points graph.heap) root a :=
        fun a edge => reached.next ⟨_, found, edge⟩
      obtain ⟨bytes, written, reads⟩ := pointers.body (P := P) (c := c + 1) object inside _ _ _ body
      have written : s'.bb.data = s.bb.data ++ headBytes (types.typeId object.class)
        (s.nextOffset (types.typeId object.class)) ++ bytes := written
      generalize hoffset : s.nextOffset (types.typeId object.class) = offset at *
      refine ⟨headBytes (types.typeId object.class) offset ++ bytes, by rw [← List.append_assoc]; exact written, ?_⟩
      intro short t log k tail agree ledger input enough
      have head := headBytes_length (types.typeId object.class) offset
      rw [List.append_assoc] at input
      rw [List.length_append] at enough
      obtain ⟨k, rfl⟩ : ∃ before, k = before + 1 := ⟨k - 1, by omega⟩
      subst hoffset
      have opened := agree.opened found unknown reached input
      obtain ⟨copy, t', log', read, rest, agree', grows, same', ledger'⟩ :=
        reads short _ _ k tail opened (ledger.opened agree.room) (unread_advanced input) (by omega)
      have fits : s.nextOffset (types.typeId object.class) < 2 ^ 64 := by
        have short : s'.bb.data.length < 2 ^ 32 := short
        rw [written, List.length_append, List.length_append, headBytes, List.length_append] at short
        unfold Memory.nextOffset
        omega
      have here : s.nextOffset (types.typeId object.class) =
          (t.advanced (varWrite7U16 (types.typeId object.class)).length).bb.offset -
            (t.advanced (varWrite7U16 (types.typeId object.class)).length).bb.offsetRoot := by
        have start : s.bb.offsetRoot ≤ s.bb.data.length := agree.start
        have place : t.bb.offset = t.bb.offsetRoot + (s.bb.data.length - s.bb.offsetRoot) := agree.place
        simp only [Memory.nextOffset, Memory.advanced]
        omega
      have entered : (⟨addr, s.nextOffset (types.typeId object.class), t.heap.length⟩ : Copied) ∈ log'.entries := by
        obtain ⟨new, split, -⟩ := grows.log
        have split : log'.entries = new ++ ⟨addr, _, t.heap.length⟩ :: log.entries := split
        rw [split]
        exact List.mem_append_right new List.mem_cons_self
      have unfinished : t'.heap[t.heap.length]? = some ⟨types.typeId object.class, object.class.empty⟩ :=
        grows.copies t.heap.length _ List.getElem?_concat_length
      have nothing := empty_edges object.class
      exact ⟨some t.heap.length, _, _, readPtr_new registered input fits here derived read, rest,
        agree'.closed entered (y := ⟨types.typeId object.class, copy⟩) unfinished nothing ledger'.pending,
        grows.closed agree' found same', .ptr ⟨_, entered, rfl, rfl⟩,
        ledger'.closed agree.room unfinished nothing⟩

end

end

end Xxlib.Uv4
