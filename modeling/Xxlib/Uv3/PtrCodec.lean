import Xxlib.Lib.Growing
import Xxlib.Uv3.GraphCodec

/-! `WritePtr` and `ReadPtr` fit together: the recursion.

An object that is met for the first time gets an entry in the log, and its content follows; any other pointer is the
offset of an object that is in the log, whatever led to it first.
-/

set_option autoImplicit false

namespace Xxlib.Uv3

open Lib

/-! ## Types -/

section
variable {types : Types} {T : PtrType} {C : Class}

theorem Types.Registered.pos (registered : types.Registered C) : types.typeId C ≠ 0 := by
  rcases registered with rfl | rfl | ⟨large, -⟩
  · exact (by decide : (1 : UInt16) ≠ 0)
  · exact (by decide : (2 : UInt16) ≠ 0)
  · intro zero
    rw [zero] at large
    exact absurd large (by decide)

theorem refused_eq (registered : types.Registered C) (fits : types.Fits T C) :
    types.refused T (types.typeId C) = none := by
  unfold Types.refused
  cases T with
  | string =>
    obtain rfl : C = .string := fits
    rfl
  | object type =>
    have other : C ≠ .string := fits.1
    rw [if_neg (fun both => nomatch both.1)]
    rcases registered with rfl | rfl | ⟨large, created⟩
    · exact absurd rfl other
    · rfl
    · rw [if_neg fun both => UInt16.lt_asymm large both.2, if_neg fun both => ?_]
      rw [created] at both
      exact nomatch both.2

theorem createFor_eq (registered : types.Registered C) (fits : types.Fits T C) :
    types.createFor (types.typeId C) T = .ok C := by
  cases T with
  | string =>
    obtain rfl : C = .string := fits
    rfl
  | object type =>
    have created : types.create (types.typeId C) = some C := by
      unfold Types.create
      rcases registered with rfl | rfl | ⟨large, created⟩
      · exact absurd rfl fits.1
      · rfl
      · rw [if_neg, created]
        intro two
        rw [two] at large
        exact absurd large (by decide)
    simp only [Types.createFor, created, fits.2, if_true]

end

/-! ## Pointers -/

/-- What is written in front of an object, or instead of it. -/
def headBytes (typeId : UInt16) (offs : Nat) : List UInt8 := varInteger typeId.toBitVec ++ sizeBytes offs

/-- The offset of an object that is written now: behind its type id. -/
def Memory.nextOffset (m : Memory) (typeId : UInt16) : Nat :=
  m.bb.buf.length + (varInteger typeId.toBitVec).length - m.bb.offsetRoot

/-- The memory when the content of an object comes to be written. -/
def Memory.opened (m : Memory) (addr : Addr) (typeId : UInt16) : Memory :=
  let head := m.appended (headBytes typeId (m.nextOffset typeId))
  { head with bb := { head.bb with ptrs := Function.update m.bb.ptrs addr (some (m.nextOffset typeId)) } }

theorem headBytes_length (typeId : UInt16) (offs : Nat) : 2 ≤ (headBytes typeId offs).length := by
  have id := varInteger_pos typeId.toBitVec
  have size := varInteger_pos (BitVec.ofNat 64 offs)
  rw [headBytes, sizeBytes, List.length_append]
  omega

section
variable {types : Types} {m : Memory} {fuel : Nat} {addr : Addr} {x : Object}

theorem load_found (found : Lives m.heap addr x) : load addr m = .ok x m := by
  unfold load
  rw [found]

theorem writePtr_known {offs : Nat} (found : Lives m.heap addr x) (known : m.bb.ptrs addr = some offs) :
    writePtr types (fuel + 1) (some addr) m = .ok () (m.appended (headBytes (types.typeId x.class) offs)) := by
  apply bind_run (load_found found)
  apply bind_run rfl
  apply bind_run rfl
  rw [headBytes, ← appended_appended]
  simp only [Memory.appended, known]
  rfl

theorem writePtr_new (found : Lives m.heap addr x) (unknown : m.bb.ptrs addr = none) :
    writePtr types (fuel + 1) (some addr) m =
      toBBuffer (writePtr types fuel) x (m.opened addr (types.typeId x.class)) := by
  apply bind_run (load_found found)
  apply bind_run rfl
  apply bind_run rfl
  simp only [Memory.appended, unknown]
  apply bind_run rfl
  apply bind_run rfl
  simp [Memory.opened, Memory.appended, Memory.nextOffset, headBytes]

end

/-- What writing a pointer to an object can do. -/
theorem writePtr_cases {types : Types} {fuel : Nat} {addr : Addr} {s s' : Memory} {u : Unit}
    (ran : writePtr types (fuel + 1) (some addr) s = .ok u s') : ∃ x, Lives s.heap addr x ∧
      ((∃ offs, s.bb.ptrs addr = some offs ∧ s' = s.appended (headBytes (types.typeId x.class) offs)) ∨
        (s.bb.ptrs addr = none ∧
          toBBuffer (writePtr types fuel) x (s.opened addr (types.typeId x.class)) = .ok u s')) := by
  obtain ⟨x, s₁, loaded, -⟩ := bind_ok ran
  have found : Lives s.heap addr x := by
    unfold load at loaded
    split at loaded
    · next found =>
      cases loaded
      exact found
    · cases loaded
  refine ⟨x, found, ?_⟩
  cases known : s.bb.ptrs addr with
  | some offs =>
    rw [writePtr_known found known] at ran
    cases ran
    exact .inl ⟨offs, rfl, rfl⟩
  | none =>
    rw [writePtr_new found known] at ran
    exact .inr ⟨rfl, ran⟩

section
variable {types : Types} {m : Memory} {id : UInt16} {offs fuel : Nat} {tail : List UInt8} {T : PtrType} {C : Class}

theorem readPtr_null (input : m.unread = 0 :: tail) : readPtr types (fuel + 1) T m = .ok none (m.advanced 1) := by
  have read : readUInt16 m = .ok 0 (m.advanced 1) := readUInt16_eq input
  exact bind_run read rfl

theorem head_reads (input : m.unread = headBytes id offs ++ tail) (fits : offs < 2 ^ 32) :
    readUInt16 m = .ok id (m.advanced (varInteger id.toBitVec).length) ∧
      readSize (m.advanced (varInteger id.toBitVec).length) = .ok offs (m.advanced (headBytes id offs).length) := by
  unfold headBytes at input ⊢
  rw [List.append_assoc] at input
  have size := readSize_eq fits (unread_advanced input)
  rw [advanced_advanced] at size
  rw [List.length_append]
  exact ⟨readUInt16_eq input, size⟩

theorem readBack_eq {p : Addr} {y : Object} (fits : types.Fits T C) (known : find (m.bb.idxs C) offs = some p)
    (found : Lives m.heap p y) (same : y.class = C) : readBack types (types.typeId C) offs T m = .ok (some p) m := by
  cases T with
  | string =>
    obtain rfl : C = .string := fits
    have known : find m.bb.strIdxs offs = some p := known
    simp only [readBack, known]
  | object type =>
    have known : find m.bb.objIdxs offs = some p := by
      rwa [BBuffer.idxs, if_neg fits.1] at known
    have derived : types.derives y.class type = true := same ▸ fits.2
    simp only [readBack, known, load_found found, derived, if_true]
    rw [if_neg (by rw [same]; exact fun other => other rfl)]

theorem readPtr_back {p : Addr} {y : Object} (registered : types.Registered C) (fits : types.Fits T C)
    (input : m.unread = headBytes (types.typeId C) offs ++ tail) (small : offs < 2 ^ 32)
    (back : offs ≠ (m.advanced (varInteger (types.typeId C).toBitVec).length).bb.offset -
      (m.advanced (varInteger (types.typeId C).toBitVec).length).bb.offsetRoot)
    (known : find (m.bb.idxs C) offs = some p) (found : Lives m.heap p y) (same : y.class = C) :
    readPtr types (fuel + 1) T m = .ok (some p) (m.advanced (headBytes (types.typeId C) offs).length) := by
  obtain ⟨id, size⟩ := head_reads input small
  apply bind_run id
  rw [if_neg registered.pos]
  simp only [refused_eq registered fits]
  apply bind_run rfl
  apply bind_run size
  rw [if_neg back]
  exact readBack_eq (m := m.advanced (headBytes (types.typeId C) offs).length) fits known found same

theorem readPtr_new {m' : Memory} {object : Object} (registered : types.Registered C) (fits : types.Fits T C)
    (input : m.unread = headBytes (types.typeId C) offs ++ tail) (small : offs < 2 ^ 32)
    (here : offs = (m.advanced (varInteger (types.typeId C).toBitVec).length).bb.offset -
      (m.advanced (varInteger (types.typeId C).toBitVec).length).bb.offsetRoot)
    (content : fromBBuffer types (readPtr types fuel) C
      ((m.advanced (headBytes (types.typeId C) offs).length).published types offs C) = .ok object m') :
    readPtr types (fuel + 1) T m =
      .ok (some m.heap.length) { m' with heap := m'.heap.set m.heap.length (some object) } := by
  obtain ⟨id, size⟩ := head_reads input small
  apply bind_run id
  rw [if_neg registered.pos]
  simp only [refused_eq registered fits]
  apply bind_run rfl
  apply bind_run size
  rw [if_pos here]
  simp only [createFor_eq registered fits]
  exact bind_run rfl (bind_run content (bind_run rfl rfl))

end

/-! ## Maps -/

section
variable {idxs : List (Nat × Addr)} {offs k : Nat} {p : Addr}

theorem insert_fresh (fresh : ∀ entry ∈ idxs, entry.1 ≠ offs) : insert idxs offs p = (offs, p) :: idxs := by
  apply AssocMap.put_absent
  rw [AssocMap.contains, List.any_eq_false]
  intro entry member
  simpa using fresh entry member

theorem find_cons_self : find ((offs, p) :: idxs) offs = some p := by simp [find, AssocMap.lookup]

theorem find_cons_ne (other : offs ≠ k) : find ((offs, p) :: idxs) k = find idxs k := by
  simp [find, AssocMap.lookup, other]

end

section
variable {types : Types} {m : Memory} {offs k : Nat} {C D : Class}

theorem published_heap : (m.published types offs C).heap = m.heap ++ [some (types.make C)] := by
  unfold Memory.published
  split <;> rfl

theorem published_rest : (m.published types offs C).owners = m.owners ∧
    (m.published types offs C).bb.buf = m.bb.buf ∧ (m.published types offs C).bb.ptrs = m.bb.ptrs := by
  unfold Memory.published
  split <;> exact ⟨rfl, rfl, rfl⟩

theorem published_unread : (m.published types offs C).unread = m.unread := by
  unfold Memory.published Memory.unread
  split <;> rfl

theorem Placed.published {s : BBuffer} {log : List Copied} (placed : Placed s m.bb log) (types : Types) (offs : Nat)
    (C : Class) : Placed s (m.published types offs C).bb log := by
  unfold Memory.published
  split <;> exact ⟨placed.start, placed.place, placed.behind, placed.unlimited, placed.passed⟩

theorem published_found (fresh : ∀ entry ∈ m.bb.objIdxs ++ m.bb.strIdxs, entry.1 ≠ offs) :
    find ((m.published types offs C).bb.idxs C) offs = some m.heap.length := by
  unfold Memory.published BBuffer.idxs
  split
  · rw [insert_fresh fun entry member => fresh entry (List.mem_append_right _ member)]
    exact find_cons_self
  · rw [insert_fresh fun entry member => fresh entry (List.mem_append_left _ member)]
    exact find_cons_self

theorem published_kept (fresh : ∀ entry ∈ m.bb.objIdxs ++ m.bb.strIdxs, entry.1 ≠ offs) (other : offs ≠ k) :
    find ((m.published types offs C).bb.idxs D) k = find (m.bb.idxs D) k := by
  unfold Memory.published BBuffer.idxs
  rw [insert_fresh fun entry member => fresh entry (List.mem_append_right _ member),
    insert_fresh fun entry member => fresh entry (List.mem_append_left _ member)]
  by_cases first : C = .string <;> by_cases second : D = .string <;>
    simp only [first, second, if_true, if_false, find_cons_ne other]

theorem published_listed (fresh : ∀ entry ∈ m.bb.objIdxs ++ m.bb.strIdxs, entry.1 ≠ offs) {entry : Nat × Addr}
    (member : entry ∈ (m.published types offs C).bb.objIdxs ++ (m.published types offs C).bb.strIdxs) :
    entry = (offs, m.heap.length) ∨ entry ∈ m.bb.objIdxs ++ m.bb.strIdxs := by
  unfold Memory.published at member
  rw [insert_fresh fun entry member => fresh entry (List.mem_append_right _ member),
    insert_fresh fun entry member => fresh entry (List.mem_append_left _ member)] at member
  by_cases string : C = .string <;>
    simp only [string, if_true, if_false, List.mem_append, List.mem_cons] at member ⊢ <;> tauto

end

/-! ## The log while an object is copied -/

section
variable {types : Types} {root : Option Addr} {graph : Graph types root} {base : Nat} {s t s' t' : Memory}
  {log log' : List Copied} {addr : Addr} {x y : Object} {offs : Nat} {tail : List UInt8}

theorem make_class (types : Types) (C : Class) : (types.make C).class = C := by cases C <;> rfl

/-- A new object is entered. -/
theorem Copies.published (copies : Copies graph base t log) (found : Lives graph.heap addr x)
    (reached : Reaches (Points graph.heap) root addr) (later : ∀ e ∈ log, offs ≠ e.offset) :
    Copies graph base (t.published types offs x.class) (⟨addr, offs, t.heap.length⟩ :: log) := by
  have fresh : ∀ entry ∈ t.bb.objIdxs ++ t.bb.strIdxs, entry.1 ≠ offs := by
    intro entry member
    obtain ⟨e, inLog, same, -⟩ := copies.listed entry member
    exact same ▸ (later e inLog).symm
  constructor
  case reached =>
    intro e member
    rcases List.mem_cons.mp member with rfl | old
    · exact reached
    · exact copies.reached e old
  case made =>
    intro e member
    rw [published_heap]
    rcases List.mem_cons.mp member with rfl | old
    · exact ⟨copies.room, x, types.make x.class, found, List.getElem?_concat_length, make_class types _,
        published_found fresh⟩
    · obtain ⟨low, z, y, source, copy, same, known⟩ := copies.made e old
      exact ⟨low, z, y, source, getElem?_append_of_some copy, same, (published_kept fresh (later e old)).trans known⟩
  case listed =>
    intro entry member
    rcases published_listed fresh member with rfl | old
    · exact ⟨_, List.mem_cons_self, rfl, rfl⟩
    · obtain ⟨e, inLog, same⟩ := copies.listed entry old
      exact ⟨e, List.mem_cons_of_mem _ inLog, same⟩
  case covered =>
    intro b low high
    rw [published_heap, List.length_append, List.length_singleton] at high
    by_cases last : b = t.heap.length
    · exact ⟨_, List.mem_cons_self, last.symm⟩
    · obtain ⟨e, member, same⟩ := copies.covered b low (by omega)
      exact ⟨e, List.mem_cons_of_mem _ member, same⟩
  case room =>
    rw [published_heap, List.length_append]
    exact Nat.le_add_right_of_le copies.room

theorem Agree.opened (agree : Agree graph base ⟨s, t, log⟩) (found : Lives graph.heap addr x)
    (unknown : s.bb.ptrs addr = none) (reached : Reaches (Points graph.heap) root addr)
    (next : offs = s.nextOffset (types.typeId x.class))
    (input : t.unread = headBytes (types.typeId x.class) offs ++ tail) :
    Agree graph base ⟨s.opened addr (types.typeId x.class),
      (t.advanced (headBytes (types.typeId x.class) offs).length).published types offs x.class,
      ⟨addr, offs, t.heap.length⟩ :: log⟩ := by
  subst next
  have ahead := agree.advance input
  have start : s.bb.offsetRoot ≤ s.bb.buf.length := agree.placed.start
  -- offsets that were given out lie before the end of the buffer, the new one behind it
  have later : ∀ e ∈ log, s.nextOffset (types.typeId x.class) ≠ e.offset := by
    intro e member
    have passed : s.bb.offsetRoot + e.offset < s.bb.buf.length := agree.placed.passed e member
    unfold Memory.nextOffset
    omega
  constructor
  case source => exact agree.source
  case recorded =>
    apply agree.recorded.cons unknown later
    intro e member
    obtain ⟨-, -, y, -, copy, -⟩ := agree.copies.made e member
    exact Nat.ne_of_gt (List.getElem?_eq_some_iff.mp copy).1
  case placed =>
    have same := ahead.placed.published types (s.nextOffset (types.typeId x.class)) x.class
    refine ⟨same.start, same.place, same.behind, same.unlimited, fun e member => ?_⟩
    rcases List.mem_cons.mp member with rfl | old
    · have size := varInteger_pos (BitVec.ofNat 64 (s.nextOffset (types.typeId x.class)))
      change s.bb.offsetRoot + (s.bb.buf.length + (varInteger (types.typeId x.class).toBitVec).length - s.bb.offsetRoot) <
        (s.bb.buf ++ headBytes _ _).length
      rw [headBytes, sizeBytes, List.length_append, List.length_append]
      omega
    · exact same.passed e old
  case copies => exact ahead.copies.published found reached later

/-- The content of an object has been read. -/
theorem Copies.closed (copies : Copies graph base t log) (distinct : log.Pairwise fun e f => e.copy ≠ f.copy)
    {e : Copied} (member : e ∈ log) (found : Lives graph.heap e.source x) (same : y.class = x.class) :
    Copies graph base { t with heap := t.heap.set e.copy (some y) } log := by
  have size : (t.heap.set e.copy (some y)).length = t.heap.length := List.length_set
  refine ⟨copies.reached, fun f inLog => ?_, copies.listed, fun b low high => copies.covered b low (by rwa [size] at high),
    size ▸ copies.room⟩
  obtain ⟨low, z, old, source, copy, kept, known⟩ := copies.made f inLog
  by_cases here : f.copy = e.copy
  · obtain rfl := eq_of_pairwise_ne distinct inLog member here
    cases found.symm.trans source
    exact ⟨low, x, y, source, List.getElem?_set_self (List.getElem?_eq_some_iff.mp copy).1, same, known⟩
  · exact ⟨low, z, old, source, (List.getElem?_set_ne (Ne.symm here)).trans copy, kept, known⟩

/-- From the pointer on, the object and what it leads to have been copied. -/
theorem Grows.closed {count : Nat} (grows : Grows ⟨s.opened addr (types.typeId x.class),
      (t.advanced count).published types offs x.class, ⟨addr, offs, t.heap.length⟩ :: log⟩ ⟨s', t', log'⟩)
    (source : s'.heap = graph.heap) (distinct : log'.Pairwise fun e f => e.copy ≠ f.copy)
    (found : Lives graph.heap addr x) (alike : Alike graph.heap log' x y) :
    Grows ⟨s, t, log⟩ ⟨s', { t' with heap := t'.heap.set t.heap.length (some y) }, log'⟩ := by
  obtain ⟨new, split, done⟩ := grows.log
  have split : log' = new ++ ⟨addr, offs, t.heap.length⟩ :: log := split
  have kept : ∀ (b : Addr) (z : Option Object), (t.heap ++ [some (types.make x.class)])[b]? = some z → t'.heap[b]? = some z := by
    intro b z old
    apply grows.copies b z
    change ((t.advanced count).published types offs x.class).heap[b]? = some z
    rw [published_heap]
    exact old
  have room : t.heap.length < t'.heap.length :=
    (List.getElem?_eq_some_iff.mp (kept t.heap.length _ List.getElem?_concat_length)).1
  have rest : ((t.advanced count).published types offs x.class).owners = t.owners ∧
      ((t.advanced count).published types offs x.class).bb.buf = t.bb.buf ∧
        ((t.advanced count).published types offs x.class).bb.ptrs = t.bb.ptrs := published_rest
  obtain ⟨owners, input, ptrs⟩ := rest
  refine ⟨grows.sources, fun b z old => ?_, grows.owners.trans owners, grows.input.trans input, grows.ptrs.trans ptrs,
    new ++ [⟨addr, offs, t.heap.length⟩], by rw [split]; simp, fun e member => ?_⟩
  · have inside : b < t.heap.length := (List.getElem?_eq_some_iff.mp old).1
    rw [← kept b z (getElem?_append_of_some old)]
    exact List.getElem?_set_ne (Nat.ne_of_gt inside)
  · have source : (World.writer ⟨s', t', log'⟩ : Memory).heap = graph.heap := source
    -- objects that were met inside keep their copies, and the object itself gets its own
    rcases List.mem_append.mp member with nested | last
    · obtain ⟨z, old, from', copied, same⟩ := done e nested
      have apart : t.heap.length ≠ e.copy := by
        rw [split, List.pairwise_append] at distinct
        exact (distinct.2.2 e nested _ List.mem_cons_self).symm
      exact ⟨z, old, from', (List.getElem?_set_ne apart).trans copied, same⟩
    · rw [List.mem_singleton.mp last]
      refine ⟨x, y, ?_, List.getElem?_set_self room, ?_⟩
      · rw [source]
        exact found
      · rw [source]
        exact alike

/-- A pointer to an object that was written before is read as a pointer to its copy. -/
theorem Agree.read_known {T : PtrType} (agree : Agree graph base ⟨s, t, log⟩) (fuel : Nat)
    (found : Lives graph.heap addr x) (registered : types.Registered x.class) (known : s.bb.ptrs addr = some offs)
    (fits : types.Fits T x.class) (short : (s.bb.buf ++ headBytes (types.typeId x.class) offs).length < 2 ^ 32)
    (input : t.unread = headBytes (types.typeId x.class) offs ++ tail) :
    ∃ e ∈ log, e.source = addr ∧ readPtr types (fuel + 1) T t =
      .ok (some e.copy) (t.advanced (headBytes (types.typeId x.class) offs).length) := by
  obtain ⟨e, member, rfl, rfl⟩ := agree.recorded.met addr offs known
  have passed : s.bb.offsetRoot + e.offset < s.bb.buf.length := agree.placed.passed e member
  have place : t.bb.offset = t.bb.offsetRoot + (s.bb.buf.length - s.bb.offsetRoot) := agree.placed.place
  obtain ⟨-, z, y, source, copy, same, listed⟩ := agree.copies.made e member
  cases found.symm.trans source
  rw [List.length_append] at short
  refine ⟨e, member, rfl, readPtr_back registered fits input (by omega) ?_ listed copy same⟩
  simp only [Memory.advanced]
  omega

end

/-! ## The recursion -/

section
variable {types : Types} {root : Option Addr} {graph : Graph types root} {base fuel : Nat}

theorem writePtr_extends (v : Option Addr) (s : Memory) (u : Unit) (s' : Memory)
    (ran : writePtr types fuel v s = .ok u s') : Extends s s' := by
  have headed : ∀ (m : Memory) (typeId : UInt16) (offs : Nat), Extends m (m.appended (headBytes typeId offs)) := by
    intro m typeId offs
    have head := headBytes_length typeId offs
    exact append_extends (by omega : 0 < (headBytes typeId offs).length) rfl
  induction fuel generalizing v s u s' with
  | zero => cases ran
  | succ fuel ih =>
    cases v with
    | none => exact append_extends (varInteger_pos _) ran
    | some addr =>
      obtain ⟨x, -, ⟨offs, -, rfl⟩ | ⟨-, body⟩⟩ := writePtr_cases ran
      · exact headed s (types.typeId x.class) offs
      · have first : Extends s (s.opened addr (types.typeId x.class)) := headed s (types.typeId x.class) _
        exact first.further (toBBuffer_longer ih body)

section
variable (pointers : Pointers graph base (writePtr types fuel) (readPtr types))
include pointers

theorem Pointers.next_codec (T : PtrType) (v : Option Addr)
    (reached : ∀ a, v = some a → Reaches (Points graph.heap) root a) (typed : Has types graph.heap T v) :
    (graphLink graph base).Codec (fun _ => True) (writePtr types (fuel + 1) v) (fun fuel => readPtr types fuel T)
      fun w _ r => SamePtr (Paired w.log) v r := by
  cases v with
  | none =>
    have codec : (graphLink graph base).Codec (fun _ => True) (writePtr types (fuel + 1) none)
        (fun fuel => readPtr types fuel T) fun _ _ r => r = none :=
      plain [0] (fun _ => rfl) fun _ m fuel tail _ _ input enough => pointers.null T fuel m tail enough input
    apply codec.imp fun _ _ => trivial
    rintro w _ r rfl
    exact .null
  | some addr =>
    obtain ⟨x, found, fits⟩ := typed addr rfl
    have valid := graph.valid addr x (reached addr rfl) found
    intro s u s' ran
    by_cases here : s.heap = graph.heap
    case neg =>
      obtain ⟨bytes, written⟩ := (writePtr_extends (some addr) s u s' ran).1
      exact ⟨bytes, written.symm, fun _ _ _ _ _ agree => absurd agree.source here⟩
    case pos =>
    obtain ⟨z, live, choice⟩ := writePtr_cases ran
    rw [here] at live
    cases found.symm.trans live
    rcases choice with ⟨offs, known, rfl⟩ | ⟨unknown, body⟩
    · -- the object was written before: only its offset goes out
      refine ⟨headBytes (types.typeId x.class) offs, rfl, fun short t log k tail agree _ input enough => ?_⟩
      have head := headBytes_length (types.typeId x.class) offs
      obtain ⟨k, rfl⟩ : ∃ before, k = before + 1 := ⟨k - 1, by omega⟩
      obtain ⟨e, member, rfl, read⟩ := agree.read_known k found valid.registered known fits short input
      exact ⟨some e.copy, _, log, read, unread_advanced input, agree.advance input, Grows.advance _,
        .ptr ⟨e, member, rfl, rfl⟩⟩
    · -- a new object: both sides enter it before its content, which may lead back to it
      have inside : ∀ c ∈ x.cells, ∀ a ∈ c.links graph.heap, Reaches (Points graph.heap) root a :=
        fun c member a link => (reached addr rfl).next ⟨x, found, c, member, link⟩
      obtain ⟨bytes, written, reads⟩ := pointers.body x valid inside _ _ _ body
      have written : s'.bb.buf = s.bb.buf ++ headBytes (types.typeId x.class) (s.nextOffset (types.typeId x.class)) ++ bytes :=
        written
      obtain ⟨offs, next⟩ : ∃ offs, offs = s.nextOffset (types.typeId x.class) := ⟨_, rfl⟩
      rw [← next] at written
      refine ⟨headBytes (types.typeId x.class) offs ++ bytes, by rw [← List.append_assoc]; exact written, ?_⟩
      intro short t log k tail agree _ input enough
      have head := headBytes_length (types.typeId x.class) offs
      rw [List.append_assoc] at input
      rw [List.length_append] at enough
      obtain ⟨k, rfl⟩ : ∃ before, k = before + 1 := ⟨k - 1, by omega⟩
      have opened := agree.opened found unknown (reached addr rfl) next input
      have rest : ((t.advanced (headBytes (types.typeId x.class) offs).length).published types offs x.class).unread =
          bytes ++ tail := published_unread.trans (unread_advanced input)
      obtain ⟨copy, t', log', read, rest', agree', grows, alike⟩ := reads short _ _ k tail opened trivial rest (by omega)
      have small : offs < 2 ^ 32 := by
        have short : s'.bb.buf.length < 2 ^ 32 := short
        rw [written, List.length_append, List.length_append, headBytes, List.length_append] at short
        unfold Memory.nextOffset at next
        omega
      have now : offs = (t.advanced (varInteger (types.typeId x.class).toBitVec).length).bb.offset -
          (t.advanced (varInteger (types.typeId x.class).toBitVec).length).bb.offsetRoot := by
        have start : s.bb.offsetRoot ≤ s.bb.buf.length := agree.placed.start
        have place : t.bb.offset = t.bb.offsetRoot + (s.bb.buf.length - s.bb.offsetRoot) := agree.placed.place
        rw [next]
        simp only [Memory.nextOffset, Memory.advanced]
        omega
      obtain ⟨new, split, -⟩ := grows.log
      have split : log' = new ++ ⟨addr, offs, t.heap.length⟩ :: log := split
      have entered : (⟨addr, offs, t.heap.length⟩ : Copied) ∈ log' := by
        rw [split]
        exact List.mem_append_right new List.mem_cons_self
      have closed := agree'.copies.closed agree'.recorded.copies entered found alike.class
      exact ⟨some t.heap.length, _, log', readPtr_new valid.registered fits input small now read, rest',
        ⟨agree'.source, agree'.recorded, agree'.placed, closed⟩,
        grows.closed agree'.source agree'.recorded.copies found alike, .ptr ⟨_, entered, rfl, rfl⟩⟩

end

theorem pointers (fuel : Nat) : Pointers graph base (writePtr types fuel) (readPtr types) := by
  have null : ∀ T fuel (m : Memory) tail, 0 < fuel → m.unread = 0 :: tail →
      readPtr types fuel T m = .ok none (m.advanced 1) := by
    intro T fuel m tail some input
    obtain ⟨fuel, rfl⟩ : ∃ before, fuel = before + 1 := ⟨fuel - 1, by omega⟩
    exact readPtr_null input
  induction fuel with
  | zero =>
    refine ⟨fun T v _ _ s u s' ran => ?_, null, writePtr_extends⟩
    cases ran
  | succ fuel ih => exact ⟨ih.next_codec, null, writePtr_extends⟩

end

end Xxlib.Uv3
