import Xxlib.Go.Writing

/-! Object graphs are read back as they were written. -/

set_option autoImplicit false

namespace Xxlib.Go

open Lib

/-! ## The copy of a graph -/

section
variable {heap heap' : List Obj} {pairs : Addr → Addr → Prop}

theorem SamePtr.restrict {x y : IObject} (same : SamePtr pairs x y) (root : x.Root heap) :
    SamePtr (fun a b => pairs a b ∧ a < heap.length) x y := by
  cases same with
  | nil => exact .nil
  | typedNil kind => exact .typedNil kind
  | ptr related => exact .ptr ⟨related, root⟩

theorem SamePtr.restrict_all {xs ys : List IObject} (same : List.Forall₂ (SamePtr pairs) xs ys)
    (roots : ∀ v ∈ xs, v.Root heap) : List.Forall₂ (SamePtr fun a b => pairs a b ∧ a < heap.length) xs ys := by
  induction same with
  | nil => exact .nil
  | cons first rest ih =>
    have head := first.restrict (roots _ List.mem_cons_self)
    exact .cons head (ih fun v member => roots v (List.mem_cons_of_mem _ member))

/-- What an object refers to is in the same heap. -/
theorem Same.restrict {x y : Obj} (same : Same pairs x.kept y) (typed : x.Typed heap) :
    Same (fun a b => pairs a b ∧ a < heap.length) x.kept y := by
  have roots := typed.roots
  cases x with
  | string value =>
    cases same
    exact .string value
  | bbuffer bb =>
    cases same
    exact .bbuffer _
  | foo x =>
    cases same with
    | foo same => exact .foo ⟨same.id, same.name, same.age, same.parent.restrict (roots _ List.mem_cons_self)⟩
  | listInt32 items =>
    cases same
    exact .listInt32 items
  | fooExt1 x =>
    cases same with
    | fooExt1 same childIds =>
      exact .fooExt1 ⟨same.id, same.name, same.age, same.parent.restrict (roots _ List.mem_cons_self)⟩
        (childIds.restrict (roots _ (List.mem_cons_of_mem _ List.mem_cons_self)))
  | listFooExt1 items =>
    cases same with
    | listFooExt1 same => exact .listFooExt1 (SamePtr.restrict_all same roots)

theorem Isomorphic.mono {v v' : IObject} {heap'' : List Obj} (isomorphic : Isomorphic heap heap' v v')
    (kept : ∀ (addr : Addr) (obj : Obj), heap'[addr]? = some obj → heap''[addr]? = some obj) :
    Isomorphic heap heap'' v v' := by
  obtain ⟨pairs, functional, injective, objects, root⟩ := isomorphic
  refine ⟨pairs, functional, injective, fun a b related => ?_, root⟩
  obtain ⟨x, y, source, copy, same⟩ := objects a b related
  exact ⟨x, y, source, kept b y copy, same⟩

end

/-- When everything in the log is complete, what it relates is a copy. -/
theorem isomorphic_of_log (graph : Graph) {w : Worlds} (agree : Agree w) (original : graph.heap <+: w.writer.heap)
    (done : ∀ e ∈ w.log, Done w e) {v r : IObject} (root : v.Root graph.heap)
    (same : SamePtr (Linked w.log) v r) : Isomorphic (graph.heap.map Obj.kept) w.reader.heap v r := by
  refine ⟨fun a b => Linked w.log a b ∧ a < graph.heap.length, ?_, ?_, ?_, same.restrict root⟩
  · rintro a b b' ⟨⟨e, member, rfl, rfl⟩, -⟩ ⟨⟨f, inLog, source, rfl⟩, -⟩
    rw [Lib.eq_of_pairwise_ne agree.sources member inLog source.symm]
  · rintro a a' b ⟨⟨e, member, rfl, rfl⟩, -⟩ ⟨⟨f, inLog, rfl, copy⟩, -⟩
    rw [Lib.eq_of_pairwise_ne agree.copies member inLog copy.symm]
  · rintro a b ⟨⟨e, member, rfl, rfl⟩, inside⟩
    obtain ⟨x, y, source, copy, alike⟩ := done e member
    have found : graph.heap[e.source]? = some x := by
      rw [← source, List.getElem?_eq_getElem inside, (getElem?_of_grown original (List.getElem?_eq_getElem inside))]
    refine ⟨x.kept, y, by rw [List.getElem?_map, found]; rfl, copy, alike.restrict ?_⟩
    exact graph.typed x (List.mem_of_getElem? found)

/-! ## Roots -/

/-- Between two roots. -/
structure Ready (graph : Graph) (w : World Memory Memory Unit) : Prop where
  holds : Holds graph.heap.length w.writer
  original : graph.heap <+: w.writer.heap
  inside : w.reader.bb.offset ≤ w.reader.bb.buf.data.length
  unlimited : w.reader.bb.readLengthLimit = 0

/-- What was read stays, and so does the stream. -/
structure Kept (v w : World Memory Memory Unit) : Prop where
  copies : ∀ (addr : Addr) (obj : Obj), v.reader.heap[addr]? = some obj → w.reader.heap[addr]? = some obj
  input : w.reader.bb.buf = v.reader.bb.buf

def rootLink (graph : Graph) : Link Memory Memory Unit where
  written := fun m => m.bb.buf.data
  unread := Memory.unread
  limit := 2 ^ 63
  Agree := Ready graph
  Grows := Kept
  refl := fun _ => ⟨fun _ _ found => found, rfl⟩
  trans := fun first second =>
    ⟨fun addr obj found => second.copies addr obj (first.copies addr obj found), second.input.trans first.input⟩

/-- The memory in which a root is written, or read. -/
def Memory.begun (m : Memory) : Memory :=
  { m with bb := { m.bb with strStore := [], ptrStore := [], offsetRoot := m.bb.buf.data.length } }

def Memory.begunRead (m : Memory) : Memory :=
  { m with bb := { m.bb with idxStore := [], offsetRoot := m.bb.offset } }

theorem Ready.agree {graph : Graph} {s t : Memory} (ready : Ready graph ⟨s, t, ()⟩) :
    Agree ⟨s.begun, t.begunRead, []⟩ := by
  constructor
  case ptrStore => rfl
  case idxStore => rfl
  case sources => exact .nil
  case copies => exact .nil
  case offsets => exact .nil
  case passed => exact fun e member => absurd member List.not_mem_nil
  case kinds => exact fun e member => absurd member List.not_mem_nil
  case typed => exact ready.holds.typed
  case strings => exact fun e member => absurd member List.not_mem_nil
  case root => exact Nat.le_refl _
  case place => simp [Memory.begun, Memory.begunRead]
  case inside => exact ready.inside
  case unlimited => exact ready.unlimited

theorem writeRoot_eq (v : IObject) (m : Memory) : writeRoot v m = writeIObject (m.heap.length + 2) v m.begun :=
  bind_run rfl (bind_run rfl rfl)

theorem readRoot_eq (m : Memory) :
    readRoot m = readIObject (m.bb.buf.data.length + m.bb.buf.spare.length + 1) m.begunRead :=
  bind_run rfl (bind_run rfl rfl)

/-- Writing a root returns. -/
theorem Holds.writeRoot {base : Nat} {m : Memory} (holds : Holds base m) {v : IObject} (root : v.Root m.heap) :
    ∃ u m', Go.writeRoot v m = .ok u m' ∧ Holds base m' ∧ m.heap <+: m'.heap := by
  have begun : Sound base m.begun :=
    ⟨⟨holds.typed, holds.room, holds.made⟩, fun entry member => absurd member List.not_mem_nil⟩
  have few : unmet base m.begun ≤ m.heap.length := by
    apply Nat.le_trans (Finset.card_filter_le _ _)
    rw [Finset.card_range]
    exact holds.room
  obtain ⟨u, m', ran, later⟩ := writes base m.heap.length v m.begun begun few
    fun other only => List.mem_singleton.mp only ▸ root
  exact ⟨u, m', by rw [writeRoot_eq]; exact ran, later.sound.toHolds, later.heap⟩

theorem root_codec (graph : Graph) (v : IObject) (root : v.Root graph.heap) :
    (rootLink graph).Codec (fun _ => True) (writeRoot v) (fun _ => readRoot)
      fun w _ r => Isomorphic (graph.heap.map Obj.kept) w.reader.heap v r := by
  intro s u s' ran
  have nested := ran
  rw [writeRoot_eq] at nested
  obtain ⟨bytes, written, reads⟩ := (pointers (s.heap.length + 2)).codec v _ _ _ nested
  refine ⟨bytes, written, fun short t log fuel tail ready _ input _ => ?_⟩
  have enough : bytes.length ≤ t.bb.buf.data.length + t.bb.buf.spare.length + 1 := by
    have count := congrArg List.length input
    simp only [rootLink, Memory.unread, List.length_drop, List.length_append] at count
    omega
  obtain ⟨r, t', log', read, rest, agree, grows, same⟩ :=
    reads short t.begunRead [] _ tail ready.agree (fun e member => absurd member List.not_mem_nil) input enough
  have original : graph.heap <+: s'.heap := ready.original.trans grows.sources
  have holds : Holds graph.heap.length s' := by
    obtain ⟨_, m', returned, holds, -⟩ := ready.holds.writeRoot (root.mono ready.original)
    rw [ran] at returned
    cases returned
    exact holds
  have done : ∀ e ∈ log', Done ⟨s', t', log'⟩ e := by
    obtain ⟨new, split, done⟩ := grows.log
    have split : log' = new := split.trans (List.append_nil new)
    rw [split]
    exact split ▸ done
  refine ⟨r, t', (), (readRoot_eq t).trans read, rest, ⟨holds, original, agree.inside, agree.unlimited⟩,
    ⟨grows.copies, grows.input⟩, ?_⟩
  exact isomorphic_of_log graph agree original done root same

/-- Writing a sequence of roots returns. -/
theorem Holds.writeRoots {base : Nat} {m : Memory} (holds : Holds base m) {vs : List IObject}
    (roots : ∀ v ∈ vs, v.Root m.heap) : ∃ u m', vs.forM Go.writeRoot m = .ok u m' := by
  induction vs generalizing m with
  | nil => exact ⟨_, _, rfl⟩
  | cons v vs ih =>
    obtain ⟨_, m₁, first, holds₁, longer⟩ := holds.writeRoot (roots v List.mem_cons_self)
    obtain ⟨u, m₂, rest⟩ := ih holds₁ fun other member => (roots other (List.mem_cons_of_mem v member)).mono longer
    exact ⟨u, m₂, bind_run first rest⟩

theorem Graph.holds (graph : Graph) (bb : BBuffer) : Holds graph.heap.length ⟨graph.heap, bb⟩ := by
  refine ⟨graph.typed, Nat.le_refl _, fun addr obj beyond found => ?_⟩
  exact absurd (List.getElem?_eq_some_iff.mp found).1 (Nat.not_lt.mpr beyond)

/-- Roots that are appended to an empty buffer are written, and as many roots are read back from its
beginning, each of them a copy of what was kept of the graph; all of the buffer is read. -/
theorem roots_round_trip (graph : Graph) (vs : List IObject) (roots : ∀ v ∈ vs, v.Root graph.heap) (bb : BBuffer)
    (empty : bb.buf.data = []) : ∃ u m, vs.forM writeRoot ⟨graph.heap, bb⟩ = .ok u m ∧
      (m.bb.buf.data.length < 2 ^ 63 → ∀ t : Memory, t.bb.buf.data = m.bb.buf.data → t.bb.offset = 0 →
        t.bb.readLengthLimit = 0 → ∃ rs t', collect readRoot vs.length t = .ok rs t' ∧
          List.Forall₂ (Isomorphic (graph.heap.map Obj.kept) t'.heap) vs rs ∧
          t'.bb.buf = t.bb.buf ∧ t'.bb.offset = t'.bb.buf.data.length) := by
  have holds := graph.holds bb
  obtain ⟨u, m, ran⟩ := holds.writeRoots roots
  refine ⟨u, m, ran, fun short t stream start unlimited => ?_⟩
  have stable : ∀ v r, (rootLink graph).Stable fun w =>
      Isomorphic (graph.heap.map Obj.kept) w.reader.heap v r :=
    fun v r _ _ kept isomorphic => isomorphic.mono kept.copies
  have codec := Link.Codec.forM vs (Link.Stable.fixed True) stable fun v member =>
    root_codec graph v (roots v member)
  obtain ⟨bytes, written, reads⟩ := codec _ _ _ ran
  have written : m.bb.buf.data = bytes := by
    rw [← List.nil_append bytes, ← empty]
    exact written
  have input : t.unread = bytes ++ [] := by
    rw [Memory.unread, start, stream, written]
    simp
  have ready : Ready graph ⟨⟨graph.heap, bb⟩, t, ()⟩ := by
    refine ⟨holds, List.prefix_rfl, ?_, unlimited⟩
    change t.bb.offset ≤ t.bb.buf.data.length
    omega
  obtain ⟨rs, t', _, read, rest, ready', kept, isomorphic⟩ :=
    reads short t () bytes.length [] ready trivial input (Nat.le_refl _)
  refine ⟨rs, t', read, isomorphic, kept.input, ?_⟩
  have inside : t'.bb.offset ≤ t'.bb.buf.data.length := ready'.inside
  have nothing : t'.bb.buf.data.length ≤ t'.bb.offset := List.drop_eq_nil_iff.mp rest
  omega

/-- An object that is its own parent, with a list. -/
def ownParent : Graph where
  heap := [.fooExt1 { id := -7, name := { value := [65], hasValue := true }, parent := .ptr 0, childIds := .ptr 1 },
    .listInt32 [1, 300]]
  typed := by simp [Obj.Typed, IObject.Has, Obj.kind, fooKinds]

/-- What was written can be read from its beginning. -/
def startsWhole {ε α : Type} : EStateM.Result ε Memory α → Bool
  | .ok _ m => decide (m.bb.buf.data.length < 2 ^ 63 ∧ m.bb.offset = 0 ∧ m.bb.readLengthLimit = 0)
  | .error _ _ => false

theorem roots_round_trip_cycle : ∃ u m rs t',
    [.ptr 0, .nil, .ptr 0].forM writeRoot ⟨ownParent.heap, {}⟩ = .ok u m ∧ collect readRoot 3 m = .ok rs t' ∧
      List.Forall₂ (Isomorphic (ownParent.heap.map Obj.kept) t'.heap) [.ptr 0, .nil, .ptr 0] rs ∧
      t'.bb.buf = m.bb.buf ∧ t'.bb.offset = t'.bb.buf.data.length := by
  have valid : ∀ v ∈ [IObject.ptr 0, .nil, .ptr 0], v.Root ownParent.heap := by simp [IObject.Root, ownParent]
  obtain ⟨u, m, ran, reads⟩ := roots_round_trip ownParent [.ptr 0, .nil, .ptr 0] valid {} rfl
  have facts : startsWhole ([IObject.ptr 0, .nil, .ptr 0].forM writeRoot ⟨ownParent.heap, {}⟩) = true := by decide +kernel
  rw [ran] at facts
  obtain ⟨short, start, unlimited⟩ := of_decide_eq_true facts
  obtain ⟨rs, t', rest⟩ := reads short m rfl start unlimited
  exact ⟨u, m, rs, t', ran, rest⟩

/-- An object whose age has a value, but not officially. -/
def ageless : Graph where
  heap := [.foo { age := { value := 5, hasValue := false } }]
  typed := by simp [Obj.Typed, IObject.Has]

/-- The value of a nullable that has none is not written, so that not every field is read back. -/
theorem roots_not_identical : ¬ ∀ (graph : Graph) (vs : List IObject) (bb : BBuffer),
    (∀ v ∈ vs, v.Root graph.heap) → bb.buf.data = [] → ∃ u m, vs.forM writeRoot ⟨graph.heap, bb⟩ = .ok u m ∧
      (m.bb.buf.data.length < 2 ^ 63 → ∀ t : Memory, t.bb.buf.data = m.bb.buf.data → t.bb.offset = 0 →
        t.bb.readLengthLimit = 0 → ∃ rs t', collect readRoot vs.length t = .ok rs t' ∧
          List.Forall₂ (Isomorphic graph.heap t'.heap) vs rs ∧
          t'.bb.buf = t.bb.buf ∧ t'.bb.offset = t'.bb.buf.data.length) := by
  intro always
  obtain ⟨u, m, ran, reads⟩ := always ageless [.ptr 0] {} (by simp [IObject.Root, ageless]) rfl
  have wrote : [IObject.ptr 0].forM writeRoot ⟨ageless.heap, {}⟩ =
      .ok () ⟨ageless.heap, { buf := ⟨[3, 1, 0, 0, 0, 0], []⟩, ptrStore := [(0, 1)] }⟩ := rfl
  rw [wrote] at ran
  cases ran
  obtain ⟨rs, t', read, isomorphic, -⟩ := reads (by decide) _ rfl rfl rfl
  have got : collect readRoot 1 ⟨ageless.heap, { buf := ⟨[3, 1, 0, 0, 0, 0], []⟩, ptrStore := [(0, 1)] }⟩ =
      .ok [.ptr 1] ⟨ageless.heap ++ [.foo {}],
        { buf := ⟨[3, 1, 0, 0, 0, 0], []⟩, offset := 6, ptrStore := [(0, 1)], idxStore := [(1, 1)] }⟩ := rfl
  rw [List.length_singleton, got] at read
  cases read
  cases isomorphic with
  | cons first _ =>
    obtain ⟨pairs, -, -, objects, root⟩ := first
    cases root with
    | ptr related =>
      obtain ⟨x, y, source, copy, same⟩ := objects 0 1 related
      cases source
      cases copy
      cases same with
      | foo same => exact absurd same.age (by decide)

end Xxlib.Go
