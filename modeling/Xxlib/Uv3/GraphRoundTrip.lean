import Xxlib.Lib.Traversal
import Xxlib.Uv3.PtrCodec

/-! Object graphs are read back as they were written, and what only a `weak_ptr` leads to is gone. -/

set_option autoImplicit false

namespace Xxlib.Uv3

open Lib

/-! ## Writing comes to an end -/

section
variable {types : Types} {root : Option Addr} {graph : Graph types root} {s : Memory} {depth : Nat}

/-- The memory of the graph, of which only what is written has changed. -/
structure Writing (graph : Graph types root) (s m : Memory) : Prop where
  heap : m.heap = graph.heap
  rest : m = { s with bb := { s.bb with buf := m.bb.buf, ptrs := m.bb.ptrs } }

/-- Writing returns, where `depth` objects have not been met. -/
abbrev Returns {α : Type} (graph : Graph types root) (s : Memory) (depth : Nat) (run : Run α) : Prop :=
  Completes (Writing graph s) (fun m => unmetCount graph.heap.length m.bb.ptrs) depth run

theorem Writing.change {m : Memory} (writing : Writing graph s m) (buf : List UInt8) (ptrs : Addr → Option Nat) :
    Writing graph s { m with bb := { m.bb with buf := buf, ptrs := ptrs } } := by
  refine ⟨writing.heap, ?_⟩
  conv => lhs; rw [writing.rest]

theorem append_returns (bytes : List UInt8) : Returns graph s depth (append bytes) :=
  fun m writing _ => ⟨(), m.appended bytes, rfl, writing.change _ _, Nat.le_refl _⟩

theorem writeString_returns (data : List UInt8) : Returns graph s depth (writeString data) :=
  (append_returns _).bind fun _ => append_returns _

section
variable {write : Option Addr → Run Unit} (writes : ∀ T v, (∀ a, v = some a → Reaches (Points graph.heap) root a) →
  Has types graph.heap T v → Returns graph s depth (write v))
include writes

theorem writeValue_returns {type : FieldType} {x : type.Value}
    (reached : ∀ a ∈ Cell.links graph.heap ⟨type, x⟩, Reaches (Points graph.heap) root a)
    (typed : Cell.Typed types graph.heap ⟨type, x⟩) : Returns graph s depth (writeValue write type x) := by
  cases type with
  | string => exact writeString_returns x
  | shared T => exact writes T x (fun a here => reached a (Option.mem_toList.mpr here)) typed
  | weak T =>
    have typed : Has types graph.heap T (lock graph.heap x) := typed
    intro m writing few
    cases locked : lock graph.heap x with
    | none =>
      have expired : writeValue write (.weak T) x m = writeUInt16 0 m := writeWeak_none (by rw [writing.heap]; exact locked)
      have returns : Returns graph s depth (writeUInt16 0) := append_returns _
      obtain ⟨u, m', ran, rest⟩ := returns m writing few
      exact ⟨u, m', expired.trans ran, rest⟩
    | some p =>
      have alive : writeValue write (.weak T) x m = write (some p) m := writeWeak_some (by rw [writing.heap]; exact locked)
      have link : p ∈ Cell.links graph.heap ⟨.weak T, x⟩ := Option.mem_toList.mpr locked
      have reached : ∀ a, some p = some a → Reaches (Points graph.heap) root a := by
        rintro a ⟨⟩
        exact reached p link
      obtain ⟨u, m', ran, rest⟩ := writes T (some p) reached (locked ▸ typed) m writing few
      exact ⟨u, m', alive.trans ran, rest⟩
  | _ => exact append_returns _

theorem toBBuffer_returns {object : Object}
    (reached : ∀ c ∈ object.cells, ∀ a ∈ c.links graph.heap, Reaches (Points graph.heap) root a)
    (valid : object.Valid types graph.heap) : Returns graph s depth (toBBuffer write object) := by
  cases object with
  | string data | bbuffer data => exact writeString_returns data
  | list type items =>
    refine (append_returns _).bind fun _ => .forM fun x member => ?_
    have cell : (⟨type, x⟩ : Cell) ∈ (Object.list type items).cells := List.mem_map_of_mem member
    exact writeValue_returns writes (reached _ cell) (valid.typed _ cell)
  | user type cells => exact .forM fun c member => writeValue_returns writes (reached c member) (valid.typed c member)

end

theorem writePtr_returns (depth : Nat) {T : PtrType} {v : Option Addr}
    (reached : ∀ a, v = some a → Reaches (Points graph.heap) root a) (typed : Has types graph.heap T v) :
    Returns graph s depth (writePtr types (depth + 1) v) := by
  induction depth using Nat.strong_induction_on generalizing T v with
  | h depth ih =>
    intro m writing few
    cases v with
    | none => exact append_returns _ m writing few
    | some addr =>
      obtain ⟨x, found, -⟩ := typed addr rfl
      have bound := (List.getElem?_eq_some_iff.mp found).1
      have alive : Lives m.heap addr x := by rw [writing.heap]; exact found
      cases known : m.bb.ptrs addr with
      | some offs => exact ⟨(), _, writePtr_known alive known, writing.change _ _, Nat.le_refl _⟩
      | none =>
        have fewer := unmetCount_update_lt bound known (m.nextOffset (types.typeId x.class))
        have few : unmetCount graph.heap.length m.bb.ptrs ≤ depth := few
        -- this object has not been met, so that `depth` is not 0
        obtain ⟨depth, rfl⟩ : ∃ before, depth = before + 1 := ⟨depth - 1, by omega⟩
        have few : unmetCount graph.heap.length (Function.update m.bb.ptrs addr _) ≤ depth :=
          Nat.le_of_lt_succ (Nat.lt_of_lt_of_le fewer few)
        have inside : ∀ c ∈ x.cells, ∀ a ∈ c.links graph.heap, Reaches (Points graph.heap) root a :=
          fun c member a link => (reached addr rfl).next ⟨x, found, c, member, link⟩
        obtain ⟨u, m', ran, writing', less⟩ := toBBuffer_returns (fun _ _ => ih depth (Nat.lt_succ_self depth)) inside
          (graph.valid addr x (reached addr rfl) found) (m.opened addr (types.typeId x.class)) (writing.change _ _) few
        exact ⟨u, m', (writePtr_new alive known).trans ran, writing', Nat.le_trans less (Nat.le_of_lt fewer)⟩

end

/-! ## Copies -/

/-- What became of a `weak_ptr`: with a copy of its object it leads there. If `settled`, it leads nowhere else. -/
structure SameWeak (pairs : Addr → Addr → Prop) (settled : Prop) (v r : Option Addr) : Prop where
  kept : ∀ a b, v = some a → pairs a b → r = some b
  expired : settled → (∀ a b, v = some a → ¬ pairs a b) → r = none

/-- The same object, in its own heap each. -/
inductive SamePlace (heap heap' : List (Option Object)) (settled : Prop) (pairs : Addr → Addr → Prop) :
    Option Object → Option Object → Prop where
  | living {x y : Object}
      (same : SameObject (SamePtr pairs) (fun v r => SameWeak pairs settled (lock heap v) (lock heap' r)) x y) :
      SamePlace heap heap' settled pairs (some x) (some y)

/-- What `shared_ptr`s from `v` on do not hold is not in a cycle of them. -/
def NoLostCycle (heap : List (Option Object)) (v : Option Addr) : Prop :=
  ∀ a, Reaches (Points heap) v a → ¬ Reaches (Holds heap) v a → ¬ Relation.TransGen (Holds heap) a a

/-- What `shared_ptr`s hold from `r` on is a copy of what they hold from `v` on. -/
def IsCopy (heap : List (Option Object)) (v : Option Addr) (heap' : List (Option Object)) (r : Option Addr) : Prop :=
  ∃ pairs, Isomorphism (SamePlace heap heap' (NoLostCycle heap v)) heap heap' v r pairs ∧
    (∀ a, Reaches (Holds heap) v a ↔ ∃ b, pairs a b) ∧ ∀ b, Reaches (Holds heap') r b ↔ ∃ a, pairs a b

/-- Everything that a graph leads to has been copied, and is still there. -/
structure Complete {types : Types} {root : Option Addr} (graph : Graph types root) (base : Nat) (w : Worlds)
    (r : Option Addr) : Prop where
  agree : Agree graph base w
  done : ∀ e ∈ w.log, Done w e
  same : SamePtr (Paired w.log) root r
  old : Held Object.edges (fun _ => False) w.reader.owners (w.reader.heap.take base)

theorem lives_take {base : Nat} {heap : List (Option Object)} {b : Addr} {y : Object} :
    Lives (heap.take base) b y ↔ b < base ∧ Lives heap b y := by
  unfold Lives
  rw [List.getElem?_take]
  by_cases low : b < base <;> simp [low]

theorem lock_some {heap : List (Option Object)} {v : Option Addr} {a : Addr} :
    lock heap v = some a ↔ v = some a ∧ ∃ x, Lives heap a x := by
  unfold lock Lives
  rw [Option.filter_eq_some_iff]
  refine and_congr_right fun _ => ?_
  rw [Option.isSome_iff_exists]
  simp [Option.join_eq_some_iff]

theorem find_mem {idxs : List (Nat × Addr)} {k : Nat} {p : Addr} (found : find idxs k = some p) :
    p ∈ idxs.map Prod.snd := by
  obtain ⟨entry, first, rfl⟩ := Option.map_eq_some_iff.mp found
  exact List.mem_map_of_mem (List.mem_of_find?_eq_some first)

section
variable {types : Types} {root r : Option Addr} {graph : Graph types root} {base : Nat} {w : Worlds}
  (complete : Complete graph base w r)
include complete

theorem Complete.pair {a b : Addr} (related : Paired w.log a b) : ∃ x y, Lives graph.heap a x ∧
    Lives w.reader.heap b y ∧ Alike graph.heap w.log x y := by
  obtain ⟨e, member, rfl, rfl⟩ := related
  obtain ⟨x, y, source, copy, alike⟩ := complete.done e member
  rw [complete.agree.source] at source alike
  exact ⟨x, y, source, copy, alike⟩

/-- The edges of an object are those of its copy. -/
theorem Complete.forth (a b a' : Addr) (related : Paired w.log a b) (holds : Holds graph.heap a a') :
    ∃ b', Paired w.log a' b' ∧ Holds w.reader.heap b b' := by
  obtain ⟨x, y, source, copy, alike⟩ := complete.pair related
  obtain ⟨z, found, edge⟩ := holds
  cases found.symm.trans source
  obtain ⟨b', edge', related'⟩ := forall₂_exists alike.edges edge
  exact ⟨b', related', y, copy, edge'⟩

theorem Complete.back (b a b' : Addr) (related : Paired w.log a b) (holds : Holds w.reader.heap b b') :
    ∃ a', Paired w.log a' b' ∧ Holds graph.heap a a' := by
  obtain ⟨x, y, source, copy, alike⟩ := complete.pair related
  obtain ⟨z, found, edge⟩ := holds
  cases found.symm.trans copy
  obtain ⟨a', edge', related'⟩ := forall₂_exists alike.edges.flip edge
  exact ⟨a', related', x, source, edge'⟩

theorem Complete.flipped : SamePtr (fun b a => Paired w.log a b) r root := by
  cases complete.same with
  | null => exact .null
  | ptr related => exact .ptr related

/-- What is held from the root on is held from its copy on. -/
theorem Complete.reaches {a b : Addr} (related : Paired w.log a b) :
    Reaches (Holds graph.heap) root a ↔ Reaches (Holds w.reader.heap) r b := by
  have recorded := complete.agree.recorded
  constructor
  · intro reaches
    obtain ⟨b', related', reaches'⟩ := reaches.paired complete.forth complete.same
    rwa [Paired.functional recorded.sources related related']
  · intro reaches
    obtain ⟨a', related', reaches'⟩ := reaches.paired complete.back complete.flipped
    rwa [Paired.injective recorded.copies related related']

/-- The address of a new object is not one of the old. -/
theorem Complete.high {a b : Addr} (related : Paired w.log a b) : base ≤ b := by
  obtain ⟨e, member, -, rfl⟩ := related
  exact (complete.agree.copies.made e member).1

theorem Complete.covered {b : Addr} {y : Object} (high : base ≤ b) (alive : Lives w.reader.heap b y) :
    ∃ a, Paired w.log a b := by
  obtain ⟨e, member, rfl⟩ := complete.agree.copies.covered b high (List.getElem?_eq_some_iff.mp alive).1
  exact ⟨e.source, e, member, rfl, rfl⟩

/-- Old objects hold old objects. -/
theorem Complete.low {b c : Addr} (holds : Holds w.reader.heap c b) (low : c < base) :
    b < base ∧ ∃ y, Lives w.reader.heap b y := by
  obtain ⟨z, found, edge⟩ := holds
  obtain ⟨y, alive⟩ := complete.old.targets c b ⟨z, lives_take.mpr ⟨low, found⟩, edge⟩
  exact ⟨(lives_take.mp alive).1, y, (lives_take.mp alive).2⟩

/-- Before the maps are cleared they own every new object. -/
theorem Complete.held : Held Object.edges (fun b => base ≤ b) (w.reader.bb.objIdxs.map Prod.snd ++
    (w.reader.bb.strIdxs.map Prod.snd ++ (r.toList ++ w.reader.owners))) w.reader.heap := by
  have listed : ∀ b, b ∈ w.reader.bb.objIdxs.map Prod.snd ∨ b ∈ w.reader.bb.strIdxs.map Prod.snd →
      ∃ y, Lives w.reader.heap b y := by
    intro b member
    have entry : ∃ p ∈ w.reader.bb.objIdxs ++ w.reader.bb.strIdxs, p.2 = b := by
      rcases member with obj | str
      · obtain ⟨p, inside, same⟩ := List.mem_map.mp obj
        exact ⟨p, List.mem_append_left _ inside, same⟩
      · obtain ⟨p, inside, same⟩ := List.mem_map.mp str
        exact ⟨p, List.mem_append_right _ inside, same⟩
    obtain ⟨p, inside, rfl⟩ := entry
    obtain ⟨e, inLog, -, same⟩ := complete.agree.copies.listed p inside
    obtain ⟨-, -, y, -, alive, -⟩ := complete.agree.copies.made e inLog
    exact ⟨y, same ▸ alive⟩
  constructor
  case roots =>
    intro b member
    rcases List.mem_append.mp member with obj | member
    · exact listed b (.inl obj)
    rcases List.mem_append.mp member with str | member
    · exact listed b (.inr str)
    rcases List.mem_append.mp member with here | owner
    · obtain rfl := Option.mem_toList.mp here
      cases complete.same with
      | ptr related =>
        obtain ⟨-, y, -, alive, -⟩ := complete.pair related
        exact ⟨y, alive⟩
    · obtain ⟨y, alive⟩ := complete.old.roots b owner
      exact ⟨y, (lives_take.mp alive).2⟩
  case targets =>
    intro c b holds
    by_cases low : c < base
    · exact (complete.low holds low).2
    · obtain ⟨z, alive, -⟩ := id holds
      obtain ⟨a, related⟩ := complete.covered (Nat.not_lt.mp low) alive
      obtain ⟨a', related', -⟩ := complete.back c a b related holds
      obtain ⟨-, y, -, alive', -⟩ := complete.pair related'
      exact ⟨y, alive'⟩
  case owned =>
    intro b y high alive
    obtain ⟨e, inLog, rfl⟩ := complete.agree.copies.covered b high (List.getElem?_eq_some_iff.mp alive).1
    obtain ⟨-, x, -, -, -, -, known⟩ := complete.agree.copies.made e inLog
    have entry := find_mem known
    refine .inl ?_
    unfold BBuffer.idxs at entry
    split at entry
    · exact List.mem_append_right _ (List.mem_append_left _ entry)
    · exact List.mem_append_left _ entry

/-- When the maps have been cleared, what is left is held by others. -/
theorem Complete.cleared : Held Object.edges (fun b => base ≤ b) (r.toList ++ w.reader.owners) (w.reader.cleared r).heap ∧
    ∀ b y, Lives (w.reader.cleared r).heap b y → Lives w.reader.heap b y := by
  obtain ⟨strs, -, survive⟩ := complete.held.release
  obtain ⟨left, -, survive'⟩ := strs.release
  exact ⟨left, fun b y alive => survive b y (survive' b y alive)⟩

/-- What is held from the copy of the root on stays. -/
theorem Complete.survives {b : Addr} (reaches : Reaches (Holds w.reader.heap) r b) :
    Reaches (Holds (w.reader.cleared r).heap) r b ∧ ∃ y, Lives (w.reader.cleared r).heap b y := by
  obtain ⟨q, here, path⟩ := reaches
  obtain ⟨left, survive⟩ := complete.cleared
  have root : q ∈ r.toList ++ w.reader.owners := List.mem_append_left _ (Option.mem_toList.mpr here)
  obtain ⟨path, alive⟩ := left.path survive root path
  exact ⟨⟨q, here, path⟩, alive⟩

theorem Complete.before {b : Addr} (reaches : Reaches (Holds (w.reader.cleared r).heap) r b) :
    Reaches (Holds w.reader.heap) r b := by
  obtain ⟨q, here, path⟩ := reaches
  exact ⟨q, here, Relation.ReflTransGen.mono (fun _ _ => owns_of_survivors complete.cleared.2) _ _ path⟩

/-- No old object leads to a new one. -/
theorem Complete.from_root {b : Addr} (high : base ≤ b)
    (reachable : Reachable Object.edges (r.toList ++ w.reader.owners) (w.reader.cleared r).heap b) :
    Reaches (Holds (w.reader.cleared r).heap) r b := by
  obtain ⟨q, root, path⟩ := reachable
  rcases List.mem_append.mp root with here | owner
  · exact ⟨q, Option.mem_toList.mp here, path⟩
  · obtain ⟨z, alive⟩ := complete.old.roots q owner
    have low : b < base := by
      clear high
      induction path with
      | refl => exact (lives_take.mp alive).1
      | tail _ holds ih => exact (complete.low (owns_of_survivors complete.cleared.2 holds) ih).1
    exact absurd low (Nat.not_lt.mpr high)

/-- A new object that lives on is held from the copy of the root on, unless cycles were lost. -/
theorem Complete.reaches_of_lives (settled : NoLostCycle graph.heap root) {a b : Addr} {y : Object}
    (related : Paired w.log a b) (alive : Lives (w.reader.cleared r).heap b y) : Reaches (Holds graph.heap) root a := by
  obtain ⟨left, survive⟩ := complete.cleared
  have held : ∀ {a b : Addr}, Paired w.log a b → Reachable Object.edges (r.toList ++ w.reader.owners)
      (w.reader.cleared r).heap b → Reaches (Holds graph.heap) root a := fun related reachable =>
    (complete.reaches related).mpr (complete.before (complete.from_root (complete.high related) reachable))
  refine held related (left.reachable ?_ ?_ (complete.high related) alive)
  · intro c d holds high
    by_contra low
    exact Nat.not_lt.mpr high (complete.low (owns_of_survivors survive holds) (Nat.not_le.mp low)).1
  · intro c high lost cycle
    -- a cycle of copies is a cycle of what was copied
    have cycle : Relation.TransGen (Holds w.reader.heap) c c :=
      Relation.TransGen.mono (fun _ _ => owns_of_survivors survive) _ _ cycle
    obtain ⟨z, found⟩ : ∃ z, Lives w.reader.heap c z := by
      cases cycle with
      | single holds => exact holds.imp fun _ => And.left
      | tail first holds => exact complete.held.targets _ _ holds
    obtain ⟨a', related'⟩ := complete.covered high found
    obtain ⟨a'', related'', cycle'⟩ := longPath_paired complete.back related' cycle
    obtain rfl := Paired.injective complete.agree.recorded.copies related' related''
    obtain ⟨e, member, rfl, rfl⟩ := related'
    refine settled e.source (complete.agree.copies.reached e member) (fun reaches => lost ?_) cycle'
    have reaches := (complete.survives ((complete.reaches ⟨e, member, rfl, rfl⟩).mp reaches)).1
    obtain ⟨q, here, path⟩ := reaches
    exact ⟨q, List.mem_append_left _ (Option.mem_toList.mpr here), path⟩

/-- What the maps leave is a copy. -/
theorem Complete.isCopy : IsCopy graph.heap root (w.reader.cleared r).heap r := by
  have recorded := complete.agree.recorded
  have survive := complete.cleared.2
  let pairs : Addr → Addr → Prop := fun a b => Paired w.log a b ∧ Reaches (Holds graph.heap) root a
  have alive : ∀ {a b : Addr}, pairs a b → ∃ y, Lives (w.reader.cleared r).heap b y := fun related =>
    (complete.survives ((complete.reaches related.1).mp related.2)).2
  have weak : ∀ v r', SamePtr (Paired w.log) (lock graph.heap v) r' →
      SameWeak pairs (NoLostCycle graph.heap root) (lock graph.heap v) (lock (w.reader.cleared r).heap r') := by
    intro v r' same
    constructor
    case kept =>
      intro a b locked related
      rw [locked] at same
      cases same with
      | ptr related' =>
        obtain rfl := Paired.functional recorded.sources related.1 related'
        exact lock_some.mpr ⟨rfl, alive related⟩
    case expired =>
      intro settled nothing
      by_contra found
      obtain ⟨b, locked⟩ := Option.ne_none_iff_exists'.mp found
      obtain ⟨rfl, y, lives⟩ := lock_some.mp locked
      generalize lock graph.heap v = v at same nothing
      cases same with
      | ptr related => exact nothing _ b rfl ⟨related, complete.reaches_of_lives settled related lives⟩
  refine ⟨pairs, ⟨fun a b b' one two => Paired.functional recorded.sources one.1 two.1,
    fun a a' b one two => Paired.injective recorded.copies one.1 two.1, ?_, ?_⟩, fun a => ⟨fun reaches => ?_, ?_⟩,
    fun b => ⟨fun reaches => ?_, ?_⟩⟩
  · intro a b related
    obtain ⟨x, y, source, copy, alike⟩ := complete.pair related.1
    obtain ⟨y', lives⟩ := alive related
    cases copy.symm.trans (survive b y' lives)
    refine ⟨some x, some y, source, lives, .living (alike.imp (fun v r' inside same => ?_) weak)⟩
    cases same with
    | null => exact .null
    | ptr related' => exact .ptr ⟨related', related.2.next ⟨x, source, inside _ rfl⟩⟩
  · have same := complete.same
    cases root with
    | none =>
      cases same
      exact .null
    | some a =>
      cases same with
      | ptr related => exact .ptr ⟨related, a, rfl, .refl⟩
  · obtain ⟨b, related, -⟩ := reaches.paired complete.forth complete.same
    exact ⟨b, related, reaches⟩
  · exact fun ⟨b, related⟩ => related.2
  · obtain ⟨a, related, reaches'⟩ := (complete.before reaches).paired complete.back complete.flipped
    exact ⟨a, related, reaches'⟩
  · exact fun ⟨a, related⟩ => (complete.survives ((complete.reaches related.1).mp related.2)).1

end

/-! ## Roots -/

/-- The memory in which a root is written, or read. -/
def Memory.begun (m : Memory) : Memory := { m with bb := { m.bb with offsetRoot := m.bb.buf.length } }

def Memory.begunRead (m : Memory) (v : Option Addr) : Memory :=
  { m.reset v with bb := { m.bb with offsetRoot := m.bb.offset } }

/-- All pointers lead to living objects; `v` is one of them. -/
def Memory.Sound (m : Memory) (v : Option Addr) : Prop :=
  Held Object.edges (fun _ => False) (v.toList ++ m.owners) m.heap

section
variable {types : Types}

theorem writeRoot_eq {v : Option Addr} {m m' : Memory} {u : Unit}
    (ran : writePtr types (m.heap.length + 1) v m.begun = .ok u m') :
    writeRoot types v m = .ok () { m' with bb := { m'.bb with ptrs := fun _ => none } } :=
  bind_run rfl (bind_run rfl (bind_run ran rfl))

theorem readRoot_eq {T : PtrType} {v r : Option Addr} {m m' : Memory}
    (ran : readPtr types (m.bb.buf.length + 1) T (m.begunRead v) = .ok r m') :
    readRoot types T v m = .ok r (m'.cleared r) :=
  bind_run rfl (bind_run rfl (catch_run (bind_run ran rfl)))

theorem root_codec {v : Option Addr} {graph : Graph types v} {T : PtrType} (typed : Has types graph.heap T v)
    (base : Nat) : (graphLink graph base).Codec (fun _ => True) (writePtr types (graph.heap.length + 1) v)
      (fun fuel => readPtr types fuel T) fun w _ r => SamePtr (Paired w.log) v r :=
  (pointers graph.heap.length).next_codec T v (fun a root => ⟨a, root, .refl⟩) typed

/-- Nothing has been copied. -/
theorem agree_begun {root old : Option Addr} {graph : Graph types root} {s t : Memory} (same : s.heap = graph.heap)
    (ptrs : s.bb.ptrs = fun _ => none) (objIdxs : t.bb.objIdxs = []) (strIdxs : t.bb.strIdxs = [])
    (behind : t.bb.offset ≤ t.bb.buf.length) (unlimited : t.bb.readLengthLimit = 0) :
    Agree graph (t.reset old).heap.length ⟨s.begun, t.begunRead old, []⟩ := by
  constructor
  case source => exact same
  case recorded =>
    change Recorded s.bb.ptrs []
    rw [ptrs]
    exact .nil
  case placed =>
    refine ⟨Nat.le_refl _, ?_, behind, unlimited, fun _ member => absurd member List.not_mem_nil⟩
    simp [Memory.begun, Memory.begunRead]
  case copies =>
    refine ⟨fun _ member => absurd member List.not_mem_nil, fun _ member => absurd member List.not_mem_nil, ?_,
      fun b low high => absurd high (Nat.not_lt.mpr low), Nat.le_refl _⟩
    intro p member
    change p ∈ t.bb.objIdxs ++ t.bb.strIdxs at member
    rw [objIdxs, strIdxs] at member
    cases member

theorem take_of_kept {heap heap' : List (Option Object)}
    (kept : ∀ (b : Addr) (y : Option Object), heap[b]? = some y → heap'[b]? = some y) : heap'.take heap.length = heap := by
  apply List.ext_getElem?
  intro b
  rw [List.getElem?_take]
  by_cases inside : b < heap.length
  · rw [if_pos inside, List.getElem?_eq_getElem inside]
    exact kept b _ (List.getElem?_eq_getElem inside)
  · rw [if_neg inside, List.getElem?_eq_none (Nat.not_lt.mp inside)]

end

/-- A graph that is appended to a buffer is written, and read back by any program from where it begins: all of it is
read, a copy is made, and the maps are empty again. `T` is the static type of the root. -/
theorem shared_graph_round_trip {types : Types} {v : Option Addr} (graph : Graph types v) (T : PtrType)
    (typed : Has types graph.heap T v) (s : Memory) (same : s.heap = graph.heap) (ptrs : s.bb.ptrs = fun _ => none) :
    ∃ bytes, writeRoot types v s =
        .ok () { s with bb := { s.bb with buf := s.bb.buf ++ bytes, offsetRoot := s.bb.buf.length } } ∧
      ((s.bb.buf ++ bytes).length < 2 ^ 32 → ∀ (t : Memory) (old : Option Addr), t.Sound old →
        t.bb.buf = s.bb.buf ++ bytes → t.bb.offset = s.bb.buf.length → t.bb.readLengthLimit = 0 →
        t.bb.ptrs = (fun _ => none) → t.bb.objIdxs = [] → t.bb.strIdxs = [] →
        ∃ r t', readRoot types T old t = .ok r t' ∧ t'.bb.buf = t.bb.buf ∧ t'.bb.offset = t'.bb.buf.length ∧
          t'.bb.ptrs = (fun _ => none) ∧ t'.bb.objIdxs = [] ∧ t'.bb.strIdxs = [] ∧ IsCopy graph.heap v t'.heap r) := by
  have few : unmetCount graph.heap.length s.begun.bb.ptrs ≤ graph.heap.length := unmetCount_le _ _
  have begins : Writing graph s.begun s.begun := ⟨same, rfl⟩
  obtain ⟨u, s', ran, writing, -⟩ :=
    writePtr_returns graph.heap.length (fun a root => ⟨a, root, .refl⟩) typed s.begun begins few
  obtain ⟨bytes, written, -⟩ := root_codec typed 0 _ _ _ ran
  have written : s'.bb.buf = s.bb.buf ++ bytes := written
  refine ⟨bytes, ?_, ?_⟩
  · rw [writeRoot_eq (by rw [same]; exact ran), writing.rest, written, ← ptrs]
    rfl
  rw [← written]
  intro short t old sound input start unlimited ptrs' objIdxs strIdxs
  obtain ⟨bytes', written', reads⟩ := root_codec typed (t.reset old).heap.length _ _ _ ran
  obtain rfl : bytes = bytes' := List.append_cancel_left (written.symm.trans written')
  have length := congrArg List.length written
  rw [List.length_append] at length
  have unread : (t.begunRead old).unread = bytes ++ [] := by
    change t.bb.buf.drop t.bb.offset = bytes ++ []
    rw [input, start, written, List.drop_left, List.append_nil]
  have begun : Agree graph (t.reset old).heap.length ⟨s.begun, t.begunRead old, []⟩ :=
    agree_begun same ptrs objIdxs strIdxs (by rw [input, start]; omega) unlimited
  obtain ⟨r, t', log, read, rest, agree, grows, paired⟩ :=
    reads short (t.begunRead old) [] (t.bb.buf.length + 1) [] begun trivial unread (by rw [input]; omega)
  obtain ⟨new, split, done⟩ := grows.log
  have split : log = new := split.trans (List.append_nil new)
  have complete : Complete graph (t.reset old).heap.length ⟨s', t', log⟩ r := by
    refine ⟨agree, split ▸ done, paired, ?_⟩
    -- the old objects are those that are left when `old` has gone
    have kept : t'.heap.take (t.reset old).heap.length = (t.reset old).heap := take_of_kept grows.copies
    have owners : t'.owners = t.owners := grows.owners
    dsimp only
    rw [kept, owners]
    exact sound.release.1
  refine ⟨r, t'.cleared r, readRoot_eq read, grows.input, ?_, grows.ptrs.trans ptrs', rfl, rfl, complete.isCopy⟩
  have inside : t'.bb.offset ≤ t'.bb.buf.length := agree.placed.behind
  have nothing : t'.bb.buf.length ≤ t'.bb.offset := List.drop_eq_nil_iff.mp rest
  exact Nat.le_antisymm inside nothing

/-- A class with a number, two pointers to objects and one to a string, and a list of `weak_ptr`s. -/
def nodeTypes : Types :=
  let fresh : Types := {
    fields := fun _ => [.int16, .shared (.object 0), .weak (.object 0), .shared .string]
    listId := fun _ => 4
    userId := fun _ => 3
    creators := fun _ => none
    derives := fun _ _ => true }
  (fresh.register (.user 0) 3).register (.list (.weak (.object 0))) 4

def node (number : BitVec 16) (child parent name : Option Addr) : Object :=
  .user 0 [⟨.int16, number⟩, ⟨.shared (.object 0), child⟩, ⟨.weak (.object 0), parent⟩, ⟨.shared .string, name⟩]

/-- A node with a list that leads back to it, and on to a node that it does not hold. -/
def nodeHeap : List (Option Object) :=
  [some (node (-300) (some 1) (some 2) (some 3)), some (.list (.weak (.object 0)) [(some 0 : Option Addr), (some 2 : Option Addr)]),
    some (node 7 none (some 0) none), some (.string [65, 66])]

theorem nodeHeap_lives {a : Addr} {x : Object} (found : Lives nodeHeap a x) :
    a = 0 ∧ x = node (-300) (some 1) (some 2) (some 3) ∨
      a = 1 ∧ x = .list (.weak (.object 0)) [(some 0 : Option Addr), (some 2 : Option Addr)] ∨
      a = 2 ∧ x = node 7 none (some 0) none ∨ a = 3 ∧ x = .string [65, 66] := by
  match a with
  | 0 => cases found; exact .inl ⟨rfl, rfl⟩
  | 1 => cases found; exact .inr (.inl ⟨rfl, rfl⟩)
  | 2 => cases found; exact .inr (.inr (.inl ⟨rfl, rfl⟩))
  | 3 => cases found; exact .inr (.inr (.inr ⟨rfl, rfl⟩))
  | a + 4 => cases found

theorem has_null (T : PtrType) : Has nodeTypes nodeHeap T none := nofun

theorem has_object {a : Addr} {x : Object} (found : Lives nodeHeap a x) (other : x.class ≠ .string) :
    Has nodeTypes nodeHeap (.object 0) (some a) := by
  rintro b ⟨⟩
  exact ⟨x, found, other, rfl⟩

theorem node_valid {number : BitVec 16} {child parent name : Option Addr} (first : Has nodeTypes nodeHeap (.object 0) child)
    (second : Has nodeTypes nodeHeap (.object 0) (lock nodeHeap parent)) (third : Has nodeTypes nodeHeap .string name) :
    (node number child parent name).Valid nodeTypes nodeHeap := by
  have large : 2 < nodeTypes.typeId (.user 0) := by decide
  refine ⟨.inr (.inr ⟨large, rfl⟩), ?_, ?_⟩
  · rintro type cells ⟨⟩
    rfl
  · exact List.forall_mem_cons.mpr ⟨trivial, List.forall_mem_cons.mpr ⟨first, List.forall_mem_cons.mpr ⟨second,
      List.forall_mem_singleton.mpr third⟩⟩⟩

def nodeGraph : Graph nodeTypes (some 0) where
  heap := nodeHeap
  valid := by
    intro a x _ found
    have named : Has nodeTypes nodeHeap .string (some 3) := by
      rintro b ⟨⟩
      exact ⟨.string [65, 66], rfl, rfl⟩
    have first : Has nodeTypes nodeHeap (.object 0) (some 0) := has_object rfl (by decide)
    have second : Has nodeTypes nodeHeap (.object 0) (some 2) := has_object rfl (by decide)
    rcases nodeHeap_lives found with ⟨-, rfl⟩ | ⟨-, rfl⟩ | ⟨-, rfl⟩ | ⟨-, rfl⟩
    · exact node_valid (has_object rfl (by decide)) second named
    · refine ⟨.inr (.inr ⟨by decide, rfl⟩), nofun, ?_⟩
      exact List.forall_mem_cons.mpr ⟨first, List.forall_mem_singleton.mpr second⟩
    · exact node_valid (has_null _) first (has_null _)
    · exact ⟨.inl rfl, nofun, nofun⟩

theorem shared_graph_round_trip_node : ∃ m' r t', writeRoot nodeTypes (some 0) { heap := nodeHeap, owners := [0, 2] } = .ok () m' ∧
    readRoot nodeTypes (.object 0) none { m' with bb := { m'.bb with offset := 0 } } = .ok r t' ∧
      t'.bb.offset = t'.bb.buf.length ∧ IsCopy nodeHeap (some 0) t'.heap r := by
  have typed : Has nodeTypes nodeHeap (.object 0) (some 0) := has_object rfl (by decide)
  obtain ⟨bytes, wrote, reads⟩ :=
    shared_graph_round_trip nodeGraph (.object 0) typed { heap := nodeHeap, owners := [0, 2] } rfl rfl
  have facts : (match writeRoot nodeTypes (some 0) { heap := nodeHeap, owners := [0, 2] } with
      | .ok _ m => decide (m.bb.buf.length < 2 ^ 32)
      | .error _ _ => false) = true := by decide +kernel
  rw [wrote] at facts
  let m : Memory := { heap := nodeHeap, owners := [0, 2], bb := { buf := [] ++ bytes } }
  have sound : m.Sound none := by
    refine ⟨?_, ?_, nofun⟩
    · exact List.forall_mem_cons.mpr ⟨⟨_, rfl⟩, List.forall_mem_singleton.mpr ⟨_, rfl⟩⟩
    · rintro a b ⟨x, found, edge⟩
      have held : b = 1 ∨ b = 3 := by
        rcases nodeHeap_lives found with ⟨-, rfl⟩ | ⟨-, rfl⟩ | ⟨-, rfl⟩ | ⟨-, rfl⟩
        · simpa [Object.edges, Object.cells, node, Cell.edges] using edge
        · cases edge
        · cases edge
        · cases edge
      rcases held with rfl | rfl <;> exact ⟨_, rfl⟩
  obtain ⟨r, t', read, -, all, -, -, -, copy⟩ := reads (of_decide_eq_true facts) m none sound rfl rfl rfl rfl rfl rfl
  exact ⟨_, r, t', wrote, read, all, copy⟩

end Xxlib.Uv3
