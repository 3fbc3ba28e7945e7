import Xxlib.Uv4.PoolBuilding

/-! A read that has not failed, beside a scan of the same bytes (`xx_bbuffer.hpp`, `xx_list.hpp`).

An object is endangered where a `Ptr` points to it and it is not complete. The scan knows which objects these are: a
reference has named them.
-/

set_option autoImplicit false

namespace Xxlib.Uv4

open Function (update update_self update_of_ne)
open Lib PtrHeap

/-- What the reader and the scan know of the objects that were begun. -/
structure Keyed (outer : List Nat) (idxStore : Nat → Option Nat) (bb : BBuffer) (s : Seen) : Prop where
  bytes : s.bb = bb
  begun : ∀ {k}, k ∈ s.begun ↔ ∃ a, idxStore k = some a
  outer_begun : ∀ {k}, k ∈ outer → k ∈ s.begun
  named_begun : ∀ {k}, k ∈ s.named → k ∈ s.begun
  injective : ∀ {j k a}, idxStore j = some a → idxStore k = some a → j = k
  root : bb.offsetRoot ≤ bb.offset
  older : ∀ {k}, k ∈ s.begun → k + bb.offsetRoot < bb.offset
  countable : ∀ k, s.named.count k + 1 < 2 ^ 32

/-- What holds as long as no error has occurred. -/
structure Building (base : PtrHeap) (outer : List Nat) (t : Option Nat) (r : PoolReader) (s : Seen) : Prop
    extends Underway base outer t r.idxStore r.heap, Keyed outer r.idxStore r.bb s where
  made : base.made ≤ r.heap.made
  pointed : ∀ {a}, 0 < r.heap.count a → r.heap.status a ≠ .freed
  kept : ∀ {a}, r.heap.status a = .constructing → r.heap.held a = true → 0 < r.heap.count a
  within : ∀ {l a}, l ∈ r.heap.ptrs → r.heap.pointer l = some a → base.made ≤ a →
    ∃ b i, l = .field b i ∧ base.made ≤ b
  entry : ∀ {k a}, r.idxStore k = some a → base.made ≤ a ∧ r.heap.status a ≠ .freed
  named : ∀ {k a}, k ∈ outer → r.idxStore k = some a → (k ∈ s.named ↔ 0 < r.heap.count a ∨ t = some a)
  few : ∀ {k a}, r.idxStore k = some a →
    r.heap.count a + (if t = some a then 1 else 0) ≤ s.named.count k + if k ∈ outer then 0 else 1
  value : ∀ {a}, t = some a → ∃ k, r.idxStore k = some a

/-! ## Keys -/

section
variable {outer : List Nat} {idxStore : Nat → Option Nat} {bb bb' : BBuffer} {s : Seen} {k p : Nat}

theorem Keyed.advance (keyed : Keyed outer idxStore bb s) (taken : Advances bb bb') :
    Keyed outer idxStore bb' { s with bb := bb' } :=
  { keyed with
    bytes := rfl
    root := by
      rw [taken.root]
      exact keyed.root.trans taken.less.le
    older := fun inside => by
      rw [taken.root]
      exact (keyed.older inside).trans taken.less }

/-- A reference names an object. -/
theorem Keyed.refer (keyed : Keyed outer idxStore bb s) (inside : k ∈ s.begun) (room : s.named.count k + 2 < 2 ^ 32) :
    Keyed outer idxStore bb { s with named := k :: s.named } :=
  { keyed with
    named_begun := by
      rintro j (_ | ⟨_, named⟩)
      · exact inside
      · exact keyed.named_begun named
    countable := fun j => by
      show (k :: s.named).count j + 1 < _
      by_cases same : j = k
      · rw [same, List.count_cons_self]
        exact room
      · rw [List.count_cons_of_ne (Ne.symm same)]
        exact keyed.countable j }

/-- Behind the last key there is a new one. -/
theorem Keyed.fresh (keyed : Keyed outer idxStore bb s) (new : bb.offset ≤ k + bb.offsetRoot) : k ∉ s.begun :=
  fun inside => by
    have := keyed.older inside
    omega

theorem Keyed.begin (keyed : Keyed outer idxStore bb s) (taken : Advances bb bb')
    (new : bb.offset ≤ k + bb.offsetRoot) (behind : k + bb.offsetRoot < bb'.offset)
    (unused : ∀ j, idxStore j ≠ some p) :
    Keyed (k :: outer) (update idxStore k (some p)) bb' { s with bb := bb', begun := k :: s.begun } := by
  have advanced := keyed.advance taken
  refine
    { bytes := rfl
      begun := fun {j} => ?_
      outer_begun := fun {j} inside => ?_
      named_begun := fun inside => List.mem_cons_of_mem _ (keyed.named_begun inside)
      injective := fun {i j a} first second => ?_
      root := advanced.root
      older := fun {j} inside => ?_
      countable := keyed.countable }
  · rw [List.mem_cons, keyed.begun]
    by_cases same : j = k
    · simp [same]
    · simp [same]
  · rcases List.mem_cons.mp inside with rfl | inside
    · exact List.mem_cons_self
    · exact List.mem_cons_of_mem _ (keyed.outer_begun inside)
  · by_cases left : i = k
    · by_cases right : j = k
      · rw [left, right]
      · rw [left, update_self] at first
        rw [update_of_ne right] at second
        exact absurd (second.trans first.symm) (unused j)
    · rw [update_of_ne left] at first
      by_cases right : j = k
      · rw [right, update_self] at second
        exact absurd (first.trans second.symm) (unused i)
      · rw [update_of_ne right] at second
        exact keyed.injective first second
  · rcases List.mem_cons.mp inside with rfl | inside
    · show j + bb'.offsetRoot < bb'.offset
      rw [taken.root]
      exact behind
    · exact advanced.older inside

end

section
variable {base : PtrHeap} {outer : List Nat} {t : Option Nat} {r : PoolReader} {s : Seen} {bb : BBuffer} {k a : Nat}

theorem Building.known (building : Building base outer t r s) (found : r.idxStore k = some a) : a < r.heap.made :=
  building.counted.known (building.entry found).2

/-- The number of the next object is not in use. -/
theorem Building.unknown (building : Building base outer t r s) : r.heap.count r.heap.made = 0 := by
  by_contra pointed
  exact Nat.lt_irrefl _ (building.counted.known (building.pointed (Nat.pos_of_ne_zero pointed)))

/-- An error here endangers the objects that were named and are not complete. -/
theorem Building.endangered_iff (building : Building base outer none r s) :
    (∃ a, r.heap.Endangered a) ↔ ∃ k ∈ outer, k ∈ s.named := by
  constructor
  · rintro ⟨a, kind, pointed⟩
    -- nothing is freed as long as there is no error
    have under := kind.resolve_right (building.pointed pointed)
    obtain ⟨k, inside, found⟩ := building.opened.mp under
    exact ⟨k, inside, (building.named inside found).mpr (.inl pointed)⟩
  · rintro ⟨k, inside, named⟩
    obtain ⟨a, found⟩ := building.begun.mp (building.outer_begun inside)
    have pointed := ((building.named inside found).mp named).resolve_right (by simp)
    exact ⟨a, .inl (building.opened.mpr ⟨k, inside, found⟩), pointed⟩

/-! ## Steps -/

theorem Building.advance (building : Building base outer none r s) (taken : Advances r.bb bb) :
    Building base outer none { r with bb } { s with bb } :=
  { building with
    toKeyed := building.toKeyed.advance taken }

/-- A reference to an object that was begun before. -/
theorem Building.refer (building : Building base outer none r s) (taken : Advances r.bb bb)
    (found : r.idxStore k = some a) (room : s.named.count k + 2 < 2 ^ 32) :
    Building base outer (some a) { r with bb } { s with bb, named := k :: s.named } := by
  have keyed := (building.toKeyed.refer (building.begun.mpr ⟨a, found⟩) room).advance taken
  exact
    { building with
      toKeyed := keyed
      fresh := fun newer live => (building.fresh newer live).imp_right (nomatch ·)
      named := fun {j b} inside other => by
        have before := building.named inside other
        simp only [reduceCtorEq, or_false] at before
        rw [List.mem_cons, before, or_comm, Option.some.injEq]
        -- entries are injective, so that naming the key is pointing to the object
        refine or_congr_right ⟨fun same => ?_, fun same => ?_⟩
        · subst same
          exact Option.some.inj (found.symm.trans other)
        · subst same
          exact building.injective other found
      few := fun {j b} other => by
        have before := building.few other
        show r.heap.count b + _ ≤ (k :: s.named).count j + _
        simp only [reduceCtorEq, if_false] at before
        by_cases same : j = k
        · rw [same, List.count_cons_self]
          subst same
          split <;> omega
        · have apart : a ≠ b := by
            rintro rfl
            exact same (building.injective other found)
          rw [List.count_cons_of_ne (Ne.symm same)]
          simpa [apart] using before
      value := by
        rintro b ⟨⟩
        exact ⟨k, found⟩ }

/-- The block of an object, and its entry. -/
theorem Building.begin (building : Building base outer none r s) (taken : Advances r.bb bb)
    (new : r.bb.offset ≤ k + r.bb.offsetRoot) (behind : k + r.bb.offsetRoot < bb.offset) :
    Building base (k :: outer) none
      { bb, heap := r.heap.allocate, idxStore := update r.idxStore k (some r.heap.made) }
      { s with bb, begun := k :: s.begun } := by
  have fresh := building.toKeyed.fresh new
  have unused : ∀ j, r.idxStore j ≠ some r.heap.made := fun j found => Nat.lt_irrefl _ (building.known found)
  have unknown := building.unknown
  have old : ∀ {b}, 0 < r.heap.count b → b ≠ r.heap.made := by
    rintro b pointed rfl
    omega
  have status : ∀ {b}, b ≠ r.heap.made → r.heap.allocate.status b = r.heap.status b := by
    intro b apart
    rw [allocate_status, if_neg apart]
  have here : r.heap.allocate.status r.heap.made = .constructing := by rw [allocate_status, if_pos rfl]
  -- the new entry and the others lead to different objects
  have entries : ∀ {j b}, update r.idxStore k (some r.heap.made) j = some b →
      j = k ∧ b = r.heap.made ∨ j ≠ k ∧ b ≠ r.heap.made ∧ r.idxStore j = some b := by
    intro j b found
    by_cases same : j = k
    · rw [same, update_self] at found
      exact .inl ⟨same, (Option.some.inj found).symm⟩
    · rw [update_of_ne same] at found
      exact .inr ⟨same, (building.known found).ne, found⟩
  have apart : k ∉ outer := fun inside => fresh (building.outer_begun inside)
  refine
    { toUnderway := building.toUnderway.allocate unknown apart
      toKeyed := building.toKeyed.begin taken new behind unused
      made := building.made.trans (Nat.le_succ _)
      pointed := fun {b} pointed => ?_
      kept := fun {b} under owned => ?_
      within := fun {l b} inside points newer => ?_
      entry := fun {j b} found => ?_
      named := fun {j b} inside found => ?_
      few := fun {j b} found => ?_
      value := fun same => (nomatch same) }
  · rw [count_allocate] at pointed
    rw [status (old pointed)]
    exact building.pointed pointed
  · rw [count_allocate]
    by_cases same : b = r.heap.made
    · simp [PtrHeap.allocate, setStatus, PtrHeap.create, same] at owned
    · rw [status same] at under
      rw [allocate_held same] at owned
      exact building.kept under owned
  · have before : l ∈ r.heap.ptrs ∧ r.heap.pointer l = some b := by
      have inside : l ∈ (r.heap.create 0).ptrs := inside
      rw [create_ptrs] at inside
      have old : l ∈ r.heap.ptrs := by simpa [members, PtrHeap.create] using inside
      exact ⟨old, (create_pointer 0 old).symm.trans points⟩
    exact building.within before.1 before.2 newer
  · rcases entries found with ⟨-, rfl⟩ | ⟨-, apart, found⟩
    · exact ⟨building.made, by rw [here]; decide⟩
    · rw [status apart]
      exact building.entry found
  · rw [count_allocate]
    rcases entries found with ⟨rfl, rfl⟩ | ⟨other, -, found⟩
    · have unnamed : j ∉ s.named := fun named => fresh (building.named_begun named)
      simp [unnamed, unknown]
    · exact building.named (List.mem_of_ne_of_mem other inside) found
  · rw [count_allocate]
    rcases entries found with ⟨rfl, rfl⟩ | ⟨other, -, found⟩
    · simp [unknown]
    · have before := building.few found
      simpa [other] using before

variable {p : Nat}

/-- The new list gets its elements. -/
theorem Building.resize (building : Building base outer none r s) (newest : r.heap.made = p + 1)
    (none : r.heap.fields p = 0) (n : Nat) :
    Building base outer .none { r with heap := r.heap.resize p n } s := by
  have counts : ∀ b, (r.heap.resize p n).count b = r.heap.count b := count_resize newest none
  exact
    { building.toUnderway.resize newest none n, building.toKeyed with
      made := building.made
      pointed := fun {b} pointed => building.pointed (counts b ▸ pointed)
      kept := fun {b} under owned => (counts b).symm ▸ building.kept under owned
      within := fun {l b} inside points newer => by
        have member : l ∈ r.heap.ptrs ++ (r.heap.resize p n).members p := resize_ptrs newest none ▸ inside
        rcases List.mem_append.mp member with old | new
        · exact building.within old ((resize_pointer none old).symm.trans points) newer
        · obtain ⟨i, -, rfl⟩ := List.mem_map.mp new
          simp [PtrHeap.resize] at points
      entry := building.entry
      named := fun {j b} inside found => by
        show _ ↔ 0 < (r.heap.resize p n).count b ∨ _
        rw [counts]
        exact building.named inside found
      few := fun {j b} found => by
        show (r.heap.resize p n).count b + _ ≤ _
        rw [counts]
        exact building.few found
      value := building.value }

theorem point_none {h : PtrHeap} {l : PtrLoc} (null : h.pointer l = none) : h.point l none = h := by
  have same : update h.pointer l none = h.pointer := by rw [← null, Function.update_eq_self]
  simp only [PtrHeap.point, setPointer, same]

/-- An assignment to a `Ptr` that is null. -/
theorem assign_of_null {h : PtrHeap} {l : PtrLoc} (null : h.pointer l = none) (t : Option Nat) :
    h.assign l (.value t) = some (h.point l t) := by
  cases t with
  | none => rw [point_none null, PtrHeap.assign, if_pos (by exact null)]
  | some a => simp [PtrHeap.assign, PtrHeap.read, null, PtrHeap.reset, resetWith]

theorem Building.point {i : Nat} (building : Building base outer t r s) (newer : base.made ≤ p)
    (used : r.heap.status p ≠ .freed) (inside : i < r.heap.fields p) (null : r.heap.pointer (.field p i) = none) :
    Building base outer none { r with heap := r.heap.point (.field p i) t } s := by
  cases t with
  | none =>
    rw [point_none null]
    exact building
  | some a =>
    have counted := building.counted
    have member : .field p i ∈ r.heap.ptrs := field_mem_ptrs (counted.known used) inside
    obtain ⟨k, entry⟩ := building.value rfl
    have used' := (building.entry entry).2
    have few := building.few entry
    have countable := building.countable k
    -- each `Ptr` but the first is a reference that the scan has counted
    have most : (if k ∈ outer then 0 else 1) ≤ 1 := by split <;> omega
    have refs := counted.count (building.calm a) fun freed => absurd freed used'
    have counts := count_point (a := a) counted.distinct member null
    have place : ∀ {b j}, r.heap.status b = .freed → .field b j ≠ PtrLoc.field p i := by
      rintro b j freed ⟨⟩
      exact used freed
    rw [if_pos rfl] at few
    have underway := building.toUnderway.point member place null used' (by omega)
    refine
      { underway, building.toKeyed with
        made := building.made
        pointed := fun {b} pointed => ?_
        kept := fun {b} under owned => ?_
        within := fun {l b} member points new => ?_
        entry := building.entry
        named := fun {j b} inside found => ?_
        few := fun {j b} found => ?_
        value := fun same => (nomatch same) }
    · by_cases same : b = a
      · exact same ▸ used'
      · rw [counts, if_neg (Ne.symm same)] at pointed
        exact building.pointed pointed
    · rw [counts]
      by_cases same : b = a
      · simp [same]
      · simp only [PtrHeap.point, update_of_ne same] at owned
        exact Nat.lt_add_right _ (building.kept under owned)
    · by_cases same : l = .field p i
      · exact ⟨p, i, same, newer⟩
      · simp only [PtrHeap.point, setPointer, setRefs, update_of_ne same] at points
        exact building.within member points new
    · rw [building.named inside found, counts]
      by_cases same : a = b
      · simp [same]
      · simp [same]
    · have before := building.few found
      rw [counts]
      simp only [Option.some.injEq, reduceCtorEq, if_false] at before ⊢
      omega

/-- The constructor returns. -/
theorem Building.complete (building : Building base (k :: outer) none r s) (found : r.idxStore k = some p)
    (new : k ∉ outer) :
    Building base outer (some p) { r with heap := r.heap.setStatus p .live } s := by
  have under : r.heap.status p = .constructing := building.opened.mpr ⟨k, by simp, found⟩
  have other : ∀ {b}, b ≠ p → (r.heap.setStatus p .live).status b = r.heap.status b := fun apart =>
    update_of_ne apart _ _
  have here : (r.heap.setStatus p .live).status p = .live := update_self ..
  have distinct : ∀ {j b}, j ∈ outer → r.idxStore j = some b → b ≠ p := by
    rintro j b member entry rfl
    rw [building.injective entry found] at member
    exact new member
  have underway := building.toUnderway.complete found distinct (building.kept under)
  refine
    { underway, building.toKeyed with
      outer_begun := fun member => building.outer_begun (List.mem_cons_of_mem _ member)
      made := building.made
      pointed := fun {b} pointed => ?_
      kept := fun {b} constructing owned => ?_
      within := building.within
      entry := fun {j b} entry => ?_
      named := fun {j b} member entry => ?_
      few := fun {j b} entry => ?_
      value := fun {b} same => ⟨k, same ▸ found⟩ }
  · by_cases same : b = p
    · rw [same, here]
      decide
    · rw [other same]
      exact building.pointed pointed
  · have apart : b ≠ p := by
      rintro rfl
      rw [here] at constructing
      cases constructing
    rw [other apart] at constructing
    exact building.kept constructing owned
  · refine ⟨(building.entry entry).1, ?_⟩
    by_cases same : b = p
    · rw [same, here]
      decide
    · rw [other same]
      exact (building.entry entry).2
  · have apart := distinct member entry
    rw [building.named (List.mem_cons_of_mem _ member) entry]
    simp [Ne.symm apart, count_setStatus]
  · have before := building.few entry
    rw [count_setStatus]
    by_cases same : j = k
    · subst same
      rw [if_pos List.mem_cons_self] at before
      rw [if_neg new]
      simp only [reduceCtorEq, if_false] at before
      split <;> omega
    · have apart : p ≠ b := by
        rintro rfl
        exact same (building.injective entry found)
      simpa [same, apart] using before

end

end Xxlib.Uv4
