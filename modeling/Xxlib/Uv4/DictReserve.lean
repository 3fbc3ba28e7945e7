import Xxlib.Uv4.DictRefinement

/-! `Dict::Reserve` as a call of its own.

Its last loop links all slots below `count`, on the assumption that none of them is free. The last
theorem says for which calls that is so.
-/

set_option autoImplicit false

namespace Xxlib.Uv4.Dict

open Lib (Index)

variable {K V : Type}

/-- `Reserve` with an `int`. A negative one is not above the number of buckets. -/
def reserveInt (sizing : Sizing) (isTrivial : Bool) (alloc : Nat → Data K V) (capacity : Int)
    (d : Dict K V) : Dict K V :=
  if capacity < 0 then d else reserve sizing isTrivial alloc capacity.toNat d

/-- The table holds the same map in the same slots, and is in order. -/
structure Preserves (keys : KeyFuncs K) (d d' : Dict K V) : Prop where
  entries : d'.entryAt = d.entryAt
  map : ∀ m, Represents keys d m → Represents keys d' m
  count : d'.getCount = d.getCount
  wellFormed : WellFormed keys d'

/-- Nothing is free, or there is nothing to do. -/
def Reservable (d : Dict K V) (capacity : Int) : Prop :=
  d.freeCount = 0 ∨ capacity < 0 ∨ d.wantedCapacity capacity.toNat ≤ d.bucketsLen

/-! ## Slots that are linked again -/

section
variable {keys : KeyFuncs K} {d d' : Dict K V} {m : List (K × V)} {free : List Nat}

theorem Represents.preserves_self (represents : Represents keys d m) : Preserves keys d d := by
  obtain ⟨free, valid⟩ := represents.valid
  exact ⟨rfl, fun _ represents => represents, rfl, valid.wellFormed⟩

/-- Without free slots, `Reserve` only makes room. -/
theorem Valid.reserve_preserves (valid : Valid keys d []) (sizing : Sizing) (isTrivial : Bool)
    (alloc : Nat → Data K V) {capacity : Nat} (needed : ¬ d.wantedCapacity capacity ≤ d.bucketsLen)
    (larger : d.count < sizing.getPrime (d.wantedCapacity capacity)) :
    Preserves keys d (reserve sizing isTrivial alloc capacity d) := by
  obtain ⟨chains, wired⟩ := valid.wired
  obtain ⟨chains', wired', count, -⟩ := wired.reserved sizing isTrivial alloc needed larger
  have entries := wired'.entryAt_eq
  have valid' := wired'.valid valid.distinct
  refine ⟨entries, fun m represents => ⟨⟨[], valid'⟩, ?_⟩, ?_, valid'.wellFormed⟩
  · rw [toMap, entries, count]
    exact represents.perm
  · rw [getCount, getCount, count, ← valid.free_length, ← valid'.free_length]

/-- A slot that was free is taken for a live one. -/
theorem reserve_unmarks (sizing : Sizing) (isTrivial : Bool) (alloc : Nat → Data K V) {capacity i : Nat}
    (needed : ¬ d.wantedCapacity capacity ≤ d.bucketsLen)
    (larger : d.count < sizing.getPrime (d.wantedCapacity capacity)) (bound : i < d.count) :
    (reserve sizing isTrivial alloc capacity d).Live i := by
  unfold wantedCapacity at needed larger
  simp only [reserve]
  generalize (if capacity = 0 then d.count * 2 else capacity) = wanted at needed larger ⊢
  rw [if_neg needed]
  generalize hw : moveItems isTrivial alloc { d with bucketsLen := sizing.getPrime wanted, buckets := fun _ => -1 } = wide
  have count : wide.count = d.count := by cases isTrivial <;> simp [moveItems, ← hw]
  have size : wide.bucketsLen = sizing.getPrime wanted := by cases isTrivial <;> simp [moveItems, ← hw]
  have empty : ∀ b, wide.buckets b = -1 := by cases isTrivial <;> simp [moveItems, ← hw]
  have links := wide.rebuild_links wide.count
  have unmarked : (wide.links.relink wide.count).prev i ≠ -2 := by
    refine Index.relink_unmarked (x := wide.links) ?_ ?_ ?_ ?_
    · rw [links_bucketsLen, size]
      exact Nat.lt_of_le_of_lt (Nat.zero_le _) larger
    · rw [links_count, links_bucketsLen, count, size]
      exact Nat.le_of_lt larger
    · intro b _
      rw [links_buckets, empty]
      decide
    · rw [links_count, count]
      exact bound
  have length : (rebuild wide.count wide).count = wide.count := by
    have same := congrArg Index.count links
    rwa [Index.relink_count] at same
  rw [← links] at unmarked
  rw [count] at length unmarked
  refine ⟨?_, unmarked⟩
  rw [length]
  exact bound

theorem Preserves.unmarked {i : Nat} (preserves : Preserves keys d d') (vacant : ¬ d.Live i) : ¬ d'.Live i := by
  intro live
  obtain ⟨k, v, content, -⟩ := preserves.wellFormed.constructed i live
  have entry : d'.entryAt i = some (k, v) := by rw [entryAt, if_pos live, content]
  rw [preserves.entries, entryAt, if_neg vacant] at entry
  cases entry

theorem Represents.reserve_preserves (represents : Represents keys d m) (sizing : Sizing) (isTrivial : Bool)
    (alloc : Nat → Data K V) {capacity : Int}
    (larger : d.count < sizing.getPrime (d.wantedCapacity capacity.toNat)) (sound : d.Reservable capacity) :
    Preserves keys d (reserveInt sizing isTrivial alloc capacity d) := by
  obtain ⟨free, valid⟩ := represents.valid
  unfold reserveInt
  split
  · exact represents.preserves_self
  · next positive =>
    by_cases enough : d.wantedCapacity capacity.toNat ≤ d.bucketsLen
    · have same : reserve sizing isTrivial alloc capacity.toNat d = d := if_pos enough
      rw [same]
      exact represents.preserves_self
    · rcases sound with noFree | negative | enough'
      · have none : free = [] := List.length_eq_zero_iff.mp (valid.free_length.trans noFree)
        rw [none] at valid
        exact valid.reserve_preserves sizing isTrivial alloc enough larger
      · exact absurd negative positive
      · exact absurd enough' enough

/-- Otherwise the free slots come back to life, with nothing in them. -/
theorem Represents.reserve_spoils (represents : Represents keys d m) (sizing : Sizing) (isTrivial : Bool)
    (alloc : Nat → Data K V) {capacity : Int}
    (larger : d.count < sizing.getPrime (d.wantedCapacity capacity.toNat)) (unsound : ¬ d.Reservable capacity) :
    ¬ Preserves keys d (reserveInt sizing isTrivial alloc capacity d) := by
  obtain ⟨free, valid⟩ := represents.valid
  simp only [Reservable, not_or] at unsound
  obtain ⟨someFree, positive, needed⟩ := unsound
  obtain ⟨chains, wired⟩ := valid.wired
  intro preserves
  rw [reserveInt, if_neg positive] at preserves
  cases free with
  | nil => exact someFree valid.free_length.symm
  | cons i free =>
    have bound : i < d.count := wired.layout.freeBound i List.mem_cons_self
    have vacant : ¬ d.Live i := fun live => live.2 (wired.layout.freeMarked i List.mem_cons_self)
    exact preserves.unmarked vacant (reserve_unmarks sizing isTrivial alloc needed larger bound)

end

/-- The states of a table on which `Reserve` is called as well, each time where nothing is free or there is nothing to
do. -/
inductive Reaches (setting : Setting K V) : Dict K V → List (K × V) → Prop where
  | reachable {d : Dict K V} {m : List (K × V)} (reachable : Reachable setting d m) : Reaches setting d m
  | step {d d' : Dict K V} {m : List (K × V)} {reply : Reply V} (op : Op K V) (before : Reaches setting d m)
      (allowed : d.Allowed op) (runs : step setting op d = some (reply, d')) :
      Reaches setting d' (mapStep setting d m op)
  | reserve {d : Dict K V} {m : List (K × V)} (alloc : Nat → Data K V) (capacity : Int) (before : Reaches setting d m)
      (larger : d.count < setting.sizing.getPrime (d.wantedCapacity capacity.toNat)) (sound : d.Reservable capacity) :
      Reaches setting (reserveInt setting.sizing setting.isTrivial alloc capacity d) m

section
variable {setting : Setting K V} {d : Dict K V} {m : List (K × V)}

/-- By induction on the run. -/
theorem Reaches.represents (reaches : Reaches setting d m) : Represents setting.keys d m := by
  induction reaches with
  | reachable reachable => exact reachable.represents
  | step op before allowed runs ih =>
    obtain ⟨reply, d', result, simulates⟩ := step_simulates ih _ allowed
    rw [runs] at result
    cases result
    exact simulates.represents
  | reserve alloc capacity before larger sound ih =>
    exact (ih.reserve_preserves setting.sizing setting.isTrivial alloc larger sound).map _ ih

/-- In every state that is reached, `Reserve` leaves the map, its slots and the links in order exactly if nothing is free
or there is nothing to do. -/
theorem reserve_preserves_iff (reaches : Reaches setting d m) (alloc : Nat → Data K V) (capacity : Int)
    (larger : d.count < setting.sizing.getPrime (d.wantedCapacity capacity.toNat)) :
    Preserves setting.keys d (reserveInt setting.sizing setting.isTrivial alloc capacity d) ↔ d.Reservable capacity := by
  have represents := reaches.represents
  constructor
  · intro preserves
    by_contra unsound
    exact represents.reserve_spoils setting.sizing setting.isTrivial alloc larger unsound preserves
  · exact represents.reserve_preserves setting.sizing setting.isTrivial alloc larger

end

/-- A full table of three. -/
theorem full_word : ∃ d : Dict UInt32 UInt32, Reachable Setting.word d [(5, 50), (8, 80), (11, 110)] ∧
    d.count = 3 ∧ d.bucketsLen = 3 ∧ d.freeCount = 0 := by
  have created : Reachable Setting.word (create Setting.word.sizing (fun _ => ⟨0, 0⟩) fun _ => ⟨none, none, 0⟩) [] :=
    .create _ _
  have first := Reachable.step (.add 11 110 false fun _ => ⟨none, none, 0⟩) created trivial rfl
  have second := Reachable.step (.add 8 80 false fun _ => ⟨none, none, 0⟩) first trivial rfl
  have third := Reachable.step (.add 5 50 false fun _ => ⟨none, none, 0⟩) second trivial rfl
  exact ⟨_, third, rfl, rfl, rfl⟩

theorem reserve_preserves_word : ∃ d : Dict UInt32 UInt32, d.count = 3 ∧
    Preserves .word d (reserveInt Setting.word.sizing true (fun _ => ⟨none, none, 0⟩) 10 d) := by
  obtain ⟨d, reachable, count, -, noFree⟩ := full_word
  have larger : d.count < Setting.word.sizing.getPrime (d.wantedCapacity 10) := by
    rw [count]
    change 3 < Setting.word.sizing.getPrime 10
    decide
  exact ⟨d, count, (reserve_preserves_iff (.reachable reachable) (fun _ => ⟨none, none, 0⟩) 10 larger).mpr (.inl noFree)⟩

/-- The same table without one of its entries, which `Reserve` takes for an entry again. -/
theorem reserve_revives : ∃ d : Dict UInt32 UInt32, Reachable Setting.word d [(8, 80), (11, 110)] ∧
    d.count = d.bucketsLen ∧ d.count < Setting.word.sizing.getPrime (d.wantedCapacity 10) ∧
      ¬ Preserves .word d (reserveInt Setting.word.sizing true (fun _ => ⟨none, none, 0⟩) 10 d) := by
  obtain ⟨d, reachable, count, bucketsLen, freeCount⟩ : ∃ d : Dict UInt32 UInt32,
      Reachable Setting.word d [(8, 80), (11, 110)] ∧ d.count = 3 ∧ d.bucketsLen = 3 ∧ d.freeCount = 1 := by
    have created : Reachable Setting.word (create Setting.word.sizing (fun _ => ⟨0, 0⟩) fun _ => ⟨none, none, 0⟩) [] :=
      .create _ _
    have first := Reachable.step (.add 11 110 false fun _ => ⟨none, none, 0⟩) created trivial rfl
    have second := Reachable.step (.add 8 80 false fun _ => ⟨none, none, 0⟩) first trivial rfl
    have third := Reachable.step (.add 5 50 false fun _ => ⟨none, none, 0⟩) second trivial rfl
    have fourth := Reachable.step (.remove 5) third trivial rfl
    exact ⟨_, fourth, rfl, rfl, rfl⟩
  have larger : d.count < Setting.word.sizing.getPrime (d.wantedCapacity 10) := by
    rw [count]
    change 3 < Setting.word.sizing.getPrime 10
    decide
  have unsound : ¬ d.Reservable 10 := by
    rintro (noFree | negative | enough)
    · omega
    · exact absurd negative (by decide)
    · rw [bucketsLen] at enough
      change 10 ≤ 3 at enough
      omega
  exact ⟨d, reachable, count.trans bucketsLen.symm, larger,
    reachable.represents.reserve_spoils Setting.word.sizing true (fun _ => ⟨none, none, 0⟩) larger unsound⟩

end Xxlib.Uv4.Dict
