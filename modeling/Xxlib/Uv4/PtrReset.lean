import Mathlib.Data.Finset.Card
import Mathlib.Data.Finset.Range
import Xxlib.Uv4.Ptr

/-! What `Reset` of a `Ptr` does to all others (`xx_mempool.hpp`).

The destructor of an object resets its members, and so on through the graph. Behind that the counts are right again,
and exactly those objects are gone which only the first `Ptr` kept alive.
-/

set_option autoImplicit false

namespace Xxlib.Uv4

open Function (update update_self update_of_ne)
open Lib

namespace PtrHeap

/-- The variables, and the members of all objects that were ever created. -/
def ptrs (h : PtrHeap) : List PtrLoc := h.vars.map .var ++ (List.range h.made).flatMap h.members

/-- How many `Ptr` point to the object. -/
def count (h : PtrHeap) (a : Nat) : Nat := pointing h.ptrs h.pointer a

/-- What holds of the counts also while destructors are running. -/
structure Counted (h : PtrHeap) : Prop where
  distinct : h.ptrs.Nodup
  known : ∀ {a}, h.status a ≠ .freed → a < h.made
  count : ∀ {a}, h.status a ≠ .releasing → (h.status a = .freed → h.count a ≠ 0) → h.refs a = h.count a
  small : ∀ a, h.count a < 2 ^ 32
  empty : ∀ {a i}, h.status a = .freed → i < h.fields a → h.pointer (.field a i) = none
  owned : ∀ {a}, h.status a = .live → h.held a = true → 0 < h.count a

/-- The destructors that are called only clear pointers and free objects. -/
structure Shrinks (h h' : PtrHeap) : Prop where
  vars : h'.vars = h.vars
  made : h'.made = h.made
  fields : h'.fields = h.fields
  held : h'.held = h.held
  pointer : ∀ l, h'.pointer l = h.pointer l ∨ h'.pointer l = none
  status : ∀ a, h'.status a = h.status a ∨ h.status a = .live ∧ h'.status a = .freed

/-- A `Ptr` points to an object that must not be released. -/
def Endangered (h : PtrHeap) (a : Nat) : Prop := (h.status a = .constructing ∨ h.status a = .freed) ∧ 0 < h.count a

/-- `h` comes from `start` by what a `Reset` of `first` has done so far. -/
structure Tracks (start : PtrHeap) (first : PtrLoc) (h : PtrHeap) : Prop where
  exists_first : start.Exists first
  known : ∀ {a}, start.status a = .live → a < start.made
  ptrs : h.ptrs = start.ptrs
  pointer : ∀ l, h.pointer l = start.pointer l ∨ h.pointer l = none
  alive : ∀ {a}, h.status a = .live → start.status a = .live
  cleared : ∀ {l}, h.pointer l ≠ start.pointer l →
    l = first ∨ ∃ b i, l = .field b i ∧ start.status b = .live ∧ h.status b ≠ .live
  lost : ∀ {a}, start.status a = .live → h.status a ≠ .live → Lost start first a

/-- The `Ptr` that is reset next. -/
def Due (start : PtrHeap) (first : PtrLoc) (h : PtrHeap) (l : PtrLoc) : Prop :=
  l = first ∨ ∃ b i, l = .field b i ∧ start.status b = .live ∧ h.status b ≠ .live

/-- `h'` is `h` when the `Ptr` in `ls` have been reset. -/
structure Resets (h : PtrHeap) (ls : List PtrLoc) (h' : PtrHeap) : Prop where
  counted : Counted h'
  shrinks : Shrinks h h'
  cleared : ∀ l ∈ ls, h'.pointer l = none
  gone : ∀ {a}, h.status a = .live → h'.status a ≠ .live → h'.count a = 0
  endangered : ∀ {a}, h.Endangered a → h'.Endangered a
  tracks : ∀ {start first}, Tracks start first h → (∀ l ∈ ls, Due start first h l) → Tracks start first h'

section
variable {h h' h'' : PtrHeap} {a b : Nat} {l : PtrLoc} {ls : List PtrLoc}

theorem Shrinks.refl (h : PtrHeap) : Shrinks h h := ⟨rfl, rfl, rfl, rfl, fun _ => .inl rfl, fun _ => .inl rfl⟩

theorem Shrinks.trans (first : Shrinks h h') (second : Shrinks h' h'') : Shrinks h h'' where
  vars := second.vars.trans first.vars
  made := second.made.trans first.made
  fields := second.fields.trans first.fields
  held := second.held.trans first.held
  pointer l := by
    rcases second.pointer l with same | none
    · rw [same]
      exact first.pointer l
    · exact .inr none
  status a := by
    rcases second.status a with same | ⟨alive, freed⟩
    · rw [same]
      exact first.status a
    · rcases first.status a with same | ⟨-, gone⟩
      · exact .inr ⟨same ▸ alive, freed⟩
      · rw [alive] at gone
        cases gone

theorem ptrs_congr (vars : h'.vars = h.vars) (made : h'.made = h.made) (fields : h'.fields = h.fields) :
    h'.ptrs = h.ptrs := by
  unfold ptrs members
  rw [vars, made, fields]

theorem Shrinks.ptrs (shrinks : Shrinks h h') : h'.ptrs = h.ptrs :=
  ptrs_congr shrinks.vars shrinks.made shrinks.fields

theorem Shrinks.count_le (shrinks : Shrinks h h') (a : Nat) : h'.count a ≤ h.count a := by
  unfold count
  rw [shrinks.ptrs]
  exact pointing_le shrinks.pointer

theorem Shrinks.alive (shrinks : Shrinks h h') (alive : h'.status a = .live) : h.status a = .live := by
  rcases shrinks.status a with same | ⟨before, -⟩
  · rw [← same, alive]
  · exact before

theorem Shrinks.dead (shrinks : Shrinks h h') (dead : h.status a ≠ .live) : h'.status a ≠ .live :=
  fun alive => dead (shrinks.alive alive)

theorem Due.later {start : PtrHeap} {first : PtrLoc} (due : Due start first h l) (shrinks : Shrinks h h') :
    Due start first h' l := by
  rcases due with same | ⟨b, i, place, before, dead⟩
  · exact .inl same
  · exact .inr ⟨b, i, place, before, shrinks.dead dead⟩

theorem Resets.nil (counted : Counted h) : Resets h [] h where
  counted := counted
  shrinks := .refl h
  cleared _ member := by simp at member
  gone alive dead := absurd alive dead
  endangered := id
  tracks tracks _ := tracks

theorem Resets.trans (first : Resets h [l] h') (second : Resets h' ls h'') : Resets h (l :: ls) h'' where
  counted := second.counted
  shrinks := first.shrinks.trans second.shrinks
  cleared k member := by
    rcases List.mem_cons.mp member with rfl | rest
    · rcases second.shrinks.pointer k with same | none
      · rw [same]
        exact first.cleared k (by simp)
      · exact none
    · exact second.cleared k rest
  gone {a} alive dead := by
    by_cases before : h'.status a = .live
    · exact second.gone before dead
    · have less := second.shrinks.count_le a
      rw [first.gone alive before] at less
      omega
  endangered := fun danger => second.endangered (first.endangered danger)
  tracks tracks due :=
    second.tracks (first.tracks tracks fun k member => due k (by simp_all)) fun k member =>
      (due k (List.mem_cons_of_mem l member)).later first.shrinks

/-! ## One pointer less -/

theorem mem_ptrs_field {i : Nat} (inside : .field a i ∈ h.ptrs) : a < h.made ∧ i < h.fields a := by
  simp only [ptrs, members, List.mem_append, List.mem_map, reduceCtorEq, and_false, exists_false, List.mem_flatMap,
    List.mem_range, List.mem_reverse, PtrLoc.field.injEq, false_or] at inside
  obtain ⟨b, made, j, field, rfl, rfl⟩ := inside
  exact ⟨made, field⟩

theorem count_setPointer (distinct : h.ptrs.Nodup) (member : l ∈ h.ptrs) (a : Nat) :
    (h.setPointer l none).count a + (if h.pointer l = some a then 1 else 0) = h.count a := by
  have changed : pointing h.ptrs (update h.pointer l none) a + _ = pointing h.ptrs h.pointer a + _ :=
    pointing_update distinct member
  simp only [reduceCtorEq, if_false, Nat.add_zero] at changed
  exact changed

theorem mem_ptrs_of_exists (known : ∀ {a}, h.status a = .live → a < h.made) (there : h.Exists l) : l ∈ h.ptrs := by
  cases l with
  | var v => exact List.mem_append_left _ (List.mem_map.mpr ⟨v, there, rfl⟩)
  | field a i =>
    refine List.mem_append_right _ (List.mem_flatMap.mpr ⟨a, List.mem_range.mpr (known there.1), ?_⟩)
    exact List.mem_map.mpr ⟨i, by simpa using there.2, rfl⟩

theorem Tracks.step {start : PtrHeap} {first : PtrLoc} (tracks : Tracks start first h) (due : Due start first h l)
    (ptrs : h'.ptrs = h.ptrs) (pointer : h'.pointer = update h.pointer l none)
    (status : ∀ {b}, h'.status b = .live → h.status b = .live)
    (lost : ∀ {b}, h.status b = .live → h'.status b ≠ .live → Lost start first b) : Tracks start first h' where
  exists_first := tracks.exists_first
  known := tracks.known
  ptrs := ptrs.trans tracks.ptrs
  pointer k := by
    rw [pointer]
    by_cases same : k = l
    · exact .inr (by rw [same, update_self])
    · rw [update_of_ne same]
      exact tracks.pointer k
  alive now := tracks.alive (status now)
  cleared {k} changed := by
    have later : ∀ {j}, Due start first h j → Due start first h' j := by
      rintro j (same | ⟨b, i, place, before, dead⟩)
      · exact .inl same
      · exact .inr ⟨b, i, place, before, fun now => dead (status now)⟩
    by_cases same : k = l
    · exact later (same ▸ due)
    · rw [pointer, update_of_ne same] at changed
      exact later (tracks.cleared changed)
  lost {b} before dead := by
    by_cases now : h.status b = .live
    · exact lost now dead
    · exact tracks.lost before now

/-- The object stays: it has more `Ptr`, or its destructor is running. -/
theorem Resets.drop {n : Nat} (counted : Counted h) (member : l ∈ h.ptrs) (points : h.pointer l = some a)
    (more : h.status a ≠ .releasing → n + 1 = h.count a ∧ 0 < n) :
    Resets h [l] ((h.setRefs a n).setPointer l none) := by
  have counts : ∀ b, ((h.setRefs a n).setPointer l none).count b + (if a = b then 1 else 0) = h.count b := by
    intro b
    have changed := count_setPointer counted.distinct member b
    simp only [points, Option.some.injEq] at changed
    exact changed
  have other : ∀ {b}, b ≠ a → ((h.setRefs a n).setPointer l none).count b = h.count b := by
    intro b apart
    have changed := counts b
    rwa [if_neg (Ne.symm apart)] at changed
  have here := counts a
  rw [if_pos rfl] at here
  -- what stays of an object that is being released is not counted any more
  refine ⟨⟨counted.distinct, counted.known, ?_, ?_, ?_, ?_⟩, ⟨rfl, rfl, rfl, rfl, ?_, fun _ => .inl rfl⟩, ?_, ?_, ?_,
    ?_⟩
  · intro b running used
    by_cases same : b = a
    · subst same
      have := (more running).1
      simp only [setRefs, setPointer, update_self]
      simp only [setRefs, setPointer] at here
      omega
    · simp only [other same] at used ⊢
      simp only [setRefs, setPointer, update_of_ne same]
      exact counted.count running used
  · intro b
    have := counts b
    have := counted.small b
    omega
  · intro b i freed inside
    by_cases same : .field b i = l
    · simp [setPointer, same]
    · simp only [setPointer, update_of_ne same]
      exact counted.empty freed inside
  · intro b alive owned
    by_cases same : b = a
    · subst same
      have := more (by rw [show h.status b = .live from alive]; decide)
      omega
    · rw [other same]
      exact counted.owned alive owned
  · intro k
    by_cases same : k = l
    · exact .inr (by simp [setPointer, same])
    · exact .inl (by simp [setPointer, setRefs, same])
  · intro k only
    simp [setPointer, List.mem_singleton.mp only]
  · intro b alive dead
    exact absurd alive dead
  · rintro b ⟨kind, pointed⟩
    refine ⟨kind, ?_⟩
    by_cases same : b = a
    · subst same
      have := more (by rcases kind with kind | kind <;> rw [kind] <;> decide)
      omega
    · rw [other same]
      exact pointed
  · intro start first tracks due
    exact tracks.step (due l (by simp)) rfl rfl id fun alive dead => absurd alive dead

/-- The object whose last `Ptr` is reset was kept alive by the first one only. -/
theorem Tracks.lost_last {start : PtrHeap} {first : PtrLoc} (tracks : Tracks start first h)
    (due : Due start first h l) (member : l ∈ h.ptrs) (points : h.pointer l = some a) (one : h.count a = 1) :
    Lost start first a := by
  have before : ∀ {k}, h.pointer k = some a → start.pointer k = some a := by
    intro k now
    rcases tracks.pointer k with same | none
    · rw [← same, now]
    · rw [none] at now
      cases now
  -- whoever pointed to it has been reset, or is reset now
  have others : ∀ {k}, start.Exists k → start.pointer k = some a → Due start first h k := by
    intro k there pointed
    by_cases now : h.pointer k = some a
    · have inside : k ∈ h.ptrs := tracks.ptrs ▸ mem_ptrs_of_exists tracks.known there
      rw [eq_of_pointing_one one inside member now points]
      exact due
    · exact tracks.cleared fun same => now (same.trans pointed)
  have there : start.Exists l := by
    rcases due with same | ⟨b, i, place, alive, -⟩
    · exact same ▸ tracks.exists_first
    · rw [place] at member ⊢
      rw [tracks.ptrs] at member
      exact ⟨alive, (mem_ptrs_field member).2⟩
  refine .intro ⟨l, there, before points⟩ (fun v exist pointed => ?_) fun b i exist pointed apart => ?_
  · rcases others exist pointed with same | ⟨b, i, place, -⟩
    · exact same
    · cases place
  · rcases others exist pointed with same | ⟨c, j, place, alive, dead⟩
    · exact absurd same apart
    · cases place
      exact tracks.lost alive dead

/-- `Release` sets the version number to zero, and the members of the object are reset. -/
theorem Counted.marked {n : Nat} (counted : Counted h) (alive : h.status a = .live) :
    Counted ((h.setRefs a n).setStatus a .releasing) := by
  have status : ∀ {b}, update h.status a Status.releasing b ≠ .releasing → b ≠ a := by
    rintro b running rfl
    simp at running
  refine ⟨counted.distinct, fun {b} used => ?_, fun {b} running used => ?_, counted.small, fun {b i} freed inside => ?_,
    fun {b} live owned => ?_⟩
  · by_cases same : b = a
    · exact counted.known (by rw [same, alive]; decide)
    · simp only [setStatus, setRefs, update_of_ne same] at used
      exact counted.known used
  · have apart := status running
    simp only [setStatus, setRefs, update_of_ne apart] at running used ⊢
    exact counted.count running used
  · have apart : b ≠ a := by
      rintro rfl
      simp [setStatus] at freed
    simp only [setStatus, setRefs, update_of_ne apart] at freed
    exact counted.empty freed inside
  · have apart : b ≠ a := by
      rintro rfl
      simp [setStatus] at live
    simp only [setStatus, setRefs, update_of_ne apart] at live
    exact counted.owned live owned

theorem Tracks.marked {start : PtrHeap} {first : PtrLoc} {n : Nat} (tracks : Tracks start first h)
    (lost : Lost start first a) : Tracks start first ((h.setRefs a n).setStatus a .releasing) := by
  have status : ∀ {b}, ((h.setRefs a n).setStatus a .releasing).status b = .live → h.status b = .live := by
    intro b live
    have apart : b ≠ a := by
      rintro rfl
      simp [setStatus] at live
    simpa only [setStatus, setRefs, update_of_ne apart] using live
  refine ⟨tracks.exists_first, tracks.known, tracks.ptrs, tracks.pointer, fun live => tracks.alive (status live),
    fun changed => ?_, fun {b} before dead => ?_⟩
  · rcases tracks.cleared changed with same | ⟨b, i, place, alive, dead⟩
    · exact .inl same
    · exact .inr ⟨b, i, place, alive, fun live => dead (status live)⟩
  · by_cases same : b = a
    · exact same ▸ lost
    · simp only [setStatus, setRefs, update_of_ne same] at dead
      exact tracks.lost before dead

end

/-! ## The last pointer -/

/-- The object goes with its last `Ptr`. -/
def freedWith (h : PtrHeap) (a : Nat) (l : PtrLoc) : PtrHeap := (h.setStatus a .freed).setPointer l none

section
variable {h h' : PtrHeap} {a n : Nat} {l : PtrLoc} (counted : Counted h) (member : l ∈ h.ptrs)
  (points : h.pointer l = some a) (alive : h.status a = .live) (one : h.count a = 1)
  (members : Resets ((h.setRefs a n).setStatus a .releasing) (h.members a) h')

theorem marked_status {b : Nat} (apart : b ≠ a) :
    ((h.setRefs a n).setStatus a .releasing).status b = h.status b := by
  simp only [setStatus, setRefs, update_of_ne apart]

theorem freedWith_status {b : Nat} (apart : b ≠ a) : (h'.freedWith a l).status b = h'.status b := by
  simp only [freedWith, setStatus, setPointer, update_of_ne apart]

include members in
theorem Resets.releasing : h'.status a = .releasing := by
  rcases members.shrinks.status a with same | ⟨live, -⟩
  · simpa [setStatus] using same
  · simp [setStatus] at live

include counted member points members

theorem Resets.count_other {b : Nat} (apart : b ≠ a) : (h'.freedWith a l).count b = h'.count b := by
  have ptrs : h'.ptrs = h.ptrs := members.shrinks.ptrs
  have changed := count_setPointer (ptrs ▸ counted.distinct) (ptrs ▸ member) b
  have differs : h'.pointer l ≠ some b := by
    rcases members.shrinks.pointer l with same | none
    · rw [same]
      exact fun equal => apart (Option.some.inj (points.symm.trans equal)).symm
    · rw [none]
      simp
  rw [if_neg differs] at changed
  exact changed

include one

omit counted in
theorem Resets.count_self : (h'.freedWith a l).count a = 0 := by
  have ptrs : h'.ptrs = h.ptrs := members.shrinks.ptrs
  refine pointing_eq_zero_iff.mpr fun k inside now => ?_
  have apart : k ≠ l := by
    rintro rfl
    simp [freedWith, setPointer] at now
  simp only [freedWith, setPointer, setStatus, update_of_ne apart] at now
  rcases members.shrinks.pointer k with same | none
  · rw [same] at now
    have inside : k ∈ h.ptrs := ptrs ▸ inside
    exact apart (eq_of_pointing_one one inside member now points)
  · rw [none] at now
    cases now

theorem Resets.counted_freed : Counted (h'.freedWith a l) := by
  have other : ∀ {b}, b ≠ a → (h'.freedWith a l).count b = h'.count b := members.count_other counted member points
  have zero : (h'.freedWith a l).count a = 0 := members.count_self member points one
  have ptrs : h'.ptrs = h.ptrs := members.shrinks.ptrs
  have fields : h'.fields = h.fields := members.shrinks.fields
  refine ⟨show h'.ptrs.Nodup from ptrs ▸ counted.distinct, fun {b} used => ?_, fun {b} running used => ?_, fun b => ?_,
    fun {b i} freed inside => ?_, fun {b} live owned => ?_⟩
  · have apart : b ≠ a := by
      rintro rfl
      simp [freedWith, setStatus, setPointer] at used
    rw [freedWith_status apart] at used
    exact members.counted.known used
  · by_cases same : b = a
    · subst same
      exact absurd zero (used (by simp [freedWith, setStatus, setPointer]))
    · rw [freedWith_status same] at running used
      rw [other same] at used ⊢
      exact members.counted.count running used
  · by_cases same : b = a
    · rw [same, zero]
      decide
    · rw [other same]
      exact members.counted.small b
  · by_cases place : .field b i = l
    · simp [freedWith, setPointer, place]
    · simp only [freedWith, setPointer, update_of_ne place]
      by_cases same : b = a
      · subst same
        have inside : i < h.fields b := fields ▸ inside
        exact members.cleared _ (List.mem_map.mpr ⟨i, by simpa using inside, rfl⟩)
      · rw [freedWith_status same] at freed
        exact members.counted.empty freed inside
  · have apart : b ≠ a := by
      rintro rfl
      simp [freedWith, setStatus, setPointer] at live
    rw [other apart]
    rw [freedWith_status apart] at live
    exact members.counted.owned live owned

include alive

theorem Resets.released : Resets h [l] (h'.freedWith a l) := by
  have other : ∀ {b}, b ≠ a → (h'.freedWith a l).count b = h'.count b := members.count_other counted member points
  have shrinks := members.shrinks
  refine ⟨members.counted_freed counted member points one,
    ⟨shrinks.vars, shrinks.made, shrinks.fields, shrinks.held, fun k => ?_, fun b => ?_⟩, fun k only => ?_,
    fun {b} live dead => ?_, fun {b} danger => ?_, fun {start first} tracks due => ?_⟩
  · by_cases same : k = l
    · exact .inr (by simp [freedWith, setPointer, same])
    · simp only [freedWith, setPointer, setStatus, update_of_ne same]
      exact shrinks.pointer k
  · by_cases same : b = a
    · exact .inr ⟨same ▸ alive, by simp [freedWith, setPointer, setStatus, same]⟩
    · rw [freedWith_status same]
      have status := shrinks.status b
      rwa [marked_status same] at status
  · simp [freedWith, setPointer, List.mem_singleton.mp only]
  · by_cases same : b = a
    · rw [same]
      exact members.count_self member points one
    · rw [freedWith_status same] at dead
      rw [other same]
      exact members.gone ((marked_status same).trans live) dead
  · have apart : b ≠ a := by
      rintro rfl
      rcases danger.1 with kind | kind <;> rw [alive] at kind <;> cases kind
    have marked : ((h.setRefs a n).setStatus a .releasing).Endangered b := by
      unfold Endangered
      rw [marked_status apart]
      exact danger
    have later := members.endangered marked
    unfold Endangered at later ⊢
    rwa [freedWith_status apart, other apart]
  · have due := due l (by simp)
    have lost := tracks.lost_last due member points one
    have inner := members.tracks (tracks.marked (n := n) lost) fun k inside => by
      obtain ⟨i, -, rfl⟩ := List.mem_map.mp inside
      exact .inr ⟨a, i, rfl, tracks.alive alive, by simp [setStatus]⟩
    have due' : Due start first h' l := by
      rcases due with same | ⟨b, i, place, before, dead⟩
      · exact .inl same
      · have apart : b ≠ a := fun same => dead (same ▸ alive)
        exact .inr ⟨b, i, place, before, shrinks.dead (by rwa [marked_status apart])⟩
    refine inner.step due' rfl rfl (fun {b} live => ?_) fun {b} live dead => ?_
    · have apart : b ≠ a := by
        rintro rfl
        simp [freedWith, setPointer, setStatus] at live
      rwa [freedWith_status apart] at live
    · by_cases same : b = a
      · rw [same, members.releasing] at live
        cases live
      · rw [freedWith_status same] at dead
        exact absurd live dead

end

/-! ## All of them -/

/-- The number of objects whose destructor has not been called. -/
def living (h : PtrHeap) : Nat := ((Finset.range h.made).filter fun a => h.status a = .live).card

/-- `Reset` comes to an end, or meets an object that must not be released. -/
def Settles (fuel : Nat) : Prop :=
  ∀ {h : PtrHeap} {l : PtrLoc}, Counted h → l ∈ h.ptrs → h.living ≤ fuel →
    resetWith (release fuel) l h = none ∧ (∃ a, h.Endangered a) ∨
      ∃ h', resetWith (release fuel) l h = some h' ∧ Resets h [l] h'

section
variable {h h' : PtrHeap} {a n fuel : Nat} {l : PtrLoc}

theorem Shrinks.living_le (shrinks : Shrinks h h') : h'.living ≤ h.living := by
  unfold living
  rw [shrinks.made]
  exact Finset.card_le_card (Finset.monotone_filter_right _ fun b _ live => shrinks.alive live)

theorem living_marked {n : Nat} (counted : Counted h) (alive : h.status a = .live) :
    ((h.setRefs a n).setStatus a .releasing).living < h.living := by
  refine Finset.card_lt_card ⟨fun b inside => ?_, fun subset => ?_⟩
  · simp only [Finset.mem_filter] at inside ⊢
    by_cases same : b = a
    · exact ⟨inside.1, same ▸ alive⟩
    · exact ⟨inside.1, by rw [← marked_status same]; exact inside.2⟩
  · have here := subset (Finset.mem_filter.mpr ⟨Finset.mem_range.mpr (counted.known (by rw [alive]; decide)), alive⟩)
    have live := (Finset.mem_filter.mp here).2
    simp [setStatus] at live

theorem Resets.endangered_before {ls : List PtrLoc} (resets : Resets h ls h') (danger : h'.Endangered a) :
    h.Endangered a := by
  have less := resets.shrinks.count_le a
  have pointed := danger.2
  refine ⟨?_, by omega⟩
  rcases resets.shrinks.status a with same | ⟨alive, freed⟩
  · rw [← same]
    exact danger.1
  · have zero := resets.gone alive (by rw [freed]; decide)
    omega

theorem Resets.null (counted : Counted h) (null : h.pointer l = none) : Resets h [l] h :=
  { Resets.nil counted with
    cleared k only := by rw [List.mem_singleton.mp only, null]
    tracks tracks _ := tracks }

theorem Settles.all (settles : Settles fuel) (ls : List PtrLoc) (counted : Counted h)
    (inside : ∀ l ∈ ls, l ∈ h.ptrs) (enough : h.living ≤ fuel) :
    resetAll (release fuel) ls h = none ∧ (∃ a, h.Endangered a) ∨
      ∃ h', resetAll (release fuel) ls h = some h' ∧ Resets h ls h' := by
  induction ls generalizing h with
  | nil => exact .inr ⟨h, rfl, .nil counted⟩
  | cons l ls ih =>
    unfold resetAll
    rcases settles counted (inside l (by simp)) enough with ⟨fails, danger⟩ | ⟨h₁, first, resets₁⟩
    · exact .inl ⟨by rw [fails]; rfl, danger⟩
    · have inside' : ∀ k ∈ ls, k ∈ h₁.ptrs := by
        intro k member
        rw [resets₁.shrinks.ptrs]
        exact inside k (List.mem_cons_of_mem l member)
      rw [first, Option.bind_some]
      rcases ih resets₁.counted inside' (resets₁.shrinks.living_le.trans enough) with
        ⟨fails, b, danger⟩ | ⟨h₂, others, resets₂⟩
      · exact .inl ⟨fails, b, resets₁.endangered_before danger⟩
      · exact .inr ⟨h₂, others, resets₁.trans resets₂⟩

theorem release_releasing (fuel : Nat) (running : h.status a = .releasing) : release fuel a h = some h := by
  cases fuel with
  | zero => simp [release, running]
  | succ fuel => simp [release, running]

theorem release_unreleasable (fuel : Nat) (kind : h.status a = .constructing ∨ h.status a = .freed) :
    release fuel a h = none := by
  cases fuel with
  | zero => rcases kind with kind | kind <;> simp [release, kind]
  | succ fuel => rcases kind with kind | kind <;> simp [release, kind]

/-- A `Ptr` that points to something: the count goes down, and at zero the object is released. -/
theorem resetWith_some (release : Nat → PtrHeap → Option PtrHeap) (points : h.pointer l = some a)
    (refs : h.refs a = n + 1) (small : n + 1 < 2 ^ 32) : resetWith release l h =
      (if n = 0 then release a (h.setRefs a n) else some (h.setRefs a n)).map (·.setPointer l none) := by
  have less : (h.refs a + (2 ^ 32 - 1)) % 2 ^ 32 = n := by omega
  unfold resetWith
  simp only [points, less, setRefs, update_self]

/-- The cases in which no destructor is called. -/
theorem settles_shared (fuel : Nat) (counted : Counted h) (member : l ∈ h.ptrs) (points : h.pointer l = some a)
    (shared : h.status a ≠ .live ∨ h.count a ≠ 1) :
    resetWith (release fuel) l h = none ∧ (∃ a, h.Endangered a) ∨
      ∃ h', resetWith (release fuel) l h = some h' ∧ Resets h [l] h' := by
  have pointed : 0 < h.count a := pointing_pos member points
  by_cases running : h.status a = .releasing
  · refine .inr ⟨(h.setRefs a ((h.refs a + (2 ^ 32 - 1)) % 2 ^ 32)).setPointer l none, ?_,
      .drop counted member points fun other => absurd running other⟩
    unfold resetWith
    simp only [points]
    rw [release_releasing fuel (by exact running), ite_self]
    rfl
  · have refs := counted.count running fun _ => by omega
    obtain ⟨m, counts⟩ : ∃ m, h.count a = m + 1 := ⟨h.count a - 1, by omega⟩
    have small := counted.small a
    rw [resetWith_some (release fuel) points (refs.trans counts) (by omega)]
    by_cases last : m = 0
    -- the count drops to zero, and the object is not one that may be released
    · have kind : h.status a = .constructing ∨ h.status a = .freed := by
        cases status : h.status a with
        | constructing => exact .inl rfl
        | freed => exact .inr rfl
        | live => simp [status, counts, last] at shared
        | releasing => exact absurd status running
      rw [if_pos last, release_unreleasable fuel (by exact kind)]
      exact .inl ⟨rfl, a, kind, pointed⟩
    · rw [if_neg last]
      exact .inr ⟨_, rfl, .drop counted member points fun _ => ⟨counts.symm, by omega⟩⟩

/-- By induction on the objects that live: a destructor is called for one of them, and there is one less. -/
theorem settles (fuel : Nat) : Settles fuel := by
  induction fuel with
  | zero =>
    intro h l counted member enough
    cases points : h.pointer l with
    | none => exact .inr ⟨h, by simp [resetWith, points], .null counted points⟩
    | some a =>
      refine settles_shared 0 counted member points (.inl fun alive => ?_)
      have fewer : _ < h.living := living_marked (n := 0) counted alive
      omega
  | succ fuel ih =>
    intro h l counted member enough
    cases points : h.pointer l with
    | none => exact .inr ⟨h, by simp [resetWith, points], .null counted points⟩
    | some a =>
      -- only here a destructor is called, and its fuel is one less
      by_cases last : h.status a = .live ∧ h.count a = 1
      · obtain ⟨alive, one⟩ := last
        have refs := counted.count (by rw [alive]; decide) fun _ => by omega
        have inside : ∀ k ∈ h.members a, k ∈ h.ptrs := by
          intro k field
          refine List.mem_append_right _ (List.mem_flatMap.mpr ⟨a, ?_, field⟩)
          exact List.mem_range.mpr (counted.known (by rw [alive]; decide))
        have fewer : _ < h.living := living_marked (n := 0) counted alive
        have unfolds : release (fuel + 1) a (h.setRefs a 0) =
            (resetAll (release fuel) (h.members a) ((h.setRefs a 0).setStatus a .releasing)).map
              (·.setStatus a .freed) := by
          have status : (h.setRefs a 0).status a = .live := alive
          rw [release]
          simp only [status]
          rfl
        rw [resetWith_some (release (fuel + 1)) points (refs.trans one) (by decide), if_pos rfl, unfolds]
        rcases ih.all (h.members a) (counted.marked (n := 0) alive) inside (by omega) with
          ⟨fails, b, danger⟩ | ⟨h', cleared, resets⟩
        · refine .inl ⟨by rw [fails]; rfl, b, ?_⟩
          have apart : b ≠ a := by
            rintro rfl
            rcases danger.1 with kind | kind <;> simp [setStatus] at kind
          refine ⟨?_, danger.2⟩
          rw [← marked_status (n := 0) apart]
          exact danger.1
        · rw [cleared]
          exact .inr ⟨_, rfl, resets.released counted member points alive one⟩
      · exact settles_shared (fuel + 1) counted member points (Classical.not_and_iff_not_or_not.mp last)

/-- `Reset` of any `Ptr`. -/
theorem reset_spec (counted : Counted h) (member : l ∈ h.ptrs) :
    h.reset l = none ∧ (∃ a, h.Endangered a) ∨ ∃ h', h.reset l = some h' ∧ Resets h [l] h' := by
  refine settles h.made counted member ?_
  exact (Finset.card_le_card (Finset.filter_subset _ _)).trans (Finset.card_range h.made).le

end

end PtrHeap

end Xxlib.Uv4
