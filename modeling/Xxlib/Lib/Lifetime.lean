import Mathlib.Data.List.Nodup
import Mathlib.Data.List.Perm.Basic
import Mathlib.Logic.Function.Basic

/-! Elements that are constructed in places of memory and destroyed there.

An element has a number, in the order of construction. What works on an element where there is none, and what constructs
over one, has no result.
-/

set_option autoImplicit false

namespace Xxlib.Lib

inductive LifetimeFault where
  | noElement
  | occupied
  deriving DecidableEq

structure Lifetimes (P : Type) where
  element : P → Option Nat := fun _ => none
  made : Nat := 0
  destroyed : List Nat := []

namespace Lifetimes

variable {P : Type} [DecidableEq P]

def construct (place : P) (l : Lifetimes P) : Except LifetimeFault (Lifetimes P) :=
  match l.element place with
  | some _ => .error .occupied
  | none => .ok { l with element := Function.update l.element place (some l.made), made := l.made + 1 }

def destroy (place : P) (l : Lifetimes P) : Except LifetimeFault (Lifetimes P) :=
  match l.element place with
  | none => .error .noElement
  | some e => .ok { l with element := Function.update l.element place none, destroyed := l.destroyed ++ [e] }

/-- A new element takes over what another one holds, which is then destroyed. -/
def move (source target : P) (l : Lifetimes P) : Except LifetimeFault (Lifetimes P) :=
  match l.element source with
  | none => .error .noElement
  | some _ => (l.construct target).bind (destroy source)

def destroyAll : List P → Lifetimes P → Except LifetimeFault (Lifetimes P)
  | [], l => .ok l
  | place :: places, l => (l.destroy place).bind (destroyAll places)

def moveAll : List (P × P) → Lifetimes P → Except LifetimeFault (Lifetimes P)
  | [], l => .ok l
  | (source, target) :: moves, l => (l.move source target).bind (moveAll moves)

/-- There are elements in `places` and nowhere else, and every element that was made is there or has been destroyed
once. -/
structure Live (l : Lifetimes P) (places : List P) : Prop where
  distinct : places.Nodup
  exactly : ∀ place, l.element place ≠ none ↔ place ∈ places
  ledger : (l.destroyed ++ places.filterMap l.element).Perm (List.range l.made)

omit [DecidableEq P] in
theorem Live.start : Live ({} : Lifetimes P) [] := ⟨.nil, fun _ => by simp, .nil⟩

section
variable {l : Lifetimes P} {place target : P} {places rest : List P}

omit [DecidableEq P] in
theorem Live.perm (live : Live l places) (same : places.Perm rest) : Live l rest := by
  refine ⟨same.nodup_iff.mp live.distinct, fun place => ?_, ?_⟩
  · rw [live.exactly, same.mem_iff]
  · exact ((same.filterMap _).symm.append_left _).trans live.ledger

omit [DecidableEq P] in
theorem Live.found (live : Live l places) (member : place ∈ places) : ∃ e, l.element place = some e :=
  Option.ne_none_iff_exists'.mp ((live.exactly place).mpr member)

/-- What a change of one place leaves of the others. -/
theorem filterMap_update (absent : place ∉ places) (value : Option Nat) :
    places.filterMap (Function.update l.element place value) = places.filterMap l.element := by
  apply List.filterMap_congr
  intro other member
  rw [Function.update_of_ne]
  rintro rfl
  exact absent member

theorem Live.construct (live : Live l places) (free : place ∉ places) :
    ∃ l', l.construct place = .ok l' ∧ Live l' (place :: places) := by
  have empty : l.element place = none := not_not.mp fun some => free ((live.exactly place).mp some)
  unfold Lifetimes.construct
  rw [empty]
  refine ⟨_, rfl, List.nodup_cons.mpr ⟨free, live.distinct⟩, fun other => ?_, ?_⟩
  · rw [List.mem_cons, ← live.exactly]
    by_cases this : other = place
    · simp [this]
    · simp [this]
  · simp only [List.filterMap_cons, Function.update_self, filterMap_update free]
    rw [List.range_succ]
    exact (List.perm_middle.trans (List.Perm.cons _ live.ledger)).trans (List.perm_append_singleton _ _).symm

theorem Live.destroy (live : Live l (place :: rest)) : ∃ l', l.destroy place = .ok l' ∧ Live l' rest := by
  obtain ⟨absent, distinct⟩ := List.nodup_cons.mp live.distinct
  obtain ⟨e, found⟩ := live.found List.mem_cons_self
  unfold Lifetimes.destroy
  rw [found]
  refine ⟨_, rfl, distinct, fun other => ?_, ?_⟩
  · by_cases this : other = place
    · simp [this, absent]
    · simp only [Function.update_of_ne this]
      rw [live.exactly, List.mem_cons]
      simp [this]
  · have ledger := live.ledger
    rw [List.filterMap_cons, found] at ledger
    simp only [filterMap_update absent, List.append_assoc]
    exact ledger

theorem Live.move (live : Live l (place :: rest)) (free : target ∉ place :: rest) :
    ∃ l', l.move place target = .ok l' ∧ Live l' (target :: rest) := by
  obtain ⟨e, found⟩ := live.found List.mem_cons_self
  obtain ⟨l₁, constructs, live₁⟩ := live.construct free
  obtain ⟨l₂, destroys, live₂⟩ := (live₁.perm (List.Perm.swap _ _ _)).destroy
  unfold Lifetimes.move
  rw [found, constructs]
  exact ⟨l₂, destroys, live₂⟩

theorem destroy_none (empty : l.element place = none) : l.destroy place = .error .noElement := by
  unfold Lifetimes.destroy
  rw [empty]

theorem moveAll_none (empty : l.element place = none) (moves : List (P × P)) :
    l.moveAll ((place, target) :: moves) = .error .noElement := by
  unfold Lifetimes.moveAll Lifetimes.move
  rw [empty]
  rfl

/-! ## One after another -/

theorem Live.destroyAll (live : Live l (places ++ rest)) : ∃ l', l.destroyAll places = .ok l' ∧ Live l' rest := by
  induction places generalizing l with
  | nil => exact ⟨l, rfl, live⟩
  | cons place places ih =>
    obtain ⟨l₁, destroys, live₁⟩ := Live.destroy live
    obtain ⟨l₂, others, live₂⟩ := ih live₁
    refine ⟨l₂, ?_, live₂⟩
    unfold Lifetimes.destroyAll
    rw [destroys]
    exact others

theorem Live.moveAll (moves : List (P × P)) (rest : List P) (live : Live l (moves.map Prod.fst ++ rest))
    (distinct : (moves.map Prod.snd).Nodup) (free : ∀ move ∈ moves, move.2 ∉ moves.map Prod.fst ++ rest) :
    ∃ l', l.moveAll moves = .ok l' ∧ Live l' (moves.map Prod.snd ++ rest) := by
  induction moves generalizing l rest with
  | nil => exact ⟨l, rfl, live⟩
  | cons move moves ih =>
    obtain ⟨source, target⟩ := move
    rw [List.map_cons] at distinct
    obtain ⟨apart, distinct⟩ := List.nodup_cons.mp distinct
    obtain ⟨l₁, moves₁, live₁⟩ := Live.move live (free _ List.mem_cons_self)
    -- what has been moved is behind the rest from now on
    obtain ⟨l₂, moves₂, live₂⟩ := ih (target :: rest) (live₁.perm List.perm_middle.symm) distinct (by
      intro move member
      have outside := free move (List.mem_cons_of_mem _ member)
      rw [List.map_cons, List.cons_append, List.mem_cons, List.mem_append, not_or, not_or] at outside
      rw [List.mem_append, List.mem_cons, not_or, not_or]
      refine ⟨outside.2.1, ?_, outside.2.2⟩
      intro same
      exact apart (List.mem_map.mpr ⟨move, member, same⟩))
    refine ⟨l₂, ?_, live₂.perm List.perm_middle⟩
    unfold Lifetimes.moveAll
    rw [moves₁]
    exact moves₂

end

omit [DecidableEq P] in
/-- Where nothing is left, every element has been destroyed once. -/
theorem Live.done {l : Lifetimes P} (live : Live l []) : l.destroyed.Perm (List.range l.made) := by
  simpa using live.ledger

end Lifetimes

end Xxlib.Lib
