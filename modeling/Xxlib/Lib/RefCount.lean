import Mathlib.Data.List.Count
import Mathlib.Data.List.Nodup
import Mathlib.Logic.Function.Basic

/-! How many of a list of locations point to a target. -/

set_option autoImplicit false

namespace Xxlib.Lib

variable {L T : Type} [DecidableEq L] [DecidableEq T]

/-- The number of `locations` whose pointer is `target`. -/
def pointing (locations : List L) (pointer : L → Option T) (target : T) : Nat :=
  locations.countP fun l => pointer l = some target

section
variable {locations : List L} {pointer other : L → Option T} {l : L} {a : T} {value : Option T}

omit [DecidableEq L] in
theorem pointing_pos_iff : 0 < pointing locations pointer a ↔ ∃ l ∈ locations, pointer l = some a := by
  simp [pointing, List.countP_pos_iff]

omit [DecidableEq L] in
theorem pointing_pos (member : l ∈ locations) (points : pointer l = some a) : 0 < pointing locations pointer a :=
  pointing_pos_iff.mpr ⟨l, member, points⟩

omit [DecidableEq L] in
theorem pointing_eq_zero_iff : pointing locations pointer a = 0 ↔ ∀ l ∈ locations, pointer l ≠ some a := by
  simp [pointing, List.countP_eq_zero]

omit [DecidableEq L] in
theorem pointing_append (front back : List L) :
    pointing (front ++ back) pointer a = pointing front pointer a + pointing back pointer a :=
  List.countP_append

omit [DecidableEq L] in
theorem pointing_congr (same : ∀ l ∈ locations, other l = pointer l) :
    pointing locations other a = pointing locations pointer a :=
  List.countP_congr fun l member => by simp [same l member]

omit [DecidableEq L] in
/-- Pointers that are only ever cleared count less. -/
theorem pointing_le (fewer : ∀ l, other l = pointer l ∨ other l = none) :
    pointing locations other a ≤ pointing locations pointer a := by
  refine List.countP_mono_left fun l _ points => ?_
  simp only [decide_eq_true_eq] at points ⊢
  rcases fewer l with same | gone
  · rw [← same, points]
  · rw [gone] at points
    cases points

/-- One pointer changes. -/
theorem pointing_update (distinct : locations.Nodup) (member : l ∈ locations) :
    pointing locations (Function.update pointer l value) a + (if pointer l = some a then 1 else 0) =
      pointing locations pointer a + if value = some a then 1 else 0 := by
  have others : pointing (locations.erase l) (Function.update pointer l value) a =
      pointing (locations.erase l) pointer a := by
    refine pointing_congr fun x inside => Function.update_of_ne ?_ _ _
    rintro rfl
    exact distinct.not_mem_erase inside
  have split : ∀ f : L → Option T,
      pointing locations f a = pointing (locations.erase l) f a + if f l = some a then 1 else 0 := by
    intro f
    unfold pointing
    rw [(List.perm_cons_erase member).countP_eq, List.countP_cons]
    simp
  rw [split (Function.update pointer l value), split pointer, others, Function.update_self]
  omega

omit [DecidableEq L] in
theorem eq_of_pointing_one {k : L} (one : pointing locations pointer a = 1)
    (first : l ∈ locations) (second : k ∈ locations) (left : pointer l = some a) (right : pointer k = some a) :
    l = k := by
  unfold pointing at one
  rw [List.countP_eq_length_filter, List.length_eq_one_iff] at one
  obtain ⟨x, only⟩ := one
  have equal : ∀ y ∈ locations, pointer y = some a → y = x := by
    intro y member points
    have inside : y ∈ locations.filter fun l => pointer l = some a := by simp [member, points]
    rw [only] at inside
    exact List.mem_singleton.mp inside
  rw [equal l first left, equal k second right]

end

end Xxlib.Lib
