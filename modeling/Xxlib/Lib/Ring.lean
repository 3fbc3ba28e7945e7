import Mathlib.Logic.Function.Basic
import Mathlib.Data.List.Basic

/-! A sequence in an array that is used as a ring.

The array is a total function of its index; a ring uses the part below `cap`. An index
that runs past the end goes on at the beginning, once.
-/

set_option autoImplicit false

namespace Xxlib.Lib.Ring

variable {α : Type}

/-- The place of the element number `i` behind `head`. -/
def slot (cap head i : Nat) : Nat := if head + i < cap then head + i else head + i - cap

/-- The first `count` elements behind `head`. -/
def contents (buf : Nat → α) (cap head count : Nat) : List α :=
  (List.range count).map fun i => buf (slot cap head i)

section
variable {cap head i j : Nat}

theorem slot_lt (inside : head < cap) (room : i ≤ cap) : slot cap head i < cap := by
  unfold slot
  split <;> omega

theorem slot_zero (inside : head < cap) : slot cap head 0 = head := if_pos inside

theorem slot_inj (first : i < cap) (second : j < cap) (same : slot cap head i = slot cap head j) : i = j := by
  unfold slot at same
  split at same <;> split at same <;> omega

theorem slot_slot (inside : head < cap) (room : i + j ≤ cap) :
    slot cap (slot cap head i) j = slot cap head (i + j) := by
  unfold slot
  split <;> split <;> split <;> omega

/-- The number of elements between `head` and the place behind the last one. -/
theorem slot_distance (inside : head < cap) (room : i < cap) :
    (if head ≤ slot cap head i then slot cap head i - head else slot cap head i + (cap - head)) = i := by
  unfold slot
  split <;> split <;> omega

end

section
variable {buf : Nat → α} {cap head count : Nat}

@[simp] theorem contents_length (buf : Nat → α) (cap head count : Nat) :
    (contents buf cap head count).length = count := by
  simp [contents]

theorem contents_getElem? {i : Nat} (inside : i < count) :
    (contents buf cap head count)[i]? = some (buf (slot cap head i)) := by
  simp [contents, inside]

theorem contents_congr {buf' : Nat → α} {cap' head' : Nat}
    (same : ∀ i < count, buf' (slot cap' head' i) = buf (slot cap head i)) :
    contents buf' cap' head' count = contents buf cap head count := by
  apply List.map_congr_left
  intro i member
  exact same i (List.mem_range.mp member)

/-- An element is put behind the last one. -/
theorem contents_push (room : count < cap) (value : α) :
    contents (Function.update buf (slot cap head count) value) cap head (count + 1) =
      contents buf cap head count ++ [value] := by
  unfold contents
  rw [List.range_succ, List.map_append, List.map_singleton, Function.update_self]
  congr 1
  apply List.map_congr_left
  intro i member
  have before := List.mem_range.mp member
  apply Function.update_of_ne
  intro same
  have := slot_inj (by omega) room same
  omega

theorem contents_take {n : Nat} (less : n ≤ count) :
    (contents buf cap head count).take n = contents buf cap head n := by
  unfold contents
  rw [← List.map_take, List.take_range, Nat.min_eq_left less]

/-- Some elements are taken from the front. -/
theorem contents_drop {n : Nat} (inside : head < cap) (room : count ≤ cap) (less : n ≤ count) :
    contents buf cap (slot cap head n) (count - n) = (contents buf cap head count).drop n := by
  apply List.ext_getElem?
  intro i
  rw [List.getElem?_drop]
  by_cases before : i < count - n
  · rw [contents_getElem? before, contents_getElem? (by omega), slot_slot inside (by omega)]
  · rw [List.getElem?_eq_none (by simp; omega), List.getElem?_eq_none (by simp; omega)]

end

end Xxlib.Lib.Ring
