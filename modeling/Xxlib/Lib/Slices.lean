import Mathlib.Data.List.Basic

/-! Slices of arrays that share memory: what is appended in place, and which slices see it. -/

set_option autoImplicit false

namespace Xxlib.Lib

/-- A part of an array. Its capacity goes to the end of the array. -/
structure View where
  array : Nat
  offset : Nat
  length : Nat
  deriving DecidableEq

namespace View

section
variable {α : Type}

/-- The whole array. -/
def cells (memory : List (List α)) (v : View) : List α := (memory[v.array]?).getD []

def read (memory : List (List α)) (v : View) : List α := ((v.cells memory).drop v.offset).take v.length

def capacity (memory : List (List α)) (v : View) : Nat := (v.cells memory).length - v.offset

/-- An array of its own, without elements. `fill` is what the room behind them holds. -/
def make (fill : α) (memory : List (List α)) (capacity : Nat) : List (List α) × View :=
  (memory ++ [List.replicate capacity fill], ⟨memory.length, 0, 0⟩)

/-- In place where the capacity suffices, else in an array of its own, with as much room as `grow` says. -/
def append (grow : Nat → Nat → Nat) (fill : α) (memory : List (List α)) (v : View) (xs : List α) : List (List α) × View :=
  if v.length + xs.length ≤ v.capacity memory then
    let behind := (v.cells memory).drop (v.offset + v.length + xs.length)
    (memory.set v.array ((v.cells memory).take (v.offset + v.length) ++ (xs ++ behind)),
      { v with length := v.length + xs.length })
  else
    let all := v.read memory ++ xs
    (memory ++ [all ++ List.replicate (grow (v.capacity memory) all.length - all.length) fill], ⟨memory.length, 0, all.length⟩)

/-- `v[:length]` -/
def cut (v : View) (length : Nat) : View := { v with length := length }

/-- `v[count:]` -/
def skip (v : View) (count : Nat) : View := { v with offset := v.offset + count, length := v.length - count }

/-- The slice is one of an array that is there. -/
structure Within (memory : List (List α)) (v : View) : Prop where
  there : v.array < memory.length
  inside : v.offset + v.length ≤ (v.cells memory).length

variable {memory : List (List α)} {v w : View} {grow : Nat → Nat → Nat} {fill : α} {xs : List α}

theorem Within.length_read (within : Within memory v) : (v.read memory).length = v.length := by
  have inside := within.inside
  rw [read, List.length_take, List.length_drop]
  omega

theorem Within.cut (within : Within memory v) {length : Nat} (less : length ≤ v.length) : Within memory (v.cut length) :=
  ⟨within.there, Nat.le_trans (Nat.add_le_add_left less v.offset) within.inside⟩

theorem Within.skip (within : Within memory v) {count : Nat} (less : count ≤ v.length) : Within memory (v.skip count) := by
  refine ⟨within.there, ?_⟩
  have inside := within.inside
  change v.offset + count + (v.length - count) ≤ (v.cells memory).length
  omega

theorem read_cut {length : Nat} (less : length ≤ v.length) : (v.cut length).read memory = (v.read memory).take length := by
  rw [read, read, List.take_take, Nat.min_eq_left less]
  rfl

theorem read_skip (v : View) (count : Nat) : (v.skip count).read memory = (v.read memory).drop count := by
  rw [read, read, List.drop_take, List.drop_drop]
  rfl

/-- What is written elsewhere leaves the slice as it is. -/
theorem Within.congr (within : Within memory w) {memory' : List (List α)} (same : memory'[w.array]? = memory[w.array]?) :
    Within memory' w ∧ w.read memory' = w.read memory := by
  have cells : w.cells memory' = w.cells memory := by rw [View.cells, View.cells, same]
  refine ⟨⟨?_, cells ▸ within.inside⟩, by rw [read, read, cells]⟩
  have some := List.getElem?_eq_getElem within.there
  exact (List.getElem?_eq_some_iff.mp (same.trans some)).1

theorem Within.make (within : Within memory w) (fill : α) (capacity : Nat) :
    Within (make fill memory capacity).1 w ∧ w.read (View.make fill memory capacity).1 = w.read memory ∧
      w.array < (View.make fill memory capacity).2.array := by
  have same : (memory ++ [List.replicate capacity fill])[w.array]? = memory[w.array]? := List.getElem?_append_left within.there
  exact ⟨(within.congr same).1, (within.congr same).2, within.there⟩

theorem make_within (capacity : Nat) : Within (make fill memory capacity).1 (make fill memory capacity).2 := by
  refine ⟨?_, Nat.zero_le _⟩
  rw [make, List.length_append]
  exact Nat.lt_succ_self _

theorem read_make (capacity : Nat) : (make fill memory capacity).2.read (make fill memory capacity).1 = [] := List.take_zero

/-- The slice that comes back has what was there and what was appended. -/
theorem Within.append (within : Within memory v) (grow : Nat → Nat → Nat) (fill : α) (xs : List α) :
    Within (v.append grow fill memory xs).1 (v.append grow fill memory xs).2 ∧
      (v.append grow fill memory xs).2.read (v.append grow fill memory xs).1 = v.read memory ++ xs := by
  have inside := within.inside
  unfold View.append
  split
  next room =>
    rw [capacity] at room
    have cells (cells : List α) : View.cells (memory.set v.array cells) { v with length := v.length + xs.length } = cells := by
      rw [View.cells, List.getElem?_set_self within.there]
      rfl
    refine ⟨⟨?_, ?_⟩, ?_⟩
    · rw [List.length_set]
      exact within.there
    · dsimp only
      rw [cells, List.length_append, List.length_take, List.length_append, List.length_drop]
      omega
    · dsimp only
      rw [read, cells, read]
      dsimp only
      rw [List.drop_append_of_le_length (by rw [List.length_take]; omega), List.drop_take, Nat.add_sub_cancel_left]
      rw [List.take_append, List.length_take, List.length_drop, Nat.min_eq_left (by omega), Nat.add_sub_cancel_left,
        List.take_left, List.take_take, Nat.min_eq_right (Nat.le_add_right _ _)]
  next full =>
    have cells (cells : List α) (length : Nat) : View.cells (memory ++ [cells]) ⟨memory.length, 0, length⟩ = cells := by
      rw [View.cells, List.getElem?_concat_length]
      rfl
    refine ⟨⟨?_, ?_⟩, ?_⟩
    · rw [List.length_append]
      exact Nat.lt_succ_self _
    · dsimp only
      rw [cells, Nat.zero_add]
      exact (List.prefix_append _ _).length_le
    · dsimp only
      rw [read, cells]
      exact List.take_left

/-- No slice of an earlier array sees what is appended. -/
theorem Within.earlier (within : Within memory w) (earlier : w.array < v.array) (grow : Nat → Nat → Nat) (fill : α) (xs : List α) :
    (Within (v.append grow fill memory xs).1 w ∧ w.read (v.append grow fill memory xs).1 = w.read memory) ∧
      w.array < (v.append grow fill memory xs).2.array := by
  unfold View.append
  split
  · exact ⟨within.congr (List.getElem?_set_ne (Nat.ne_of_gt earlier)), earlier⟩
  · exact ⟨within.congr (List.getElem?_append_left within.there), within.there⟩

end

end View

end Xxlib.Lib
