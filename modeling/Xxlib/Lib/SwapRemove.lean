import Mathlib.Data.List.Basic
import Mathlib.Data.List.Nodup
import Mathlib.Logic.Function.Basic
import Xxlib.Lib.Growing

/-! Removing an element of an array by moving the last one into its place, where each element knows its place. -/

set_option autoImplicit false

namespace Xxlib.Lib

variable {α : Type}

/-- The last element takes the place `idx`, and the array gets shorter by one. -/
def swapRemove (xs : List α) (idx : Nat) : List α :=
  match xs[xs.length - 1]? with
  | some last => (xs.set idx last).take (xs.length - 1)
  | none => xs

variable {xs : List α} {idx : Nat}

theorem swapRemove_getElem? (inside : idx < xs.length) (i : Nat) :
    (swapRemove xs idx)[i]? = if i + 1 < xs.length then if i = idx then xs[xs.length - 1]? else xs[i]? else none := by
  obtain ⟨last, found⟩ : ∃ last, xs[xs.length - 1]? = some last := ⟨_, List.getElem?_eq_getElem (by omega)⟩
  unfold swapRemove
  rw [found]
  simp only [List.getElem?_take, List.getElem?_set]
  by_cases kept : i + 1 < xs.length
  · rw [if_pos (by omega), if_pos kept]
    by_cases place : i = idx
    · rw [if_pos place.symm, if_pos inside, if_pos place]
    · rw [if_neg (Ne.symm place), if_neg place]
  · rw [if_neg (by omega), if_neg kept]

/-- What lies before the place stays. -/
theorem swapRemove_take (inside : idx < xs.length) {n : Nat} (before : n ≤ idx) :
    (swapRemove xs idx).take n = xs.take n := by
  apply List.ext_getElem?
  intro i
  rw [List.getElem?_take, List.getElem?_take]
  by_cases early : i < n
  · rw [if_pos early, if_pos early, swapRemove_getElem? inside, if_pos (by omega), if_neg (by omega)]
  · rw [if_neg early, if_neg early]

theorem mem_swapRemove_iff (inside : idx < xs.length) {x : α} :
    x ∈ swapRemove xs idx ↔ ∃ i, i ≠ idx ∧ xs[i]? = some x := by
  rw [List.mem_iff_getElem?]
  constructor
  · rintro ⟨i, found⟩
    rw [swapRemove_getElem? inside] at found
    by_cases kept : i + 1 < xs.length
    · rw [if_pos kept] at found
      by_cases place : i = idx
      · rw [if_pos place] at found
        exact ⟨xs.length - 1, by omega, found⟩
      · rw [if_neg place] at found
        exact ⟨i, place, found⟩
    · rw [if_neg kept] at found
      cases found
  · rintro ⟨i, other, found⟩
    obtain ⟨bound, -⟩ := List.getElem?_eq_some_iff.mp found
    by_cases last : i + 1 = xs.length
    · refine ⟨idx, ?_⟩
      rw [swapRemove_getElem? inside, if_pos (by omega), if_pos rfl, ← found]
      congr 1
      omega
    · refine ⟨i, ?_⟩
      rw [swapRemove_getElem? inside, if_pos (by omega), if_neg other, found]

/-- The last element is just taken away. -/
theorem eraseIdx_last (last : idx + 1 = xs.length) : xs.eraseIdx idx = swapRemove xs idx := by
  apply List.ext_getElem?
  intro i
  rw [swapRemove_getElem? (by omega), List.getElem?_eraseIdx]
  by_cases before : i < idx
  · rw [if_pos before, if_pos (by omega), if_neg (by omega)]
  · rw [if_neg before, if_neg (by omega), List.getElem?_eq_none (by omega)]

/-- What lies behind the place stays, in another order. -/
theorem swapRemove_append (front : List α) (x : α) (back : List α) :
    ∃ rest, swapRemove (front ++ x :: back) front.length = front ++ rest ∧ rest.Perm back := by
  rcases List.eq_nil_or_concat' back with rfl | ⟨init, last, rfl⟩
  · refine ⟨[], ?_, .refl _⟩
    simp [swapRemove]
  · refine ⟨last :: init, ?_, (List.perm_append_singleton last init).symm⟩
    have length : (front ++ x :: (init ++ [last])).length - 1 = front.length + (init.length + 1) := by simp
    have found : (front ++ x :: (init ++ [last]))[front.length + (init.length + 1)]? = some last := by simp
    have placed : (front ++ x :: (init ++ [last])).set front.length last = (front ++ last :: init) ++ [last] := by simp
    rw [swapRemove, length, found]
    dsimp only
    rw [placed, List.take_left' (by rw [List.length_append, List.length_cons])]

/-! ## Elements that know their places -/

def Indexed (xs : List α) (index : α → Nat) : Prop := ∀ i x, xs[i]? = some x → index x = i

section
variable {index : α → Nat} {x last : α}

theorem Indexed.nodup (indexed : Indexed xs index) : xs.Nodup := by
  rw [List.nodup_iff_getElem?_ne_getElem?]
  intro i j less bound same
  obtain ⟨y, found⟩ : ∃ y, xs[j]? = some y := ⟨_, List.getElem?_eq_getElem bound⟩
  have first := indexed i y (same.trans found)
  have second := indexed j y found
  omega

theorem Indexed.congr {index' : α → Nat} (indexed : Indexed xs index) (same : ∀ y ∈ xs, index' y = index y) :
    Indexed xs index' := fun i y found => (same y (List.mem_of_getElem? found)).trans (indexed i y found)

/-- A new element comes at the end. -/
theorem Indexed.concat [DecidableEq α] (indexed : Indexed xs index) (new : x ∉ xs) :
    Indexed (xs ++ [x]) (Function.update index x xs.length) := by
  intro i y found
  rcases getElem?_concat_cases found with old | ⟨rfl, rfl⟩
  · rw [Function.update_of_ne, indexed i y old]
    rintro rfl
    exact new (List.mem_of_getElem? old)
  · exact Function.update_self _ _ _

/-- The last element gets the place of the one that is removed. -/
theorem Indexed.swapRemove [DecidableEq α] (indexed : Indexed xs index) (inside : idx < xs.length)
    (end' : xs[xs.length - 1]? = some last) : Indexed (Lib.swapRemove xs idx) (Function.update index last idx) := by
  intro i y found
  rw [swapRemove_getElem? inside] at found
  split at found
  next kept =>
    split at found
    next here =>
      rw [end'] at found
      cases found
      rw [Function.update_self, here]
    next =>
      have place := indexed i y found
      have was := indexed _ last end'
      rw [Function.update_of_ne (by rintro rfl; omega), place]
  next => cases found

/-- Only the element at the place is gone. -/
theorem Indexed.mem_swapRemove (indexed : Indexed xs index) (found : xs[idx]? = some x) {y : α} :
    y ∈ Lib.swapRemove xs idx ↔ y ∈ xs ∧ y ≠ x := by
  rw [mem_swapRemove_iff (List.getElem?_eq_some_iff.mp found).1]
  constructor
  · rintro ⟨i, other, here⟩
    refine ⟨List.mem_of_getElem? here, ?_⟩
    rintro rfl
    exact other ((indexed i y here).symm.trans (indexed idx y found))
  · rintro ⟨member, other⟩
    obtain ⟨i, here⟩ := List.mem_iff_getElem?.mp member
    refine ⟨i, ?_, here⟩
    rintro rfl
    exact other (Option.some.inj (here.symm.trans found))

end

end Xxlib.Lib
