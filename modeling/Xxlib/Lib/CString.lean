import Mathlib.Logic.Function.Basic
import Mathlib.Data.List.GetD

/-! Bytes in memory, strings that end with a zero, and cutting a list at its first separator. -/

set_option autoImplicit false

namespace Xxlib.Lib

/-! ## Cutting -/

section
variable {α : Type} [DecidableEq α] {c : α} {front rest x : List α}

/-- What stands before the first `c`, and what stands behind it. -/
def cut (c : α) : List α → List α × Option (List α)
  | [] => ([], none)
  | b :: x => if b = c then ([], some x) else (b :: (cut c x).1, (cut c x).2)

theorem cut_found (absent : c ∉ front) : cut c (front ++ c :: rest) = (front, some rest) := by
  induction front with
  | nil => simp [cut]
  | cons b front ih =>
    rw [List.mem_cons, not_or] at absent
    rw [List.cons_append, cut, if_neg (Ne.symm absent.1), ih absent.2]

theorem cut_absent (absent : c ∉ x) : cut c x = (x, none) := by
  induction x with
  | nil => rfl
  | cons b x ih =>
    rw [List.mem_cons, not_or] at absent
    rw [cut, if_neg (Ne.symm absent.1), ih absent.2]

theorem cut_eq_some (found : cut c x = (front, some rest)) : x = front ++ c :: rest ∧ c ∉ front := by
  by_cases member : c ∈ x
  · obtain ⟨a, b, rfl, absent⟩ := List.eq_append_cons_of_mem member
    rw [cut_found absent] at found
    cases found
    exact ⟨rfl, absent⟩
  · rw [cut_absent member] at found
    cases found

theorem cut_length (c : α) (x : List α) : (cut c x).1.length + ((cut c x).2.elim 0 fun rest => rest.length + 1) = x.length := by
  by_cases member : c ∈ x
  · obtain ⟨a, b, rfl, absent⟩ := List.eq_append_cons_of_mem member
    rw [cut_found absent, List.length_append]
    rfl
  · rw [cut_absent member]
    rfl

theorem not_mem_cut (c : α) (x : List α) : c ∉ (cut c x).1 := by
  by_cases member : c ∈ x
  · obtain ⟨a, b, rfl, absent⟩ := List.eq_append_cons_of_mem member
    rwa [cut_found absent]
  · rwa [cut_absent member]

theorem cut_append_of_mem (member : c ∈ front) (rest : List α) : (cut c (front ++ rest)).1 = (cut c front).1 := by
  obtain ⟨a, b, rfl, absent⟩ := List.eq_append_cons_of_mem member
  rw [List.append_assoc, List.cons_append, cut_found absent, cut_found absent]

theorem cut_append_of_not_mem (absent : c ∉ front) (rest : List α) :
    cut c (front ++ rest) = (front ++ (cut c rest).1, (cut c rest).2) := by
  induction front with
  | nil => rfl
  | cons b front ih =>
    rw [List.mem_cons, not_or] at absent
    rw [List.cons_append, cut, if_neg (Ne.symm absent.1), ih absent.2, List.cons_append]

theorem not_mem_of_mem_splitOn {segment : List α} (member : segment ∈ x.splitOn c) : c ∉ segment := by
  induction length : x.length using Nat.strongRecOn generalizing x with
  | ind n ih =>
    by_cases more : c ∈ x
    · obtain ⟨a, b, rfl, absent⟩ := List.eq_append_cons_of_mem more
      rw [List.splitOn_append_cons_self_of_not_mem absent] at member
      rw [List.length_append, List.length_cons] at length
      rcases List.mem_cons.mp member with rfl | later
      · exact absent
      · exact ih b.length (by omega) later rfl
    · rw [List.splitOn_eq_singleton more] at member
      exact List.mem_singleton.mp member ▸ more

end

/-! ## Memory -/

/-- The bytes of `x` stand in memory from `s` on. -/
def Stored (buf : Nat → UInt8) : Nat → List UInt8 → Prop
  | _, [] => True
  | s, b :: x => buf s = b ∧ Stored buf (s + 1) x

/-- A string and its zero stand in memory from `s` on. -/
structure CString (buf : Nat → UInt8) (s : Nat) (x : List UInt8) : Prop where
  stored : Stored buf s x
  solid : 0 ∉ x
  zero : buf (s + x.length) = 0

/-- The memory of a string, and what happens to be behind it. -/
def memory (x : List UInt8) (behind : Nat → UInt8) (i : Nat) : UInt8 := x.getD i (behind i)

section
variable {buf : Nat → UInt8} {s p : Nat} {x y : List UInt8} {c : UInt8}

theorem stored_append : Stored buf s (x ++ y) ↔ Stored buf s x ∧ Stored buf (s + x.length) y := by
  induction x generalizing s with
  | nil => simp [Stored]
  | cons b x ih =>
    rw [List.cons_append, Stored, Stored, ih, and_assoc, List.length_cons, Nat.add_assoc, Nat.add_comm 1]

theorem Stored.update (stored : Stored buf s x) (out : p < s ∨ s + x.length ≤ p) (v : UInt8) :
    Stored (Function.update buf p v) s x := by
  induction x generalizing s with
  | nil => trivial
  | cons b x ih =>
    rw [List.length_cons] at out
    refine ⟨?_, ih stored.2 (by omega)⟩
    rw [Function.update_of_ne (by omega)]
    exact stored.1

theorem stored_of_getElem (stored : ∀ i (inside : i < x.length), buf (s + i) = x[i]) : Stored buf s x := by
  induction x generalizing s with
  | nil => trivial
  | cons b x ih =>
    refine ⟨stored 0 (Nat.zero_lt_succ _), ih fun i inside => ?_⟩
    rw [Nat.add_assoc, Nat.add_comm 1]
    exact stored (i + 1) (Nat.succ_lt_succ inside)

theorem Stored.getElem (stored : Stored buf s x) (i : Nat) (inside : i < x.length) : buf (s + i) = x[i] := by
  induction x generalizing s i with
  | nil => cases inside
  | cons b x ih =>
    cases i with
    | zero => exact stored.1
    | succ i =>
      rw [show s + (i + 1) = s + 1 + i by omega]
      exact ih stored.2 i (Nat.lt_of_succ_lt_succ inside)

theorem Stored.map_range (stored : Stored buf s x) : (List.range x.length).map (fun k => buf (s + k)) = x := by
  apply List.ext_getElem
  · rw [List.length_map, List.length_range]
  · intro i _ inside
    rw [List.getElem_map, List.getElem_range]
    exact stored.getElem i inside

theorem memory_stored (x : List UInt8) (behind : Nat → UInt8) : Stored (memory x behind) 0 x :=
  stored_of_getElem fun i inside => by rw [Nat.zero_add, memory, List.getD_eq_getElem _ _ inside]

/-- What is read as a string from memory: the bytes before the first zero. -/
theorem Stored.cstring (stored : Stored buf s (x ++ [0])) : CString buf s (cut 0 x).1 := by
  by_cases member : (0 : UInt8) ∈ x
  · obtain ⟨a, b, rfl, absent⟩ := List.eq_append_cons_of_mem member
    rw [List.append_assoc, List.cons_append, stored_append] at stored
    rw [cut_found absent]
    exact ⟨stored.1, absent, stored.2.1⟩
  · rw [cut_absent member]
    rw [stored_append] at stored
    exact ⟨stored.1, member, stored.2.1⟩

theorem CString.update (string : CString buf s x) (out : p < s ∨ s + x.length ≤ p) : CString (Function.update buf p 0) s x where
  stored := string.stored.update out 0
  solid := string.solid
  zero := by
    by_cases same : s + x.length = p
    · rw [same, Function.update_self]
    · rw [Function.update_of_ne same]
      exact string.zero

theorem CString.congr {buf' : Nat → UInt8} (string : CString buf s x)
    (same : ∀ i, s ≤ i → i ≤ s + x.length → buf' i = buf i) : CString buf' s x where
  stored := stored_of_getElem fun i inside => by
    rw [same _ (Nat.le_add_right s i) (by omega)]
    exact string.stored.getElem i inside
  solid := string.solid
  zero := (same _ (Nat.le_add_right s _) (Nat.le_refl _)).trans string.zero

theorem CString.unique (first : CString buf s x) (second : CString buf s y) : x = y := by
  induction x generalizing s y with
  | nil =>
    cases y with
    | nil => rfl
    | cons b y => exact absurd (second.stored.1.symm.trans first.zero) fun zero => second.solid (zero ▸ List.mem_cons_self)
  | cons a x ih =>
    cases y with
    | nil => exact absurd (first.stored.1.symm.trans second.zero) fun zero => first.solid (zero ▸ List.mem_cons_self)
    | cons b y =>
      have rest : ∀ {b : UInt8} {z : List UInt8}, CString buf s (b :: z) → CString buf (s + 1) z := fun string =>
        ⟨string.stored.2, fun zero => string.solid (List.mem_cons_of_mem _ zero), by
          have zero := string.zero
          rwa [List.length_cons, Nat.add_comm _ 1, ← Nat.add_assoc] at zero⟩
      rw [ih (rest first) (rest second), ← first.stored.1, ← second.stored.1]

theorem CString.drop (string : CString buf s (x ++ y)) : CString buf (s + x.length) y where
  stored := (stored_append.mp string.stored).2
  solid zero := string.solid (List.mem_append_right _ zero)
  zero := by
    have zero := string.zero
    rwa [List.length_append, ← Nat.add_assoc] at zero

/-- A separator that becomes a zero makes two strings out of one. -/
theorem CString.split (string : CString buf s (x ++ c :: y)) :
    CString (Function.update buf (s + x.length) 0) s x ∧ CString (Function.update buf (s + x.length) 0) (s + x.length + 1) y := by
  obtain ⟨stored, solid, zero⟩ := string
  rw [stored_append] at stored
  rw [List.mem_append, List.mem_cons, not_or, not_or] at solid
  rw [List.length_append, List.length_cons] at zero
  refine ⟨⟨stored.1.update (.inr (Nat.le_refl _)) 0, solid.1, Function.update_self ..⟩,
    ⟨stored.2.2.update (.inl (Nat.lt_succ_self _)) 0, solid.2.2, ?_⟩⟩
  rw [Function.update_of_ne (by omega), ← zero]
  congr 1
  omega

/-! ## Searching -/

/-- Where a search from `s` on stops: at the first `c` or zero. -/
def stopOf (buf : Nat → UInt8) (c : UInt8) : Nat → Nat → Nat
  | 0, s => s
  | fuel + 1, s => if buf s = c ∨ buf s = 0 then s else stopOf buf c fuel (s + 1)

theorem stopOf_eq {fuel : Nat} (stored : Stored buf s x) (absent : c ∉ x) (solid : 0 ∉ x)
    (stop : buf (s + x.length) = c ∨ buf (s + x.length) = 0) (enough : x.length < fuel) : stopOf buf c fuel s = s + x.length := by
  induction x generalizing s fuel with
  | nil =>
    obtain ⟨fuel, rfl⟩ := Nat.exists_eq_add_one_of_ne_zero (Nat.ne_zero_of_lt enough)
    exact if_pos stop
  | cons b x ih =>
    obtain ⟨fuel, rfl⟩ := Nat.exists_eq_add_one_of_ne_zero (Nat.ne_zero_of_lt enough)
    rw [List.mem_cons, not_or] at absent solid
    rw [List.length_cons] at stop enough ⊢
    have here := stored.1
    rw [stopOf, here, if_neg (by rintro (rfl | rfl) <;> simp_all), ih stored.2 absent.2 solid.2 ?_ (by omega)]
    · omega
    · rwa [Nat.add_assoc, Nat.add_comm 1]

end

end Xxlib.Lib
