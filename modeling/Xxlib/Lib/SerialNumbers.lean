import Mathlib.Data.List.Forall2
import Xxlib.Lib.Bytes

/-! Numbers that are sent in 32 bits. Two of them are compared by their difference as a signed number, which is right as long as
they are less than half the range apart. -/

set_option autoImplicit false

namespace Xxlib.Lib

/-- How far `later` is ahead of `earlier`. -/
def serialDiff (later earlier : UInt32) : Int := toInt32 (later - earlier).toNat

section
variable {m n : Nat}

theorem serialDiff_ofNat (behind : n ≤ m + 2 ^ 31) (ahead : m < n + 2 ^ 31) :
    serialDiff (UInt32.ofNat m) (UInt32.ofNat n) = m - n := by
  unfold serialDiff toInt32
  rw [UInt32.toNat_sub, UInt32.toNat_ofNat', UInt32.toNat_ofNat', Int.bmod_def]
  split <;> omega

theorem ofNat_add_one (n : Nat) : UInt32.ofNat n + 1 = UInt32.ofNat (n + 1) := (UInt32.ofNat_add n 1).symm

/-- Numbers that are near each other are the same if they look the same. -/
theorem eq_of_ofNat_eq (behind : n < m + 2 ^ 32) (ahead : m < n + 2 ^ 32) (same : UInt32.ofNat m = UInt32.ofNat n) : m = n := by
  have mods := congrArg UInt32.toNat same
  rw [UInt32.toNat_ofNat', UInt32.toNat_ofNat'] at mods
  omega

theorem ofNat_sub_toNat (below : n ≤ m) (near : m < n + 2 ^ 32) : (UInt32.ofNat m - UInt32.ofNat n).toNat = m - n := by
  rw [UInt32.toNat_sub, UInt32.toNat_ofNat', UInt32.toNat_ofNat']
  omega

/-- What is ahead of `n` by half the range or more looks as if it was behind. -/
theorem serialDiff_nonneg_iff (below : n ≤ m) (near : m < n + 2 ^ 32) :
    0 ≤ serialDiff (UInt32.ofNat m) (UInt32.ofNat n) ↔ m < n + 2 ^ 31 := by
  unfold serialDiff toInt32
  rw [ofNat_sub_toNat below near, Int.bmod_def]
  split <;> omega

theorem serialDiff_lt (later earlier : UInt32) : serialDiff later earlier < 2 ^ 31 := by
  unfold serialDiff toInt32
  rw [Int.bmod_def]
  split <;> omega

/-- The difference the other way, unless it is the least number. -/
theorem serialDiff_swap {later earlier : UInt32} (near : serialDiff later earlier ≠ -2 ^ 31) :
    serialDiff earlier later = -serialDiff later earlier := by
  have small := later.toNat_lt
  have small' := earlier.toNat_lt
  unfold serialDiff toInt32 at near ⊢
  rw [UInt32.toNat_sub, Int.bmod_def] at near ⊢
  rw [UInt32.toNat_sub, Int.bmod_def]
  split at near
  · split <;> omega
  · split <;> omega

/-- What is not behind `n` has a number from `n` on. -/
theorem eq_ofNat_of_serialDiff {a : UInt32} (ahead : 0 ≤ serialDiff a (UInt32.ofNat n)) :
    a = UInt32.ofNat (n + (serialDiff a (UInt32.ofNat n)).toNat) := by
  have small := a.toNat_lt
  have same : a = UInt32.ofNat (n + (a - UInt32.ofNat n).toNat) := by
    rw [UInt32.ofNat_add, UInt32.ofNat_toNat]
    grind
  have value : serialDiff a (UInt32.ofNat n) = (a - UInt32.ofNat n).toNat := by
    have low := (a - UInt32.ofNat n).toNat_lt
    unfold serialDiff toInt32 at ahead ⊢
    rw [Int.bmod_def] at ahead ⊢
    split at ahead <;> omega
  rw [value]
  exact same

/-- Every number is that of a place from `n` on. -/
theorem exists_ofNat_from (a : UInt32) (n : Nat) : ∃ m, n ≤ m ∧ m < n + 2 ^ 32 ∧ a = UInt32.ofNat m := by
  have small := a.toNat_lt
  refine ⟨n + (a - UInt32.ofNat n).toNat, Nat.le_add_right _ _, ?_, ?_⟩
  · have := (a - UInt32.ofNat n).toNat_lt
    omega
  · apply UInt32.toNat_inj.mp
    rw [UInt32.toNat_ofNat', UInt32.toNat_sub, UInt32.toNat_ofNat']
    omega

end

/-! ## Lists of numbered items -/

section
variable {α : Type} {key : α → UInt32} {P : Nat → α → Prop} {xs ys : List α} {ns ms : List Nat} {x : α} {n : Nat}

/-- The items carry the numbers `ns`, and are what `P` says of those. -/
def Numbered (key : α → UInt32) (P : Nat → α → Prop) : List α → List Nat → Prop :=
  List.Forall₂ fun x n => key x = UInt32.ofNat n ∧ P n x

namespace Numbered

theorem sublist (nums : Numbered key P xs ns) (part : ys.Sublist xs) : ∃ ms, ms.Sublist ns ∧ Numbered key P ys ms := by
  induction nums generalizing ys with
  | nil =>
    obtain rfl := List.sublist_nil.mp part
    exact ⟨[], List.Sublist.refl _, .nil⟩
  | @cons x n xs ns first _ ih =>
    rcases List.sublist_cons_iff.mp part with rest | ⟨zs, rfl, rest⟩
    · obtain ⟨ms, less, carried⟩ := ih rest
      exact ⟨ms, less.cons n, carried⟩
    · obtain ⟨ms, less, carried⟩ := ih rest
      exact ⟨n :: ms, less.cons_cons n, .cons first carried⟩

theorem exists_number (nums : Numbered key P xs ns) (member : x ∈ xs) : ∃ n ∈ ns, key x = UInt32.ofNat n ∧ P n x := by
  induction nums with
  | nil => cases member
  | cons first _ ih =>
    rcases List.mem_cons.mp member with rfl | later
    · exact ⟨_, List.mem_cons_self, first⟩
    · obtain ⟨n, there, found⟩ := ih later
      exact ⟨n, List.mem_cons_of_mem _ there, found⟩

theorem exists_item (nums : Numbered key P xs ns) (member : n ∈ ns) : ∃ x ∈ xs, key x = UInt32.ofNat n ∧ P n x := by
  induction nums with
  | nil => cases member
  | cons first _ ih =>
    rcases List.mem_cons.mp member with rfl | later
    · exact ⟨_, List.mem_cons_self, first⟩
    · obtain ⟨x, there, found⟩ := ih later
      exact ⟨x, List.mem_cons_of_mem _ there, found⟩

theorem append (first : Numbered key P xs ns) (second : Numbered key P ys ms) : Numbered key P (xs ++ ys) (ns ++ ms) :=
  List.rel_append first second

theorem reverse (nums : Numbered key P xs ns) : Numbered key P xs.reverse ns.reverse := List.rel_reverse nums

theorem imp {Q : Nat → α → Prop} (nums : Numbered key P xs ns) (weaker : ∀ n x, P n x → Q n x) : Numbered key Q xs ns :=
  List.Forall₂.imp (fun _ _ both => ⟨both.1, weaker _ _ both.2⟩) nums

end Numbered

end

end Xxlib.Lib
