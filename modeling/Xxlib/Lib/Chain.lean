import Mathlib.Data.List.Nodup
import Mathlib.Logic.Function.Basic

/-! Intrusive singly and doubly linked lists threaded through index arrays.

An array is a total function of its index; what lies outside the allocated part
is arbitrary and no lemma looks at it. A negative index ends a list.
-/

set_option autoImplicit false

namespace Xxlib.Lib

/-- Following `next` from `head` visits exactly `chain`, in this order, and then leaves. -/
def Walks (next : Nat → Int) : Int → List Nat → Prop
  | head, [] => head < 0
  | head, i :: rest => head = (i : Int) ∧ Walks next (next i) rest

/-- Every element of `chain` points back to its predecessor, the first one to `before`. -/
def BackLinked (prev : Nat → Int) : Int → List Nat → Prop
  | _, [] => True
  | before, i :: rest => prev i = before ∧ BackLinked prev i rest

section
variable {next other : Nat → Int} {head before : Int} {chain : List Nat}

theorem Walks.frame (walks : Walks next head chain)
    (same : ∀ i ∈ chain, other i = next i) : Walks other head chain := by
  induction chain generalizing head with
  | nil => exact walks
  | cons i rest ih =>
    refine ⟨walks.1, ?_⟩
    rw [same i (by simp)]
    exact ih walks.2 (fun j member => same j (by simp [member]))

theorem BackLinked.frame (backs : BackLinked next before chain)
    (same : ∀ i ∈ chain, other i = next i) : BackLinked other before chain := by
  induction chain generalizing before with
  | nil => trivial
  | cons i rest ih =>
    refine ⟨(same i (by simp)).trans backs.1, ?_⟩
    exact ih backs.2 (fun j member => same j (by simp [member]))

theorem Walks.frame_update {i : Nat} {value : Int} (walks : Walks next head chain)
    (outside : i ∉ chain) : Walks (Function.update next i value) head chain :=
  walks.frame fun _ member => Function.update_of_ne (ne_of_mem_of_not_mem member outside) _ _

theorem BackLinked.frame_update {i : Nat} {value : Int} (backs : BackLinked next before chain)
    (outside : i ∉ chain) : BackLinked (Function.update next i value) before chain :=
  backs.frame fun _ member => Function.update_of_ne (ne_of_mem_of_not_mem member outside) _ _

theorem Walks.head_of_nonneg (walks : Walks next head chain) (nonneg : 0 ≤ head) :
    ∃ rest, chain = head.toNat :: rest := by
  cases chain with
  | nil => have negative : head < 0 := walks; omega
  | cons i rest => exact ⟨rest, by have := walks.1; congr 1; omega⟩

theorem Walks.push {i : Nat} (walks : Walks next head chain) (outside : i ∉ chain) :
    Walks (Function.update next i head) i (i :: chain) := by
  refine ⟨rfl, ?_⟩
  rw [Function.update_self]
  exact walks.frame_update outside

/-- The walk continues behind each of its elements. -/
theorem Walks.after {i : Nat} {front back : List Nat} (walks : Walks next head (front ++ i :: back)) :
    Walks next (next i) back := by
  induction front generalizing head with
  | nil => exact walks.2
  | cons j front ih => exact ih walks.2

/-- Unlinking an inner element redirects its predecessor. -/
theorem Walks.bypass {p i : Nat} {front back : List Nat}
    (walks : Walks next head (front ++ p :: i :: back)) (nodup : (front ++ p :: i :: back).Nodup) :
    Walks (Function.update next p (next i)) head (front ++ p :: back) := by
  induction front generalizing head with
  | nil =>
    simp only [List.nil_append, List.nodup_cons] at nodup ⊢
    refine ⟨walks.1, ?_⟩
    rw [Function.update_self]
    exact walks.2.2.frame_update (fun member => nodup.1 (by simp [member]))
  | cons j front ih =>
    simp only [List.cons_append, List.nodup_cons] at nodup
    refine ⟨walks.1, ?_⟩
    rw [Function.update_of_ne (fun same => nodup.1 (by simp [same]))]
    exact ih walks.2 nodup.2

/-- What the element after `front` points back to. -/
def lastOr (before : Int) : List Nat → Int
  | [] => before
  | i :: rest => lastOr i rest

theorem lastOr_append_singleton (before : Int) (front : List Nat) (p : Nat) :
    lastOr before (front ++ [p]) = p := by
  induction front generalizing before with
  | nil => rfl
  | cons i rest ih => exact ih i

theorem BackLinked.append_iff {front back : List Nat} :
    BackLinked next before (front ++ back) ↔
      BackLinked next before front ∧ BackLinked next (lastOr before front) back := by
  induction front generalizing before with
  | nil => simp [BackLinked, lastOr]
  | cons i rest ih => simp only [List.cons_append, BackLinked, lastOr, ih, and_assoc]

theorem BackLinked.at {i : Nat} {front back : List Nat}
    (backs : BackLinked next before (front ++ i :: back)) : next i = lastOr before front :=
  (append_iff.mp backs).2.1

/-- Unlinking `i` hands its back link to its successor `j`. -/
theorem BackLinked.bypass {i j : Nat} {front rest : List Nat}
    (backs : BackLinked next before (front ++ i :: j :: rest)) (nodup : (front ++ i :: j :: rest).Nodup) :
    BackLinked (Function.update next j (next i)) before (front ++ j :: rest) := by
  have link := backs.at
  obtain ⟨frontBacks, -, backBacks⟩ := append_iff.mp backs
  have split := List.nodup_append.mp nodup
  have jFront : j ∉ front := fun member => split.2.2 j member j (by simp) rfl
  have jRest : j ∉ rest := by
    have inner := split.2.1
    simp only [List.nodup_cons] at inner
    exact inner.2.1
  refine append_iff.mpr ⟨frontBacks.frame_update jFront, ?_, ?_⟩
  · rw [Function.update_self, link]
  · exact backBacks.2.frame_update jRest

/-- Back links name list members, or are the initial value. -/
theorem BackLinked.value {i : Nat} (backs : BackLinked next before chain) (member : i ∈ chain) :
    next i = before ∨ ∃ p ∈ chain, next i = (p : Int) := by
  induction chain generalizing before with
  | nil => simp at member
  | cons j rest ih =>
    rcases List.mem_cons.mp member with same | member
    · subst same
      exact .inl backs.1
    · rcases ih backs.2 member with found | ⟨p, inside, found⟩
      · exact .inr ⟨j, by simp, found⟩
      · exact .inr ⟨p, by simp [inside], found⟩

end

/-! ## Searching a chain -/

/-- The loop `for (i = head; i >= 0; i = next[i]) if (hit(i)) return i; return -1`.
`none` means that the loop did not end within `fuel` rounds. -/
def scan (next : Nat → Int) (hit : Nat → Bool) : Nat → Int → Option Int
  | 0, _ => none
  | fuel + 1, i =>
      if i < 0 then some (-1)
      else if hit i.toNat then some i
      else scan next hit fuel (next i.toNat)

/-- The index a search answers with. -/
def indexOr (found : Option Nat) : Int :=
  match found with
  | some i => i
  | none => -1

theorem scan_eq {next : Nat → Int} {head : Int} {chain : List Nat} (hit : Nat → Bool) {fuel : Nat}
    (walks : Walks next head chain) (enough : chain.length < fuel) :
    scan next hit fuel head = some (indexOr (chain.find? hit)) := by
  induction chain generalizing head fuel with
  | nil =>
    obtain ⟨fuel, rfl⟩ : ∃ n, fuel = n + 1 := ⟨fuel - 1, by simp at enough; omega⟩
    have negative : head < 0 := walks
    simp [scan, negative, indexOr]
  | cons i rest ih =>
    obtain ⟨fuel, rfl⟩ : ∃ n, fuel = n + 1 := ⟨fuel - 1, by simp at enough; omega⟩
    obtain ⟨rfl, walks⟩ := walks
    have inner := ih walks (by simp at enough; omega)
    have nonneg : ¬ (i : Int) < 0 := by omega
    by_cases found : hit i
    · simp [scan, nonneg, found, indexOr]
    · simp [scan, nonneg, found, inner]

end Xxlib.Lib
