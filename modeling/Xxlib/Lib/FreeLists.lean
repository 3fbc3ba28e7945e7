import Mathlib.Data.List.Nodup
import Mathlib.Logic.Function.Basic

/-! Segregated free lists: one singly linked list for each class, threaded through the
free nodes themselves.

A node is its address and null is 0. What `next` says of a node that lies on no list is
arbitrary, so the word that links a free node may hold anything while the node is in use.
-/

set_option autoImplicit false

namespace Xxlib.Lib

/-- Following `next` from `head` visits exactly `chain` and ends at null. -/
def Threaded (next : Nat → Nat) : Nat → List Nat → Prop
  | head, [] => head = 0
  | head, a :: rest => head = a ∧ a ≠ 0 ∧ Threaded next (next a) rest

/-- The heads of the classes lead through `lists`, and no node is met twice. -/
structure FreeLists (heads next : Nat → Nat) (lists : Nat → List Nat) : Prop where
  threaded : ∀ c, Threaded next (heads c) (lists c)
  nodup : ∀ c, (lists c).Nodup
  apart : ∀ {c d a}, a ∈ lists c → a ∈ lists d → c = d

section
variable {next other heads : Nat → Nat} {head : Nat} {chain : List Nat} {lists : Nat → List Nat}

theorem Threaded.frame (threaded : Threaded next head chain) (same : ∀ a ∈ chain, other a = next a) :
    Threaded other head chain := by
  induction chain generalizing head with
  | nil => exact threaded
  | cons a rest ih =>
    refine ⟨threaded.1, threaded.2.1, ?_⟩
    rw [same a (by simp)]
    exact ih threaded.2.2 (fun b member => same b (by simp [member]))

/-- A link leads to a node of the same list, or ends it. -/
theorem Threaded.next_mem {a : Nat} (threaded : Threaded next head chain) (member : a ∈ chain) :
    next a = 0 ∨ next a ∈ chain := by
  induction chain generalizing head with
  | nil => simp at member
  | cons b rest ih =>
    rcases List.mem_cons.mp member with rfl | later
    · cases rest with
      | nil => exact .inl threaded.2.2
      | cons c tail => exact .inr (by simp [threaded.2.2.1])
    · rcases ih threaded.2.2 later with ends | inside
      · exact .inl ends
      · exact .inr (List.mem_cons_of_mem b inside)

theorem FreeLists.empty : FreeLists (fun _ => 0) next fun _ => [] where
  threaded _ := rfl
  nodup _ := List.nodup_nil
  apart member := by simp at member

/-- A node on no list may be written. -/
theorem FreeLists.frame {a value : Nat} (free : FreeLists heads next lists) (outside : ∀ c, a ∉ lists c) :
    FreeLists heads (Function.update next a value) lists where
  threaded c := (free.threaded c).frame fun _ member =>
    Function.update_of_ne (ne_of_mem_of_not_mem member (outside c)) _ _
  nodup := free.nodup
  apart := free.apart

/-- Taking the head of a class. -/
theorem FreeLists.pop {c : Nat} (free : FreeLists heads next lists) (some_node : heads c ≠ 0) :
    ∃ rest, lists c = heads c :: rest ∧
      FreeLists (Function.update heads c (next (heads c))) next (Function.update lists c rest) := by
  have threaded := free.threaded c
  cases shape : lists c with
  | nil => rw [shape] at threaded; exact absurd threaded some_node
  | cons a rest =>
    rw [shape] at threaded
    obtain ⟨rfl, -, after⟩ := threaded
    have keeps : ∀ {d b}, b ∈ Function.update lists c rest d → b ∈ lists d := by
      intro d b member
      by_cases same : d = c
      · subst same
        rw [Function.update_self] at member
        rw [shape]
        exact List.mem_cons_of_mem _ member
      · rwa [Function.update_of_ne same] at member
    refine ⟨rest, rfl, fun d => ?_, fun d => ?_, fun left right => free.apart (keeps left) (keeps right)⟩
    · by_cases same : d = c
      · subst same
        simpa using after
      · simpa [Function.update_of_ne same] using free.threaded d
    · by_cases same : d = c
      · subst same
        have nodup := free.nodup d
        rw [shape] at nodup
        simpa using (List.nodup_cons.mp nodup).2
      · simpa [Function.update_of_ne same] using free.nodup d

/-- Putting a node of no list in front of a class. -/
theorem FreeLists.push {a : Nat} (c : Nat) (free : FreeLists heads next lists) (node : a ≠ 0)
    (outside : ∀ d, a ∉ lists d) :
    FreeLists (Function.update heads c a) (Function.update next a (heads c))
      (Function.update lists c (a :: lists c)) := by
  have framed : FreeLists heads (Function.update next a (heads c)) lists := free.frame outside
  have splits : ∀ {d b}, b ∈ Function.update lists c (a :: lists c) d → (d = c ∧ b = a) ∨ b ∈ lists d := by
    intro d b member
    by_cases same : d = c
    · subst same
      rw [Function.update_self] at member
      exact (List.mem_cons.mp member).imp_left fun equal => ⟨rfl, equal⟩
    · exact .inr (by rwa [Function.update_of_ne same] at member)
  refine ⟨fun d => ?_, fun d => ?_, fun left right => ?_⟩
  · by_cases same : d = c
    · subst same
      simp only [Function.update_self]
      exact ⟨rfl, node, by simpa using framed.threaded d⟩
    · simpa only [Function.update_of_ne same] using framed.threaded d
  · by_cases same : d = c
    · subst same
      simpa using ⟨outside d, free.nodup d⟩
    · simpa only [Function.update_of_ne same] using free.nodup d
  · rcases splits left with ⟨rfl, rfl⟩ | inLeft
    · rcases splits right with ⟨rfl, -⟩ | inRight
      · rfl
      · exact absurd inRight (outside _)
    · rcases splits right with ⟨rfl, rfl⟩ | inRight
      · exact absurd inLeft (outside _)
      · exact free.apart inLeft inRight

end

end Xxlib.Lib
