import Mathlib.Data.List.Nodup
import Mathlib.Logic.Function.Basic

/-! Doubly linked lists of records that hold the pointers themselves.

A pointer is an optional address, and the pointers of all records are two functions of the
address. The first record of a list may point back to something that is not in it.
-/

set_option autoImplicit false

namespace Xxlib.Lib

variable {A : Type}

/-- The records of `list` point to each other, the first one back to `before` and the last one nowhere. -/
def Linked (prev next : A → Option A) : Option A → List A → Prop
  | _, [] => True
  | before, a :: rest => prev a = before ∧ next a = rest.head? ∧ Linked prev next (some a) rest

section
variable {prev next prev' next' : A → Option A} {before : Option A} {list front back : List A} {a : A}

theorem Linked.frame (linked : Linked prev next before list)
    (same : ∀ b ∈ list, prev' b = prev b ∧ next' b = next b) : Linked prev' next' before list := by
  induction list generalizing before with
  | nil => trivial
  | cons b rest ih =>
    obtain ⟨back, forth⟩ := same b List.mem_cons_self
    refine ⟨back.trans linked.1, forth.trans linked.2.1, ?_⟩
    exact ih linked.2.2 fun c member => same c (List.mem_cons_of_mem b member)

theorem Linked.tail (linked : Linked prev next before (a :: list)) : Linked prev next (some a) list :=
  linked.2.2

theorem Linked.next_eq (linked : Linked prev next before (front ++ a :: back)) : next a = back.head? := by
  induction front generalizing before with
  | nil => exact linked.2.1
  | cons b front ih => exact ih linked.2.2

/-- What a record points back to. -/
theorem Linked.prev_eq (linked : Linked prev next before (front ++ a :: back)) :
    prev a = front.getLast?.or before := by
  induction front generalizing before with
  | nil => exact linked.1
  | cons b front ih =>
    rw [ih linked.2.2, List.getLast?_cons]
    cases front.getLast? <;> rfl

end

section
variable [DecidableEq A]

/-- A write through a pointer, if there is one. -/
def redirect (links : A → Option A) (at' value : Option A) : A → Option A :=
  match at' with
  | some a => Function.update links a value
  | none => links

theorem redirect_of_ne {links : A → Option A} {at' value : Option A} {a : A} (apart : at' ≠ some a) :
    redirect links at' value a = links a := by
  cases at' with
  | none => rfl
  | some b => exact Function.update_of_ne (fun same => apart (congrArg some same.symm)) _ _

theorem redirect_self {links : A → Option A} {value : Option A} {a : A} :
    redirect links (some a) value a = value :=
  Function.update_self _ _ _

variable {prev next : A → Option A} {before : Option A} {list front back : List A} {a : A}

/-- A list goes on to be one where a record in the middle is bypassed. -/
theorem Linked.remove (linked : Linked prev next before (front ++ a :: back))
    (nodup : (front ++ a :: back).Nodup) (outside : front = [] → ∀ p, before = some p → p ∉ back) :
    Linked (redirect prev (next a) (prev a)) (redirect next (prev a) (next a)) before (front ++ back) := by
  induction front generalizing before with
  | nil =>
    obtain ⟨backs, forth, rest⟩ := linked
    rw [backs, forth]
    have apart : ∀ b ∈ back, before ≠ some b := fun b member same => outside rfl b same member
    cases back with
    | nil => trivial
    | cons b back =>
      obtain ⟨-, forth', rest⟩ := rest
      refine ⟨redirect_self, ?_, ?_⟩
      · rw [redirect_of_ne (apart b List.mem_cons_self)]
        exact forth'
      · apply rest.frame
        intro c member
        have other : some b ≠ some c := by
          rintro ⟨rfl⟩
          exact (List.nodup_cons.mp (List.nodup_cons.mp nodup).2).1 member
        exact ⟨redirect_of_ne other, redirect_of_ne (apart c (List.mem_cons_of_mem b member))⟩
  | cons f front ih =>
    obtain ⟨backs, forth, rest⟩ := linked
    have nodup' := List.nodup_cons.mp nodup
    have inner := ih rest nodup'.2 fun _ p same member => by
      cases same
      exact nodup'.1 (List.mem_append_right _ (List.mem_cons_of_mem a member))
    have notNext : next a ≠ some f := by
      rw [rest.next_eq]
      intro same
      exact nodup'.1 (List.mem_append_right _ (List.mem_cons_of_mem a (List.mem_of_mem_head? same)))
    refine ⟨(redirect_of_ne notNext).trans backs, ?_, inner⟩
    rw [rest.prev_eq]
    cases front with
    | nil => exact redirect_self.trans rest.next_eq
    | cons g front =>
      have notLast : (g :: front).getLast?.or (some f) ≠ some f := by
        rw [List.getLast?_cons, Option.or_some]
        intro same
        apply nodup'.1
        apply List.mem_append_left
        apply List.mem_of_getLast?
        rw [List.getLast?_cons]
        exact same
      exact (redirect_of_ne notLast).trans forth

/-- Putting a record in front of a list. -/
theorem Linked.push (linked : Linked prev next none list) (nodup : list.Nodup) (outside : a ∉ list) :
    Linked (redirect (Function.update prev a none) list.head? (some a)) (Function.update next a list.head?) none
      (a :: list) := by
  have other : ∀ b ∈ list, b ≠ a := fun b member same => outside (same ▸ member)
  refine ⟨?_, Function.update_self _ _ _, ?_⟩
  · rw [redirect_of_ne, Function.update_self]
    exact fun same => outside (List.mem_of_mem_head? same)
  · cases list with
    | nil => trivial
    | cons b list =>
      have apart := other b List.mem_cons_self
      refine ⟨redirect_self, (Function.update_of_ne apart _ _).trans linked.2.1, ?_⟩
      apply linked.2.2.frame
      intro c member
      have behind : some b ≠ some c := by
        rintro ⟨rfl⟩
        exact (List.nodup_cons.mp nodup).1 member
      have different := other c (List.mem_cons_of_mem b member)
      exact ⟨(redirect_of_ne behind).trans (Function.update_of_ne different _ _), Function.update_of_ne different _ _⟩

end

end Xxlib.Lib
