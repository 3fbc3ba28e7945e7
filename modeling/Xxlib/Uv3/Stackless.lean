import Mathlib.Data.Multiset.AddSub
import Xxlib.Lib.SwapRemove

/-! `Stackless` (`xx_stackless.h`).

The walk holds a reference to an element while it calls the function in it. If the vector moves its elements meanwhile,
what follows has no result.
-/

set_option autoImplicit false

namespace Xxlib.Uv3

open Lib

/-- `(int)0xFFFFFFFF` -/
def COR_END : Int := -1

/-- `moved` tells whether the elements were moved since it was false. -/
structure Stackless (F : Type) where
  funcs : List (F × Int)
  capacity : Nat
  moved : Bool := false

/-- What a function does when it is called: what it adds, and in the end what it returns. A function that is run before
it is added does what is `inside`. -/
inductive Call (F : Type) where
  | returns (n : Int)
  | add (func : Option F) (rest : Call F)
  | runAdd (func : Option F) (inside rest : Call F)

namespace Stackless

section
variable {F : Type} (grow : Nat → Nat)

def emplaceBack (func : F) (n : Int) (s : Stackless F) : Stackless F :=
  if s.funcs.length < s.capacity then { s with funcs := s.funcs ++ [(func, n)] }
  else { funcs := s.funcs ++ [(func, n)], capacity := grow s.capacity, moved := true }

def add (func : Option F) (s : Stackless F) : Stackless F :=
  match func with
  | none => s
  | some func => s.emplaceBack grow func 0

/-- `call` is the call `func(0)`. -/
def runAdd (func : Option F) (call : Stackless F → Stackless F × Int) (s : Stackless F) : Stackless F :=
  match func with
  | none => s
  | some func =>
      let (s, n) := call s
      if n = COR_END then s else s.emplaceBack grow func n

end

end Stackless

section
variable {F : Type} (grow : Nat → Nat)

def Call.run : Call F → Stackless F → Stackless F × Int
  | .returns n, s => (s, n)
  | .add func rest, s => rest.run (s.add grow func)
  | .runAdd func inside rest, s => rest.run (s.runAdd grow func inside.run)

/-- A pass, with the number of its calls and the elements that it has handled. -/
structure Pass (F : Type) where
  stackless : Stackless F
  calls : Nat := 0
  handled : List (F × Int) := []

variable (call : Nat → F → Int → Call F)

/-- One round of the loop, for the element `i`. -/
def Pass.handle (i : Nat) (p : Pass F) : Option (Pass F) :=
  match p.stackless.funcs[i]? with
  | none => none
  | some (func, n) =>
      let s := { p.stackless with moved := false }
      let ((s, n'), calls) :=
        if n < 0 then ((s, n + 1), p.calls) else ((call p.calls func n).run grow s, p.calls + 1)
      if s.moved then none
      else
        let funcs := s.funcs.set i (func, n')
        some ⟨{ s with funcs := if n' = COR_END then swapRemove funcs i else funcs }, calls, p.handled ++ [(func, n)]⟩

/-- The loop, from the element before `i` on. -/
def Pass.walk : Nat → Pass F → Option (Pass F)
  | 0, p => some p
  | i + 1, p => (p.handle grow call i).bind (walk i)

/-- The `k`-th call of the pass is `call k`. -/
def Stackless.runOnce (s : Stackless F) : Option (Pass F) := Pass.walk grow call s.funcs.length { stackless := s }

end

/-! ## What a call adds -/

section
variable {F : Type}

def Call.value : Call F → Int
  | .returns n => n
  | .add _ rest => rest.value
  | .runAdd _ _ rest => rest.value

def Call.added : Call F → List (F × Int)
  | .returns _ => []
  | .add none rest => rest.added
  | .add (some func) rest => (func, 0) :: rest.added
  | .runAdd none _ rest => rest.added
  | .runAdd (some func) inside rest =>
      inside.added ++ (if inside.value = COR_END then [] else [(func, inside.value)]) ++ rest.added

def Stackless.emplaceAll (grow : Nat → Nat) (xs : List (F × Int)) (s : Stackless F) : Stackless F :=
  xs.foldl (fun s x => s.emplaceBack grow x.1 x.2) s

theorem Stackless.emplaceAll_append (grow : Nat → Nat) (xs ys : List (F × Int)) (s : Stackless F) :
    s.emplaceAll grow (xs ++ ys) = (s.emplaceAll grow xs).emplaceAll grow ys := List.foldl_append

theorem Call.run_eq (grow : Nat → Nat) (c : Call F) (s : Stackless F) : c.run grow s = (s.emplaceAll grow c.added, c.value) := by
  induction c generalizing s with
  | returns n => rfl
  | add func rest ih =>
    cases func with
    | none => exact ih s
    | some func => exact ih (s.emplaceBack grow func 0)
  | runAdd func inside rest first second =>
    cases func with
    | none => exact second s
    | some func =>
      rw [run, Stackless.runAdd, first]
      dsimp only
      rw [second, added, value, Stackless.emplaceAll_append, Stackless.emplaceAll_append]
      split <;> rfl

variable {grow : Nat → Nat} {xs : List (F × Int)} {s : Stackless F}

theorem Stackless.emplaceAll_fits (fits : s.funcs.length + xs.length ≤ s.capacity) :
    s.emplaceAll grow xs = { s with funcs := s.funcs ++ xs } := by
  induction xs generalizing s with
  | nil => rw [List.append_nil]; rfl
  | cons x xs ih =>
    rw [List.length_cons] at fits
    have step : s.emplaceBack grow x.1 x.2 = { s with funcs := s.funcs ++ [x] } := if_pos (by omega)
    have next := @ih { s with funcs := s.funcs ++ [x] } (by simp only [List.length_append, List.length_singleton]; omega)
    rw [emplaceAll, List.foldl_cons, step]
    refine next.trans ?_
    rw [List.append_assoc, List.singleton_append]

theorem Stackless.emplaceAll_moved (moved : s.moved = true) (xs : List (F × Int)) : (s.emplaceAll grow xs).moved = true := by
  induction xs generalizing s with
  | nil => exact moved
  | cons x xs ih =>
    refine @ih (s.emplaceBack grow x.1 x.2) ?_
    unfold emplaceBack
    split
    · exact moved
    · rfl

/-- If there is no room for all that is added, the vector moves. -/
theorem Stackless.emplaceAll_moves (some : xs ≠ []) (full : ¬ s.funcs.length + xs.length ≤ s.capacity) :
    (s.emplaceAll grow xs).moved = true := by
  induction xs generalizing s with
  | nil => exact absurd rfl some
  | cons x xs ih =>
    rw [List.length_cons] at full
    rw [emplaceAll, List.foldl_cons]
    by_cases here : s.funcs.length < s.capacity
    · have step : s.emplaceBack grow x.1 x.2 = { s with funcs := s.funcs ++ [x] } := if_pos here
      rw [step]
      refine @ih { s with funcs := s.funcs ++ [x] } ?_ (by simp only [List.length_append, List.length_singleton]; omega)
      rintro rfl
      exact full (by simp only [List.length_nil]; omega)
    · have step : (s.emplaceBack grow x.1 x.2).moved = true := by rw [emplaceBack, if_neg here]
      exact emplaceAll_moved step xs

end

/-! ## A pass -/

section
variable {F : Type} (call : Nat → F → Int → Call F)

/-- The new number of an element after `k` calls, what is added meanwhile, and how many calls there are then. -/
def outcome (k : Nat) (x : F × Int) : Int × List (F × Int) × Nat :=
  if x.2 < 0 then (x.2 + 1, [], k) else ((call k x.1 x.2).value, (call k x.1 x.2).added, k + 1)

/-- What is left of the elements, the first of which is handled first. -/
def left : Nat → List (F × Int) → List (F × Int)
  | _, [] => []
  | k, x :: todo =>
      let (n, _, k') := outcome call k x
      if n = COR_END then left k' todo else (x.1, n) :: left k' todo

/-- The same if only those go that returned the end marker. -/
def kept : Nat → List (F × Int) → List (F × Int)
  | _, [] => []
  | k, x :: todo =>
      let (n, _, k') := outcome call k x
      if 0 ≤ x.2 ∧ n = COR_END then kept k' todo else (x.1, n) :: kept k' todo

def added : Nat → List (F × Int) → List (F × Int)
  | _, [] => []
  | k, x :: todo =>
      let (_, new, k') := outcome call k x
      new ++ added k' todo

/-- Every function finds room for what it adds. -/
def Room (capacity : Nat) : Nat → Nat → List (F × Int) → Prop
  | _, _, [] => True
  | size, k, x :: todo =>
      let (n, new, k') := outcome call k x
      (new = [] ∨ size + new.length ≤ capacity) ∧
        Room capacity (if n = COR_END then size + new.length - 1 else size + new.length) k' todo

variable {call} {grow : Nat → Nat}

theorem Pass.handle_eq {p : Pass F} {i : Nat} {x : F × Int} (found : p.stackless.funcs[i]? = some x) :
    p.handle grow call i =
      let s := Stackless.emplaceAll grow (outcome call p.calls x).2.1 { p.stackless with moved := false }
      let funcs := s.funcs.set i (x.1, (outcome call p.calls x).1)
      if s.moved then none
      else some ⟨{ s with funcs := if (outcome call p.calls x).1 = COR_END then swapRemove funcs i else funcs },
        (outcome call p.calls x).2.2, p.handled ++ [x]⟩ := by
  obtain ⟨func, n⟩ := x
  rw [handle, found]
  dsimp only
  unfold outcome
  by_cases waits : n < 0
  · simp only [if_pos waits]
    rfl
  · simp only [if_neg waits]
    rw [Call.run_eq]

/-- One round, where there is room. -/
theorem Pass.handle_room {p : Pass F} {front back : List (F × Int)} {x : F × Int} (shape : p.stackless.funcs = front ++ x :: back)
    (room : (outcome call p.calls x).2.1 = [] ∨
      p.stackless.funcs.length + (outcome call p.calls x).2.1.length ≤ p.stackless.capacity) :
    ∃ rest, p.handle grow call front.length =
        some ⟨⟨front ++ rest, p.stackless.capacity, false⟩, (outcome call p.calls x).2.2, p.handled ++ [x]⟩ ∧
      rest.Perm (if (outcome call p.calls x).1 = COR_END then back ++ (outcome call p.calls x).2.1
        else (x.1, (outcome call p.calls x).1) :: (back ++ (outcome call p.calls x).2.1)) := by
  have found : p.stackless.funcs[front.length]? = some x := by rw [shape]; simp
  rw [handle_eq found]
  generalize (outcome call p.calls x).2.1 = new at room ⊢
  generalize (outcome call p.calls x).1 = n
  have emplaced : Stackless.emplaceAll grow new { p.stackless with moved := false } =
      ⟨front ++ x :: (back ++ new), p.stackless.capacity, false⟩ := by
    rcases room with rfl | fits
    · rw [List.append_nil, ← shape]
      rfl
    · refine (@Stackless.emplaceAll_fits F grow new { p.stackless with moved := false } fits).trans ?_
      rw [shape, List.append_assoc, List.cons_append]
  have set : (front ++ x :: (back ++ new)).set front.length (x.1, n) = front ++ (x.1, n) :: (back ++ new) := by
    rw [List.set_append_right _ _ (Nat.le_refl _), Nat.sub_self, List.set_cons_zero]
  simp only [emplaced, set]
  by_cases ends : n = COR_END
  · obtain ⟨rest, removed, perm⟩ := swapRemove_append front (x.1, n) (back ++ new)
    refine ⟨rest, ?_, ?_⟩
    · rw [if_neg (by decide), if_pos ends, removed]
    · rwa [if_pos ends]
  · refine ⟨(x.1, n) :: (back ++ new), ?_, ?_⟩
    · rw [if_neg (by decide), if_neg ends]
    · rw [if_neg ends]

/-- One round, where there is no room. -/
theorem Pass.handle_full {p : Pass F} {i : Nat} {x : F × Int} (found : p.stackless.funcs[i]? = some x)
    (full : ¬ ((outcome call p.calls x).2.1 = [] ∨
      p.stackless.funcs.length + (outcome call p.calls x).2.1.length ≤ p.stackless.capacity)) :
    p.handle grow call i = none := by
  obtain ⟨some, large⟩ := not_or.mp full
  rw [handle_eq found]
  exact if_pos (@Stackless.emplaceAll_moves F grow _ { p.stackless with moved := false } some large)

theorem left_perm (back : List (F × Int)) (x : F × Int) (todo : List (F × Int)) {k : Nat} :
    ((if (outcome call k x).1 = COR_END then back ++ (outcome call k x).2.1
        else (x.1, (outcome call k x).1) :: (back ++ (outcome call k x).2.1)) ++
      (left call (outcome call k x).2.2 todo ++ added call (outcome call k x).2.2 todo)).Perm
      (back ++ (left call k (x :: todo) ++ added call k (x :: todo))) := by
  rw [left, added]
  dsimp only
  have moved : ∀ new others rest : List (F × Int), (back ++ new ++ (others ++ rest)).Perm (back ++ (others ++ (new ++ rest))) := by
    intro new others rest
    rw [List.append_assoc]
    exact (List.perm_append_comm_assoc new others rest).append_left back
  split
  · exact moved _ _ _
  · rw [List.cons_append, List.cons_append]
    exact ((moved _ _ _).cons _).trans List.perm_middle.symm

/-- What the rounds leave, or that they come to a function without room. -/
theorem Pass.walk_spec {todo back : List (F × Int)} {p : Pass F} (shape : p.stackless.funcs = todo.reverse ++ back) :
    (Room call p.stackless.capacity p.stackless.funcs.length p.calls todo ∧ ∃ p', Pass.walk grow call todo.length p = some p' ∧
        p'.handled = p.handled ++ todo ∧
        p'.stackless.funcs.Perm (back ++ (left call p.calls todo ++ added call p.calls todo))) ∨
      ¬ Room call p.stackless.capacity p.stackless.funcs.length p.calls todo ∧ Pass.walk grow call todo.length p = none := by
  induction todo generalizing back p with
  | nil =>
    refine .inl ⟨trivial, p, rfl, (List.append_nil _).symm, ?_⟩
    rw [shape, left, added, List.append_nil, List.append_nil, List.reverse_nil, List.nil_append]
  | cons x todo ih =>
    rw [List.reverse_cons, List.append_assoc, List.singleton_append] at shape
    rw [List.length_cons, walk, Room]
    by_cases room : (outcome call p.calls x).2.1 = [] ∨
        p.stackless.funcs.length + (outcome call p.calls x).2.1.length ≤ p.stackless.capacity
    · obtain ⟨rest, handled, perm⟩ := @handle_room F call grow p todo.reverse back x shape room
      rw [List.length_reverse] at handled
      rw [handled, Option.bind_some]
      have size : (todo.reverse ++ rest).length =
          if (outcome call p.calls x).1 = COR_END then p.stackless.funcs.length + (outcome call p.calls x).2.1.length - 1
          else p.stackless.funcs.length + (outcome call p.calls x).2.1.length := by
        rw [shape, List.length_append, List.length_append, List.length_cons, perm.length_eq]
        split <;> simp only [List.length_append, List.length_cons] <;> omega
      rcases @ih rest ⟨⟨todo.reverse ++ rest, p.stackless.capacity, false⟩, (outcome call p.calls x).2.2, p.handled ++ [x]⟩ rfl with
        ⟨later, p', run, all, result⟩ | ⟨full, stuck⟩
      · dsimp only at later all result
        rw [size] at later
        refine .inl ⟨⟨room, later⟩, p', run, ?_, result.trans ?_⟩
        · rw [all, List.append_assoc, List.singleton_append]
        · exact (perm.append_right _).trans (left_perm back x todo)
      · dsimp only at full
        rw [size] at full
        exact .inr ⟨fun both => full both.2, stuck⟩
    · have found : p.stackless.funcs[todo.length]? = some x := by rw [shape]; simp
      rw [handle_full found room]
      exact .inr ⟨fun both => room both.1, rfl⟩

theorem left_eq_kept {todo : List (F × Int)} (counts : ∀ x ∈ todo, x.2 ≠ -2) (k : Nat) : left call k todo = kept call k todo := by
  induction todo generalizing k with
  | nil => rfl
  | cons x todo ih =>
    obtain ⟨here, later⟩ := List.forall_mem_cons.mp counts
    have ends : (outcome call k x).1 = COR_END ↔ 0 ≤ x.2 ∧ (outcome call k x).1 = COR_END := by
      refine ⟨fun last => ⟨?_, last⟩, And.right⟩
      by_contra waits
      rw [outcome, if_pos (Int.not_le.mp waits)] at last
      unfold COR_END at last
      dsimp only at last
      omega
    rw [left, kept]
    simp only [← ends, ih later]

theorem left_length_le (todo : List (F × Int)) (k : Nat) : (left call k todo).length ≤ (kept call k todo).length := by
  induction todo generalizing k with
  | nil => exact Nat.le_refl 0
  | cons x todo ih =>
    have next := ih (outcome call k x).2.2
    rw [left, kept]
    dsimp only
    split
    · split
      · exact next
      · exact Nat.le_succ_of_le next
    · rename_i goes
      rw [if_neg fun both => goes both.2]
      exact Nat.succ_le_succ next

/-- A counter of −2 is lost. -/
theorem left_length_lt {todo : List (F × Int)} {x : F × Int} (member : x ∈ todo) (counter : x.2 = -2) (k : Nat) :
    (left call k todo).length < (kept call k todo).length := by
  induction todo generalizing k with
  | nil => cases member
  | cons y todo ih =>
    rw [left, kept]
    dsimp only
    rcases List.mem_cons.mp member with rfl | later
    · have last : (outcome call k x).1 = COR_END := by
        rw [outcome, if_pos (by omega), counter]
        rfl
      rw [if_pos last, if_neg (by omega)]
      exact Nat.lt_succ_of_le (left_length_le todo _)
    · have next := ih later (outcome call k y).2.2
      split
      · split
        · exact next
        · exact Nat.lt_succ_of_lt next
      · rename_i goes
        rw [if_neg fun both => goes both.2]
        exact Nat.succ_lt_succ next

/-- Every function that is there is handled once, from the last to the first. Those that returned the end marker are
removed, and what was added is there, but was not handled. -/
def Stackless.Fair (grow : Nat → Nat) (call : Nat → F → Int → Call F) (s : Stackless F) : Prop :=
  ∃ p, s.runOnce grow call = some p ∧ p.handled = s.funcs.reverse ∧
    p.stackless.funcs.Perm (kept call 0 s.funcs.reverse ++ added call 0 s.funcs.reverse)

theorem Stackless.fair_iff (grow : Nat → Nat) (call : Nat → F → Int → Call F) (s : Stackless F) :
    s.Fair grow call ↔ (∀ x ∈ s.funcs, x.2 ≠ -2) ∧ Room call s.capacity s.funcs.length 0 s.funcs.reverse := by
  have shape : s.funcs = s.funcs.reverse.reverse ++ [] := by rw [List.reverse_reverse, List.append_nil]
  have walked := @Pass.walk_spec F call grow s.funcs.reverse [] { stackless := s } shape
  rw [List.length_reverse] at walked
  dsimp only at walked
  have counts : (∀ x ∈ s.funcs, x.2 ≠ -2) ↔ ∀ x ∈ s.funcs.reverse, x.2 ≠ -2 := by simp only [List.mem_reverse]
  rw [counts]
  rcases walked with ⟨room, p, run, handled, perm⟩ | ⟨full, stuck⟩
  · rw [List.nil_append] at handled perm
    constructor
    · rintro ⟨p', run', -, perm'⟩
      obtain rfl := Option.some.inj (run.symm.trans run')
      refine ⟨fun x member counter => ?_, room⟩
      have same := (perm.symm.trans perm').length_eq
      rw [List.length_append, List.length_append] at same
      have less := @left_length_lt F call _ x member counter 0
      omega
    · rintro ⟨counts, -⟩
      exact ⟨p, run, handled, (left_eq_kept counts 0) ▸ perm⟩
  · refine iff_of_false ?_ fun both => full both.2
    rintro ⟨p, run, -⟩
    exact absurd (stuck.symm.trans run) (by simp)

/-- A function that waits for two passes is removed in the first one, and a function cannot add one to a full vector. -/
theorem Stackless.not_fair :
    ¬ (⟨[((), -2)], 1, false⟩ : Stackless Unit).Fair (2 * ·) (fun _ _ _ => .returns 0) ∧
      ¬ (⟨[((), 0)], 1, false⟩ : Stackless Unit).Fair (2 * ·) (fun _ _ _ => .add (some ()) (.returns 0)) := by
  constructor
  · intro fair
    exact ((fair_iff _ _ _).mp fair).1 ((), -2) List.mem_cons_self rfl
  · intro fair
    rcases ((fair_iff _ _ _).mp fair).2.1 with none | room
    · exact absurd none (by decide)
    · exact absurd room (by decide)

end

end Xxlib.Uv3
