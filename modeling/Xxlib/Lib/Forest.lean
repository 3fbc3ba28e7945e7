import Mathlib.Data.List.Count
import Mathlib.Logic.Relation

/-! A forest that is given by the parents of its nodes, and how many of some nodes are above or below another. -/

set_option autoImplicit false

namespace Xxlib.Lib.Forest

open Relation

variable {T : Type} {parent : T → Option T} {ts : List T} {t p a : T}

def Above (parent : T → Option T) (t a : T) : Prop := TransGen (fun x y => parent x = some y) t a

/-- The parents of the nodes are nodes. -/
def Closed (parent : T → Option T) (ts : List T) : Prop := ∀ t ∈ ts, ∀ p, parent t = some p → p ∈ ts

def Acyclic (parent : T → Option T) (ts : List T) : Prop := ∀ t ∈ ts, ¬ Above parent t t

theorem above_iff (up : parent t = some p) : Above parent t a ↔ a = p ∨ Above parent p a := by
  rw [Above, TransGen.head'_iff]
  constructor
  · rintro ⟨b, step, rest⟩
    obtain rfl := Option.some.inj (up.symm.trans step)
    exact reflTransGen_iff_eq_or_transGen.mp rest
  · intro above
    exact ⟨p, up, reflTransGen_iff_eq_or_transGen.mpr above⟩

theorem not_above_root (root : parent t = none) : ¬ Above parent t a := by
  rw [Above, TransGen.head'_iff]
  rintro ⟨b, step, -⟩
  cases root.symm.trans step

theorem Closed.above (closed : Closed parent ts) (member : t ∈ ts) (above : Above parent t a) : a ∈ ts := by
  induction above with
  | single step => exact closed t member _ step
  | tail _ step ih => exact closed _ ih _ step

/-- With a rank that falls there are no cycles. -/
theorem Acyclic.of_rank {rank : T → Nat} (falls : ∀ t p, parent t = some p → rank p < rank t) : Acyclic parent ts := by
  intro t _ cycle
  have less : ∀ {a}, Above parent t a → rank a < rank t := by
    intro a above
    induction above with
    | single step => exact falls t _ step
    | tail _ step ih => exact Nat.lt_trans (falls _ _ step) ih
  exact Nat.lt_irrefl _ (less cycle)

/-- If one thing more has a property, more things of a list have it. -/
theorem countP_lt {P Q : T → Prop} [DecidablePred P] [DecidablePred Q] (weaker : ∀ a, P a → Q a) (member : t ∈ ts) (has : Q t)
    (lacks : ¬ P t) : ts.countP (P ·) < ts.countP (Q ·) := by
  obtain ⟨front, back, rfl⟩ := List.append_of_mem member
  have mono : ∀ l : List T, l.countP (P ·) ≤ l.countP (Q ·) := fun l =>
    List.countP_mono_left fun a _ holds => decide_eq_true (weaker a (of_decide_eq_true holds))
  have first := mono front
  have second := mono back
  rw [List.countP_append, List.countP_append, List.countP_cons_of_neg (by simpa using lacks), List.countP_cons_of_pos (by simpa using has)]
  omega

section
open Classical

/-- How many nodes are above this one. -/
noncomputable def depth (parent : T → Option T) (ts : List T) (t : T) : Nat := ts.countP fun a => decide (Above parent t a)

/-- How many nodes are below this one. -/
noncomputable def below (parent : T → Option T) (ts : List T) (a : T) : Nat := ts.countP fun t => decide (Above parent t a)

theorem depth_lt (closed : Closed parent ts) (acyclic : Acyclic parent ts) (member : t ∈ ts) (up : parent t = some p) :
    depth parent ts p < depth parent ts t :=
  countP_lt (fun _ above => (above_iff up).mpr (.inr above)) (closed t member p up) ((above_iff up).mpr (.inl rfl))
    (acyclic p (closed t member p up))

theorem depth_lt_length (acyclic : Acyclic parent ts) (member : t ∈ ts) : depth parent ts t < ts.length :=
  List.countP_lt_length_iff.mpr ⟨t, member, decide_eq_false (acyclic t member)⟩

/-- More nodes are below a parent than below its child. -/
theorem below_lt (acyclic : Acyclic parent ts) (member : t ∈ ts) (up : parent t = some p) :
    below parent ts t < below parent ts p :=
  countP_lt (fun _ above => TransGen.tail above up) member (TransGen.single up) (acyclic t member)

end

end Xxlib.Lib.Forest
