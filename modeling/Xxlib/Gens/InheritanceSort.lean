import Mathlib.Data.List.Perm.Basic
import Mathlib.Data.List.Pairwise
import Mathlib.Logic.Function.Basic
import Xxlib.Lib.Forest

/-! `_SortByInheritRelation` (`gens/gen_library/Exts.cs`).

There are fewer types in a list than an `int` can count. A dictionary fails for a second entry and for one that is not
there.
-/

set_option autoImplicit false

namespace Xxlib.Gens

open Lib Forest

/-- In the dictionary `parent` can be null, in the list it is the type itself. -/
structure TypeParentCount (P : Type) where
  parent : P
  totalChildLevel : Nat := 0

def TypeParentCount.compareTo {P : Type} (this other : TypeParentCount P) : Int :=
  -(match compare this.totalChildLevel other.totalChildLevel with
    | .lt => -1
    | .eq => 0
    | .gt => 1)

section
variable {T : Type} [DecidableEq T] (baseType : T → Option T) (object valueType : T)

def hasBaseType (t : T) : Bool :=
  match baseType t with
  | none => false
  | some base => base ≠ object ∧ base ≠ valueType

/-- `t._HasBaseType() ? t.BaseType : null` -/
def parentOf (t : T) : Option T := if hasBaseType baseType object valueType t then baseType t else none

abbrev ParentDict (T : Type) := T → Option (TypeParentCount (Option T))

def ParentDict.add (t : T) (entry : TypeParentCount (Option T)) (dict : ParentDict T) : Option (ParentDict T) :=
  if (dict t).isSome then none else some (Function.update dict t (some entry))

/-- The first loop. -/
def parents (ts : List T) : Option (ParentDict T) :=
  ts.foldlM (fun dict t => dict.add t { parent := parentOf baseType object valueType t }) (fun _ => none)

/-- The inner loop, for so many rounds. -/
def climb : Nat → ParentDict T → Option T → Option (ParentDict T)
  | 0, _, _ => none
  | _ + 1, dict, none => some dict
  | rounds + 1, dict, some parent =>
      (dict parent).bind fun entry =>
        climb rounds (Function.update dict parent (some { entry with totalChildLevel := entry.totalChildLevel + 1 })) entry.parent

/-- The second loop. -/
def countChildren (rounds : Nat) (ts : List T) (dict : ParentDict T) : Option (ParentDict T) :=
  ts.foldlM (fun dict t => (dict t).bind fun entry => climb rounds dict entry.parent) dict

/-- `List.Sort` is a parameter. -/
def sortByInheritRelation (sort : List (TypeParentCount T) → List (TypeParentCount T)) (rounds : Nat) (ts : List T) :
    Option (List T) :=
  (parents baseType object valueType ts).bind fun dict =>
    (countChildren rounds ts dict).bind fun dict =>
      (ts.mapM fun t => (dict t).map fun entry => { parent := t, totalChildLevel := entry.totalChildLevel }).map fun list =>
        (sort list).map TypeParentCount.parent

end

/-! ## The dictionary -/

section
variable {T : Type} [DecidableEq T] {parent : T → Option T} {ts : List T} {levels : T → Nat}

/-- The dictionary of some types, with their levels. -/
def table (parent : T → Option T) (ts : List T) (levels : T → Nat) : ParentDict T := fun t =>
  if t ∈ ts then some ⟨parent t, levels t⟩ else none

theorem table_add (xs : List T) (t : T) :
    Function.update (table parent xs fun _ => 0) t (some ⟨parent t, 0⟩) = table parent (xs ++ [t]) fun _ => 0 := by
  funext x
  by_cases here : x = t
  · rw [here, Function.update_self, table, if_pos (by simp)]
  · rw [Function.update_of_ne here, table, table]
    simp [here]

theorem table_increment {p : T} (member : p ∈ ts) :
    Function.update (table parent ts levels) p (some ⟨parent p, levels p + 1⟩) =
      table parent ts (Function.update levels p (levels p + 1)) := by
  funext x
  by_cases here : x = p
  · rw [here, Function.update_self, table, if_pos member, Function.update_self]
  · rw [Function.update_of_ne here, table, table, Function.update_of_ne here]

theorem parents_from (baseType : T → Option T) (object valueType : T) {xs : List T} (distinct : (xs ++ ts).Nodup) :
    ts.foldlM (fun dict t => dict.add t { parent := parentOf baseType object valueType t })
        (table (parentOf baseType object valueType) xs fun _ => 0) =
      some (table (parentOf baseType object valueType) (xs ++ ts) fun _ => 0) := by
  induction ts generalizing xs with
  | nil => rw [List.append_nil]; rfl
  | cons t ts ih =>
    have fresh : t ∉ xs := fun member => (List.nodup_append.mp distinct).2.2 t member t List.mem_cons_self rfl
    have absent : (table (parentOf baseType object valueType) xs (fun _ => 0) t).isSome = false := by
      rw [table, if_neg fresh]
      rfl
    have shape : xs ++ t :: ts = xs ++ [t] ++ ts := by rw [List.append_assoc, List.singleton_append]
    rw [List.foldlM_cons, ParentDict.add, absent, table_add, shape]
    exact ih (shape ▸ distinct)

theorem parents_table (baseType : T → Option T) (object valueType : T) (distinct : ts.Nodup) :
    parents baseType object valueType ts = some (table (parentOf baseType object valueType) ts fun _ => 0) :=
  @parents_from T _ ts baseType object valueType [] distinct

section
open Classical

/-- The inner loop counts a type for everything above it. -/
theorem climb_table (closed : Closed parent ts) (acyclic : Acyclic parent ts) {t : T} {rounds : Nat} (member : t ∈ ts)
    (enough : depth parent ts t < rounds) :
    climb rounds (table parent ts levels) (parent t) =
      some (table parent ts fun a => levels a + if Above parent t a then 1 else 0) := by
  induction rounds generalizing t levels with
  | zero => cases enough
  | succ rounds ih =>
    cases up : parent t with
    | none =>
      rw [climb]
      refine congrArg (fun f => some (table parent ts f)) (funext fun a => ?_)
      rw [if_neg (not_above_root up), Nat.add_zero]
    | some p =>
      have inside : p ∈ ts := closed t member p up
      have less := depth_lt closed acyclic member up
      have entry : table parent ts levels p = some ⟨parent p, levels p⟩ := if_pos inside
      rw [climb, entry, Option.bind_some]
      dsimp only
      rw [table_increment inside, ih inside (by omega)]
      refine congrArg (fun f => some (table parent ts f)) (funext fun a => ?_)
      rw [above_iff up]
      by_cases here : a = p
      · rw [here, Function.update_self, if_neg (acyclic p inside), if_pos (.inl rfl), Nat.add_zero]
      · rw [Function.update_of_ne here, or_iff_right here]

/-- The second loop counts the types below each one. -/
theorem countChildren_table (closed : Closed parent ts) (acyclic : Acyclic parent ts) {xs : List T} {rounds : Nat}
    (inside : ∀ t ∈ xs, t ∈ ts) (enough : ts.length ≤ rounds) :
    countChildren rounds xs (table parent ts levels) =
      some (table parent ts fun a => levels a + below parent xs a) := by
  induction xs generalizing levels with
  | nil => rfl
  | cons t xs ih =>
    obtain ⟨member, later⟩ := List.forall_mem_cons.mp inside
    have entry : table parent ts levels t = some ⟨parent t, levels t⟩ := if_pos member
    have fewer := depth_lt_length acyclic member
    rw [countChildren, List.foldlM_cons, entry, Option.bind_some, climb_table closed acyclic member (by omega)]
    refine (ih later).trans (congrArg (fun f => some (table parent ts f)) (funext fun a => ?_))
    rw [below, below, List.countP_cons]
    simp only [decide_eq_true_eq]
    omega

end

theorem mapM_some {α β : Type} {f : α → Option β} {g : α → β} {xs : List α} (gives : ∀ x ∈ xs, f x = some (g x)) :
    xs.mapM f = some (xs.map g) := by
  induction xs with
  | nil => rfl
  | cons x xs ih =>
    obtain ⟨here, later⟩ := List.forall_mem_cons.mp gives
    rw [List.mapM_cons, here, ih later]
    rfl

/-! ## Order -/

theorem compareTo_le_iff {P : Type} (a b : TypeParentCount P) : a.compareTo b ≤ 0 ↔ b.totalChildLevel ≤ a.totalChildLevel := by
  unfold TypeParentCount.compareTo
  cases order : compare a.totalChildLevel b.totalChildLevel with
  | lt => exact iff_of_false (by decide) (Nat.not_le_of_lt (Nat.compare_eq_lt.mp order))
  | eq => exact iff_of_true (by decide) (Nat.le_of_eq (Nat.compare_eq_eq.mp order).symm)
  | gt => exact iff_of_true (by decide) (Nat.le_of_lt (Nat.compare_eq_gt.mp order))

/-- What has a larger value stands before. -/
theorem idxOf_lt {f : T → Nat} {out : List T} (sorted : out.Pairwise fun x y => f y ≤ f x) {x y : T} (first : x ∈ out)
    (second : y ∈ out) (less : f y < f x) : out.idxOf x < out.idxOf y := by
  by_contra behind
  have different : out.idxOf y ≠ out.idxOf x := by
    intro same
    rw [(List.idxOf_inj second).mp same] at less
    exact Nat.lt_irrefl _ less
  have order := List.pairwise_iff_getElem.mp sorted _ _ (List.idxOf_lt_length_of_mem second) (List.idxOf_lt_length_of_mem first)
    (by omega)
  rw [List.getElem_idxOf, List.getElem_idxOf] at order
  exact Nat.not_le_of_lt less order

/-- Every type comes after its parent, whatever the sort does with equal levels. -/
theorem sortByInheritRelation_spec (baseType : T → Option T) (object valueType : T)
    (sort : List (TypeParentCount T) → List (TypeParentCount T)) (permutes : ∀ l, (sort l).Perm l)
    (ordered : ∀ l, (sort l).Pairwise fun a b => a.compareTo b ≤ 0) (ts : List T) (distinct : ts.Nodup)
    (closed : Closed (parentOf baseType object valueType) ts) (acyclic : Acyclic (parentOf baseType object valueType) ts)
    (rounds : Nat) (enough : ts.length ≤ rounds) :
    ∃ out, sortByInheritRelation baseType object valueType sort rounds ts = some out ∧ out.Perm ts ∧
      ∀ t ∈ ts, ∀ p, parentOf baseType object valueType t = some p → out.idxOf p < out.idxOf t := by
  generalize counted : ts.map (fun t => (⟨t, below (parentOf baseType object valueType) ts t⟩ : TypeParentCount T)) = list
  have dict := @countChildren_table T _ _ ts (fun _ => 0) closed acyclic ts rounds (fun _ member => member) enough
  have result : sortByInheritRelation baseType object valueType sort rounds ts =
      some ((sort list).map TypeParentCount.parent) := by
    rw [sortByInheritRelation, parents_table _ _ _ distinct, Option.bind_some, dict, Option.bind_some,
      @mapM_some _ _ _ (fun t => ⟨t, below (parentOf baseType object valueType) ts t⟩) ts fun t member => ?_, Option.map_some,
      counted]
    rw [table, if_pos member, Option.map_some, Nat.zero_add]
  have levels : ∀ a ∈ sort list, a.totalChildLevel = below (parentOf baseType object valueType) ts a.parent := by
    intro a member
    rw [(permutes list).mem_iff, ← counted, List.mem_map] at member
    obtain ⟨t, -, rfl⟩ := member
    rfl
  have perm : ((sort list).map TypeParentCount.parent).Perm ts := by
    have names : list.map TypeParentCount.parent = ts := by
      rw [← counted, List.map_map]
      exact List.map_id ts
    exact ((permutes list).map _).trans (.of_eq names)
  have sorted : ((sort list).map TypeParentCount.parent).Pairwise fun x y =>
      below (parentOf baseType object valueType) ts y ≤ below (parentOf baseType object valueType) ts x := by
    refine List.pairwise_map.mpr ((ordered list).imp_of_mem fun first second order => ?_)
    rw [← levels _ first, ← levels _ second]
    exact (compareTo_le_iff _ _).mp order
  exact ⟨_, result, perm, fun t member p up =>
    idxOf_lt sorted (perm.mem_iff.mpr (closed t member p up)) (perm.mem_iff.mpr member) (below_lt acyclic member up)⟩

/-- One sort that does what is asked. -/
theorem mergeSort_ordered {P : Type} (l : List (TypeParentCount P)) :
    (l.mergeSort fun a b => a.compareTo b ≤ 0).Pairwise fun a b => a.compareTo b ≤ 0 := by
  have sorted := @List.pairwise_mergeSort _ (fun a b : TypeParentCount P => decide (a.compareTo b ≤ 0))
    (fun a b c first second => by
      simp only [decide_eq_true_eq, compareTo_le_iff] at first second ⊢
      exact Nat.le_trans second first)
    (fun a b => by
      simp only [Bool.or_eq_true, decide_eq_true_eq, compareTo_le_iff]
      exact Nat.le_total _ _) l
  exact sorted.imp of_decide_eq_true

theorem acyclic_chain (ts : List Nat) : Acyclic (parentOf (fun t : Nat => some (t - 1)) 0 9) ts := by
  refine @Acyclic.of_rank Nat _ ts id fun t p up => ?_
  by_cases based : hasBaseType (fun t : Nat => some (t - 1)) 0 9 t
  · rw [parentOf, if_pos based] at up
    obtain rfl := Option.some.inj up
    have some : t - 1 ≠ 0 := (of_decide_eq_true based).1
    exact Nat.sub_lt (by omega) (by decide)
  · rw [parentOf, if_neg based] at up
    cases up

theorem sortByInheritRelation_spec_chain :
    ∃ out, sortByInheritRelation (fun t : Nat => some (t - 1)) 0 9 (·.mergeSort fun a b => a.compareTo b ≤ 0) 3 [3, 1, 2] = some out ∧
      out.Perm [3, 1, 2] ∧ ∀ t ∈ [3, 1, 2], ∀ p, parentOf (fun t : Nat => some (t - 1)) 0 9 t = some p → out.idxOf p < out.idxOf t :=
  sortByInheritRelation_spec (fun t : Nat => some (t - 1)) 0 9 (·.mergeSort fun a b => a.compareTo b ≤ 0)
    (fun l => List.mergeSort_perm l _) (fun l => mergeSort_ordered l) [3, 1, 2] (by decide)
    (show ∀ t ∈ [3, 1, 2], ∀ p ∈ parentOf (fun t : Nat => some (t - 1)) 0 9 t, p ∈ [3, 1, 2] by decide) (acyclic_chain _) 3 (by decide)

end

end Xxlib.Gens
