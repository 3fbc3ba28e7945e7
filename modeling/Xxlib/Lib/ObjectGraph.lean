import Mathlib.Data.List.Forall2
import Mathlib.Data.List.Nodup
import Mathlib.Logic.Function.Basic
import Mathlib.Logic.Relation

/-! Copies of object graphs.

While a graph is copied, a log pairs each object that was met with its copy. Addresses are numbers,
and a pointer is an address or none.
-/

set_option autoImplicit false

namespace Xxlib.Lib

/-- An object, the offset in the stream where its content begins, and its copy. -/
structure Copied where
  source : Nat
  offset : Nat
  copy : Nat

def Paired (log : List Copied) (a b : Nat) : Prop := ∃ e ∈ log, e.source = a ∧ e.copy = b

section
variable {α β : Type} {f : α → β} {l : List α}

theorem eq_of_pairwise_ne (distinct : l.Pairwise fun a b => f a ≠ f b) {a b : α} (left : a ∈ l) (right : b ∈ l)
    (same : f a = f b) : a = b :=
  List.inj_on_of_nodup_map (List.pairwise_map.mpr distinct) left right same

end

theorem forall₂_exists {α β : Type} {R : α → β → Prop} {xs : List α} {ys : List β} (same : List.Forall₂ R xs ys) {x : α}
    (member : x ∈ xs) : ∃ y ∈ ys, R x y := by
  induction same with
  | nil => cases member
  | cons first _ ih =>
    rcases List.mem_cons.mp member with rfl | later
    · exact ⟨_, List.mem_cons_self, first⟩
    · obtain ⟨y, found, related⟩ := ih later
      exact ⟨y, List.mem_cons_of_mem _ found, related⟩

/-- The same pointer, where `pairs` relates the objects. -/
inductive SamePtr (pairs : Nat → Nat → Prop) : Option Nat → Option Nat → Prop where
  | null : SamePtr pairs none none
  | ptr {a b : Nat} (related : pairs a b) : SamePtr pairs (some a) (some b)

theorem SamePtr.mono {pairs pairs' : Nat → Nat → Prop} (more : ∀ a b, pairs a b → pairs' a b) {v v' : Option Nat}
    (same : SamePtr pairs v v') : SamePtr pairs' v v' := by
  cases same with
  | null => exact .null
  | ptr related => exact .ptr (more _ _ related)

/-- `pairs` takes the objects behind `v` to those behind `v'`, which are the same up to addresses. -/
structure Isomorphism {O : Type} (Same : (Nat → Nat → Prop) → O → O → Prop) (heap heap' : List O) (v v' : Option Nat)
    (pairs : Nat → Nat → Prop) : Prop where
  functional : ∀ a b b', pairs a b → pairs a b' → b = b'
  injective : ∀ a a' b, pairs a b → pairs a' b → a = a'
  objects : ∀ a b, pairs a b → ∃ x y, heap[a]? = some x ∧ heap'[b]? = some y ∧ Same pairs x y
  root : SamePtr pairs v v'

section
variable {log : List Copied}

theorem Paired.functional (sources : log.Pairwise fun e f => e.source ≠ f.source) {a b b' : Nat}
    (first : Paired log a b) (second : Paired log a b') : b = b' := by
  obtain ⟨e, member, rfl, rfl⟩ := first
  obtain ⟨f, member', same, rfl⟩ := second
  rw [eq_of_pairwise_ne sources member member' same.symm]

theorem Paired.injective (copies : log.Pairwise fun e f => e.copy ≠ f.copy) {a a' b : Nat}
    (first : Paired log a b) (second : Paired log a' b) : a = a' := by
  obtain ⟨e, member, rfl, rfl⟩ := first
  obtain ⟨f, member', rfl, same⟩ := second
  rw [eq_of_pairwise_ne copies member member' same.symm]

theorem Paired.mono {more : List Copied} {a b : Nat} (paired : Paired log a b) : Paired (more ++ log) a b := by
  obtain ⟨e, member, same⟩ := paired
  exact ⟨e, List.mem_append_right more member, same⟩

end

/-! ## Logs -/

/-- What the writer has met is what the log says, and nothing is in the log twice. -/
structure Recorded (table : Nat → Option Nat) (log : List Copied) : Prop where
  met : ∀ a offset, table a = some offset → ∃ e ∈ log, e.source = a ∧ e.offset = offset
  unmet : ∀ e ∈ log, table e.source = some e.offset
  sources : log.Pairwise fun e f => e.source ≠ f.source
  copies : log.Pairwise fun e f => e.copy ≠ f.copy
  offsets : log.Pairwise fun e f => e.offset ≠ f.offset

theorem Recorded.nil : Recorded (fun _ => none) [] :=
  ⟨fun _ _ never => (nomatch never), fun _ member => absurd member List.not_mem_nil, .nil, .nil, .nil⟩

/-- An object is met that has not been met before. -/
theorem Recorded.cons {table : Nat → Option Nat} {log : List Copied} (recorded : Recorded table log) {a offset b : Nat}
    (unknown : table a = none) (later : ∀ e ∈ log, offset ≠ e.offset) (fresh : ∀ e ∈ log, b ≠ e.copy) :
    Recorded (Function.update table a (some offset)) (⟨a, offset, b⟩ :: log) := by
  have apart : ∀ e ∈ log, a ≠ e.source := by
    rintro e member rfl
    rw [recorded.unmet e member] at unknown
    cases unknown
  refine ⟨fun i o found => ?_, fun e member => ?_, List.pairwise_cons.mpr ⟨apart, recorded.sources⟩,
    List.pairwise_cons.mpr ⟨fresh, recorded.copies⟩, List.pairwise_cons.mpr ⟨later, recorded.offsets⟩⟩
  · by_cases here : i = a
    · subst here
      rw [Function.update_self] at found
      cases found
      exact ⟨_, List.mem_cons_self, rfl, rfl⟩
    · rw [Function.update_of_ne here] at found
      obtain ⟨e, member, same⟩ := recorded.met i o found
      exact ⟨e, List.mem_cons_of_mem _ member, same⟩
  · rcases List.mem_cons.mp member with rfl | old
    · exact Function.update_self _ _ _
    · exact (Function.update_of_ne (apart e old).symm _ _).trans (recorded.unmet e old)

/-- `a` is where `v` points to, or behind it. -/
def Reaches (edge : Nat → Nat → Prop) (v : Option Nat) (a : Nat) : Prop :=
  ∃ r, v = some r ∧ Relation.ReflTransGen edge r a

theorem Reaches.next {edge : Nat → Nat → Prop} {v : Option Nat} {a b : Nat} (reaches : Reaches edge v a)
    (step : edge a b) : Reaches edge v b := by
  obtain ⟨r, root, path⟩ := reaches
  exact ⟨r, root, path.tail step⟩

/-! ## Paths

Paths go from the one graph into the other as their edges do. -/

section
variable {edge edge' pairs : Nat → Nat → Prop} (next : ∀ a b a', pairs a b → edge a a' → ∃ b', pairs a' b' ∧ edge' b b')
include next

theorem path_paired {a b a' : Nat} (related : pairs a b) (path : Relation.ReflTransGen edge a a') :
    ∃ b', pairs a' b' ∧ Relation.ReflTransGen edge' b b' := by
  induction path with
  | refl => exact ⟨b, related, .refl⟩
  | tail _ step ih =>
    obtain ⟨c, related, path⟩ := ih
    obtain ⟨b', related', step'⟩ := next _ _ _ related step
    exact ⟨b', related', path.tail step'⟩

theorem longPath_paired {a b a' : Nat} (related : pairs a b) (path : Relation.TransGen edge a a') :
    ∃ b', pairs a' b' ∧ Relation.TransGen edge' b b' := by
  induction path with
  | single step =>
    obtain ⟨b', related', step'⟩ := next _ _ _ related step
    exact ⟨b', related', .single step'⟩
  | tail _ step ih =>
    obtain ⟨c, related, path⟩ := ih
    obtain ⟨b', related', step'⟩ := next _ _ _ related step
    exact ⟨b', related', path.tail step'⟩

theorem Reaches.paired {v v' : Option Nat} {a : Nat} (root : SamePtr pairs v v') (reaches : Reaches edge v a) :
    ∃ b, pairs a b ∧ Reaches edge' v' b := by
  obtain ⟨r, rfl, path⟩ := reaches
  cases root with
  | ptr related =>
    obtain ⟨b, related', path'⟩ := path_paired next related path
    exact ⟨b, related', _, rfl, path'⟩

end

end Xxlib.Lib
