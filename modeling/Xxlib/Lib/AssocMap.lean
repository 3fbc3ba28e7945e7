import Mathlib.Data.List.Nodup
import Mathlib.Logic.Function.Basic

/-! Finite maps as lists of pairs, with keys compared by a given equivalence.

The order of the pairs carries no meaning: every operation respects permutation
of a list whose keys are pairwise distinct. The last part lists the values of a
partial function of the natural numbers.
-/

set_option autoImplicit false

namespace Xxlib.Lib.AssocMap

section
variable {K V : Type} (same : K → K → Bool)

def contains (m : List (K × V)) (k : K) : Bool := m.any fun e => same e.1 k

def lookup (m : List (K × V)) (k : K) : Option V := (m.find? fun e => same e.1 k).map Prod.snd

def erase (m : List (K × V)) (k : K) : List (K × V) := m.filter fun e => !same e.1 k

/-- Give the key a new value; the key itself stays as it was stored. -/
def replace (m : List (K × V)) (k : K) (v : V) : List (K × V) :=
  m.map fun e => if same e.1 k then (e.1, v) else e

def put (m : List (K × V)) (k : K) (v : V) (override : Bool) : List (K × V) :=
  if contains same m k then (if override then replace same m k v else m) else (k, v) :: m

def Distinct (m : List (K × V)) : Prop := m.Pairwise fun a b => same a.1 b.1 = false

/-- What the laws below need of the comparison. -/
structure Comparison : Prop where
  symm : ∀ {a b}, same a b = true → same b a = true
  trans : ∀ {a b c}, same a b = true → same b c = true → same a c = true

variable {same} {m n : List (K × V)} {k : K} {e : K × V}

theorem contains_iff : contains same m k = true ↔ ∃ e ∈ m, same e.1 k = true := List.any_eq_true

theorem contains_perm (perm : m.Perm n) : contains same m k = contains same n k := by
  rw [Bool.eq_iff_iff, contains_iff, contains_iff]
  simp only [perm.mem_iff]

theorem Distinct.perm (keys : Comparison same)
    (distinct : Distinct same m) (perm : m.Perm n) : Distinct same n := by
  refine (perm.pairwise_iff ?_).mp distinct
  intro a b apart
  rw [Bool.eq_false_iff] at apart ⊢
  exact fun equal => apart (keys.symm equal)

theorem lookup_eq_some_of_mem (keys : Comparison same)
    (distinct : Distinct same m) (member : e ∈ m) (equal : same e.1 k = true) :
    lookup same m k = some e.2 := by
  induction m with
  | nil => cases member
  | cons head rest ih =>
    obtain ⟨apart, distinct⟩ := List.pairwise_cons.mp distinct
    rcases List.mem_cons.mp member with rfl | member
    · simp [lookup, equal]
    · have other : same head.1 k = false := by
        rw [Bool.eq_false_iff]
        intro first
        have := apart e member
        rw [keys.trans first (keys.symm equal)] at this
        cases this
      simpa [lookup, List.find?_cons, other] using ih distinct member

theorem lookup_eq_none (absent : contains same m k = false) : lookup same m k = none := by
  unfold lookup
  rw [Option.map_eq_none_iff, List.find?_eq_none]
  intro e member equal
  have := contains_iff.mpr ⟨e, member, equal⟩
  rw [absent] at this
  cases this

theorem erase_of_absent (absent : contains same m k = false) : erase same m k = m := by
  unfold erase
  rw [List.filter_eq_self]
  intro e member
  rw [Bool.not_eq_true', Bool.eq_false_iff]
  intro equal
  rw [contains_iff.mpr ⟨e, member, equal⟩] at absent
  cases absent

theorem replace_of_absent {v : V} (absent : contains same m k = false) : replace same m k v = m := by
  unfold replace
  rw [List.map_congr_left (g := id), List.map_id]
  intro e member
  rw [if_neg, id]
  intro equal
  rw [contains_iff.mpr ⟨e, member, equal⟩] at absent
  cases absent

/-- The rest of a list of distinct keys does not hold the key of its first element. -/
theorem Distinct.tail_absent (keys : Comparison same)
    (distinct : Distinct same (e :: m)) (equal : same e.1 k = true) : contains same m k = false := by
  rw [Bool.eq_false_iff]
  intro present
  obtain ⟨f, member, other⟩ := contains_iff.mp present
  have apart := (List.pairwise_cons.mp distinct).1 f member
  rw [keys.trans equal (keys.symm other)] at apart
  cases apart

theorem erase_contains (keys : Comparison same) {l : K} (equal : same l k = true) : contains same (erase same m k) l = false := by
  rw [Bool.eq_false_iff]
  intro present
  obtain ⟨e, member, other⟩ := contains_iff.mp present
  have kept := (List.mem_filter.mp member).2
  rw [keys.trans other equal] at kept
  cases kept

theorem erase_cons (keys : Comparison same) (distinct : Distinct same (e :: m)) (equal : same e.1 k = true) :
    erase same (e :: m) k = m := by
  have absent := distinct.tail_absent keys equal
  have rest : erase same (e :: m) k = erase same m k := by simp [erase, equal]
  rw [rest, erase_of_absent absent]

theorem replace_cons (keys : Comparison same) (distinct : Distinct same (e :: m)) (equal : same e.1 k = true) (v : V) :
    replace same (e :: m) k v = (e.1, v) :: m := by
  have absent := distinct.tail_absent keys equal
  have rest : replace same (e :: m) k v = (e.1, v) :: replace same m k v := by simp [replace, equal]
  rw [rest, replace_of_absent absent]

theorem lookup_perm (keys : Comparison same) (distinct : Distinct same m) (perm : m.Perm n) :
    lookup same m k = lookup same n k := by
  cases present : contains same m k with
  | false =>
    rw [lookup_eq_none present, lookup_eq_none ((contains_perm perm).symm.trans present)]
  | true =>
    obtain ⟨e, member, equal⟩ := contains_iff.mp present
    rw [lookup_eq_some_of_mem keys distinct member equal,
      lookup_eq_some_of_mem keys (distinct.perm keys perm) (perm.mem_iff.mp member) equal]

theorem put_absent {v : V} {override : Bool} (absent : contains same m k = false) :
    put same m k v override = (k, v) :: m := by
  simp [put, absent]

theorem put_present {v : V} {override : Bool} (present : contains same m k = true) :
    put same m k v override = if override then replace same m k v else m := by
  simp [put, present]

end

/-! ## Keys that are compared by equality -/

section
variable {K V : Type} [BEq K] [LawfulBEq K] {m : List (K × V)} {k : K} {v : V}

theorem Comparison.beq : Comparison fun a b : K => a == b := by
  constructor
  · intro a b same
    rw [eq_of_beq same]
    exact beq_self_eq_true b
  · intro a b c first second
    rw [eq_of_beq first]
    exact second

theorem mem_of_lookup (found : lookup (fun a b => a == b) m k = some v) : (k, v) ∈ m := by
  obtain ⟨entry, first, rfl⟩ := Option.map_eq_some_iff.mp found
  have holds := List.find?_some first
  have key : entry.1 = k := eq_of_beq holds
  rw [← key]
  exact List.mem_of_find?_eq_some first

theorem distinct_of_nodup (nodup : (m.map Prod.fst).Nodup) : Distinct (fun a b => a == b) m := by
  refine (List.pairwise_map.mp nodup).imp fun apart => ?_
  rwa [beq_eq_false_iff_ne]

theorem lookup_eq_some_iff (nodup : (m.map Prod.fst).Nodup) : lookup (fun a b => a == b) m k = some v ↔ (k, v) ∈ m :=
  ⟨mem_of_lookup, fun member => lookup_eq_some_of_mem .beq (distinct_of_nodup nodup) member (beq_self_eq_true k)⟩

end

section
variable {K V : Type} [DecidableEq K] [BEq K] [LawfulBEq K] {m : List (K × V)} {k : K} {v : V}

theorem lookup_cons : lookup (fun a b => a == b) ((k, v) :: m) = Function.update (lookup (fun a b => a == b) m) k (some v) := by
  funext l
  unfold lookup
  by_cases same : k = l
  · subst same
    simp
  · rw [Function.update_of_ne (Ne.symm same)]
    simp [same]

/-- A new value is found where there was one. -/
theorem lookup_replace (m : List (K × V)) (k : K) (v : V) (l : K) : lookup (fun a b => a == b) (replace (fun a b => a == b) m k v) l =
    if l = k then (lookup (fun a b => a == b) m k).map fun _ => v else lookup (fun a b => a == b) m l := by
  induction m with
  | nil => exact (ite_self _).symm
  | cons e m ih =>
    obtain ⟨a, w⟩ := e
    have head : replace (fun a b => a == b) ((a, w) :: m) k v =
        (a, if a = k then v else w) :: replace (fun a b => a == b) m k v := by
      by_cases this : a = k <;> simp [replace, this]
    rw [head, lookup_cons, lookup_cons]
    by_cases here : l = a
    · subst here
      rw [Function.update_self, Function.update_self]
      by_cases same : l = k
      · subst same
        rw [if_pos rfl, if_pos rfl, Function.update_self]
        rfl
      · rw [if_neg same, if_neg same]
    · rw [Function.update_of_ne here, Function.update_of_ne here, ih]
      by_cases same : l = k
      · subst same
        rw [if_pos rfl, if_pos rfl, Function.update_of_ne here]
      · rw [if_neg same, if_neg same]

theorem lookup_replace_present (present : contains (fun a b => a == b) m k = true) :
    lookup (fun a b => a == b) (replace (fun a b => a == b) m k v) = Function.update (lookup (fun a b => a == b) m) k (some v) := by
  obtain ⟨e, member, equal⟩ := contains_iff.mp present
  obtain ⟨w, found⟩ : ∃ w, lookup (fun a b => a == b) m k = some w := by
    rw [lookup]
    cases first : m.find? fun e => e.1 == k with
    | none => exact absurd equal (List.find?_eq_none.mp first e member)
    | some e => exact ⟨e.2, rfl⟩
  funext l
  rw [lookup_replace, found]
  by_cases same : l = k
  · subst same
    rw [if_pos rfl, Function.update_self]
    rfl
  · rw [if_neg same, Function.update_of_ne same]

end

/-! ## The values of a partial function -/

section
variable {α : Type} {f : Nat → Option α} {n i : Nat} {a : α}

def listed (f : Nat → Option α) (n : Nat) : List α := (List.range n).filterMap f

theorem mem_listed : a ∈ listed f n ↔ ∃ i < n, f i = some a := by simp [listed]

theorem listed_extend (none' : f n = none) : listed f (n + 1) = listed f n := by
  simp [listed, List.range_succ, none']

theorem listed_pairwise {r : α → α → Prop}
    (apart : ∀ {i j a b}, f i = some a → f j = some b → i ≠ j → r a b) : (listed f n).Pairwise r := by
  unfold listed
  rw [List.pairwise_filterMap]
  refine List.nodup_range.imp ?_
  intro i j different a foundA b foundB
  exact apart foundA foundB different

theorem filterMap_update_of_notMem {l : List Nat} (outside : i ∉ l) (b : Option α) :
    l.filterMap (Function.update f i b) = l.filterMap f := by
  apply List.filterMap_congr
  intro j member
  exact Function.update_of_ne (ne_of_mem_of_not_mem member outside) _ _

/-- Defining the function at one more place lists one more value. -/
theorem listed_update (bound : i < n) (none' : f i = none) :
    (listed (Function.update f i (some a)) n).Perm (a :: listed f n) := by
  unfold listed
  obtain ⟨front, back, shape⟩ := List.append_of_mem (List.mem_range.mpr bound)
  have nodup : (front ++ i :: back).Nodup := shape ▸ List.nodup_range
  have split := List.nodup_append.mp nodup
  have outFront : i ∉ front := fun member => split.2.2 i member i (by simp) rfl
  have outBack : i ∉ back := (List.nodup_cons.mp split.2.1).1
  rw [shape, List.filterMap_append, List.filterMap_append, List.filterMap_cons, List.filterMap_cons,
    filterMap_update_of_notMem outFront, filterMap_update_of_notMem outBack, Function.update_self, none']
  exact List.perm_middle

/-- Undefining the function at one place takes its value away. -/
theorem listed_remove (bound : i < n) (some' : f i = some a) :
    (listed f n).Perm (a :: listed (Function.update f i none) n) := by
  have back : f = Function.update (Function.update f i none) i (some a) := by
    rw [Function.update_idem, ← some', Function.update_eq_self]
  have perm := listed_update (f := Function.update f i none) (a := a) bound (by simp)
  rwa [← back] at perm

end

end Xxlib.Lib.AssocMap
