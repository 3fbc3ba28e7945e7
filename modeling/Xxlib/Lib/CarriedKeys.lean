import Mathlib.Data.Finset.Max
import Mathlib.Data.Finset.Range

/-! Keys that are put together from a name and what was left over.

A key that was there before is left over, and comes in front of the next name; else nothing is left over. Whether
the keys are just the names depends on which names are repeated, and on what comes after them.
-/

set_option autoImplicit false

namespace Xxlib.Lib

variable {α : Type} {n : Nat} {name carry : Nat → List α}

/-- `carry i` is left over in front of `name i`. -/
structure Carries (n : Nat) (name carry : Nat → List α) : Prop where
  zero : carry 0 = []
  seen : ∀ i < n, ∀ j < i, carry j ++ name j = carry i ++ name i → carry (i + 1) = carry i ++ name i
  unseen : ∀ i < n, (∀ j < i, carry j ++ name j ≠ carry i ++ name i) → carry (i + 1) = []

/-- The keys are the names, and where a name is given once, so is the key. -/
structure Separated (n : Nat) (name carry : Nat → List α) : Prop where
  named : ∀ i < n, ∃ m < n, name m = carry i ++ name i
  keyed : ∀ m < n, ∃ i < n, carry i ++ name i = name m
  once : ∀ m < n, (∀ j < n, name j = name m → j = m) → ∀ j < n, carry j ++ name j = name m → carry m ++ name m = name m → j = m

/-- A repeated name is followed by empty names only, and by these only if one came before it. -/
def RepeatsLast (n : Nat) (name : Nat → List α) : Prop :=
  ∀ i < n, name i ≠ [] → (∃ j < i, name j = name i) →
    (∀ t < n, i < t → name t = []) ∧ (i + 1 < n → ∃ j < i, name j = [])

section
variable (carries : Carries n name carry)
include carries

/-- Empty names change nothing in what is left over. -/
theorem Carries.stays {s t : Nat} (inside : t ≤ n) (later : s < t) (left : carry (s + 1) = carry s ++ name s)
    (empty : ∀ r, s < r → r < t → name r = []) : carry t = carry s ++ name s := by
  induction t with
  | zero => exact absurd later (Nat.not_lt_zero s)
  | succ t ih =>
    rcases Nat.lt_or_eq_of_le (Nat.le_of_lt_succ later) with before | rfl
    · have here := ih (Nat.le_of_succ_le inside) before fun r after below => empty r after (Nat.lt_succ_of_lt below)
      have same : carry t ++ name t = carry s ++ name s := by
        rw [here, empty t before (Nat.lt_succ_self t), List.append_nil]
      rw [carries.seen t inside s before same.symm, same]
    · exact left

/-- The next name that is not empty is put behind what is left over. -/
theorem Carries.next {s t : Nat} (inside : t < n) (later : s < t) (left : carry (s + 1) = carry s ++ name s)
    (named : name t ≠ []) : ∃ r < n, carry r = carry s ++ name s ∧ name r ≠ [] := by
  induction t using Nat.strong_induction_on with
  | _ t ih =>
    by_cases empty : ∀ r, s < r → r < t → name r = []
    · exact ⟨t, inside, carries.stays (Nat.le_of_lt inside) later left empty, named⟩
    · simp only [not_forall] at empty
      obtain ⟨r, after, before, named'⟩ := empty
      exact ih r before (Nat.lt_trans before inside) after named'

/-- Nothing is left over in front of a name that is not empty. -/
theorem Separated.no_carry (separated : Separated n name carry) {j : Nat} (inside : j < n) (named : name j ≠ []) :
    carry j = [] := by
  classical
  by_contra left
  -- among all such places, one whose key is the longest
  let places := (Finset.range n).filter fun i => carry i ≠ [] ∧ name i ≠ []
  have some' : places.Nonempty := ⟨j, Finset.mem_filter.mpr ⟨Finset.mem_range.mpr inside, left, named⟩⟩
  obtain ⟨i, member, longest⟩ := places.exists_max_image (fun i => (carry i ++ name i).length) some'
  obtain ⟨inside, left, named⟩ := Finset.mem_filter.mp member
  have inside := Finset.mem_range.mp inside
  have shorter : ∀ t < n, carry t ≠ [] → name t ≠ [] → (carry t ++ name t).length ≤ (carry i ++ name i).length :=
    fun t below left' named' => longest t (Finset.mem_filter.mpr ⟨Finset.mem_range.mpr below, left', named'⟩)
  have solid : carry i ++ name i ≠ [] := fun empty => left (List.append_eq_nil_iff.mp empty).1
  have positive := List.length_pos_iff.mpr left
  -- a name that is this key has nothing in front of it
  have bare : ∀ m < n, name m = carry i ++ name i → carry m = [] ∧ m ≠ i := by
    intro m below same
    constructor
    · by_contra left'
      have longer := shorter m below left' (same ▸ solid)
      have positive' := List.length_pos_iff.mpr left'
      rw [List.length_append, same] at longer
      omega
    · rintro rfl
      have lengths := congrArg List.length same
      rw [List.length_append] at lengths
      omega
  -- after the key has come twice, it is left over, and no name may follow
  have clash : ∀ p q r : Nat, p < q → q < r → r < n → carry p ++ name p = carry i ++ name i → carry q ++ name q = carry i ++ name i →
      name r ≠ [] → False := by
    intro p q r first second below key key' named'
    have again := carries.seen q (Nat.lt_trans second below) p first (key.trans key'.symm)
    obtain ⟨t, below', carried, named''⟩ := carries.next below second again named'
    rw [key'] at carried
    have longer := shorter t below' (carried ▸ solid) named''
    have positive' := List.length_pos_iff.mpr named''
    rw [List.length_append, carried] at longer
    omega
  obtain ⟨m, below, same⟩ := separated.named i inside
  obtain ⟨free, apart⟩ := bare m below same
  have key : carry m ++ name m = carry i ++ name i := by rw [free, List.nil_append, same]
  by_cases single : ∀ t < n, name t = name m → t = m
  · exact apart (separated.once m below single i inside same.symm (key.trans same.symm)).symm
  · simp only [not_forall] at single
    obtain ⟨m', below', same', different⟩ := single
    have same' := same'.trans same
    obtain ⟨free', apart'⟩ := bare m' below' same'
    have key' : carry m' ++ name m' = carry i ++ name i := by rw [free', List.nil_append, same']
    have named₁ : name m ≠ [] := same ▸ solid
    have named₂ : name m' ≠ [] := same' ▸ solid
    have order : i < m ∧ m < m' ∨ i < m' ∧ m' < m ∨ m < i ∧ i < m' ∨ m' < i ∧ i < m ∨ m < m' ∧ m' < i ∨ m' < m ∧ m < i := by
      omega
    rcases order with ⟨p, q⟩ | ⟨p, q⟩ | ⟨p, q⟩ | ⟨p, q⟩ | ⟨p, q⟩ | ⟨p, q⟩
    · exact clash i m m' p q below' rfl key named₂
    · exact clash i m' m p q below rfl key' named₁
    · exact clash m i m' p q below' key rfl named₂
    · exact clash m' i m p q below key' rfl named₁
    · exact clash m m' i p q inside key key' named
    · exact clash m' m i p q inside key' key named

theorem Separated.repeatsLast (separated : Separated n name carry) : RepeatsLast n name := by
  rintro i inside named ⟨j, before, same⟩
  have free := separated.no_carry carries inside named
  have free' := separated.no_carry carries (Nat.lt_trans before inside) (same ▸ named)
  have key : carry i ++ name i = name i := by rw [free, List.nil_append]
  have again := carries.seen i inside j before (by rw [free', key, List.nil_append, same])
  have after : ∀ t < n, i < t → name t = [] := by
    intro t below later
    by_contra named'
    obtain ⟨r, below', carried, named''⟩ := carries.next below later again named'
    rw [separated.no_carry carries below' named'', key] at carried
    exact named carried.symm
  refine ⟨after, fun more => ?_⟩
  obtain ⟨q, below, key'⟩ := separated.keyed (i + 1) more
  rw [after (i + 1) more (Nat.lt_succ_self i)] at key'
  obtain ⟨carried, empty⟩ := List.append_eq_nil_iff.mp key'
  rcases Nat.lt_trichotomy q i with less | rfl | later
  · exact ⟨q, less, empty⟩
  · exact absurd empty named
  · have stays := carries.stays (Nat.le_of_lt below) later again fun r after' before' =>
      after r (Nat.lt_trans before' below) after'
    rw [carried, key] at stays
    exact absurd stays.symm named

/-- Before a name is repeated, nothing is left over. -/
theorem Carries.free {i : Nat} (inside : i ≤ n) (fresh : ∀ r < i, name r ≠ [] → ∀ j < r, name j ≠ name r) : carry i = [] := by
  induction i using Nat.strong_induction_on with
  | _ i ih =>
    cases i with
    | zero => exact carries.zero
    | succ i =>
      have earlier : ∀ j ≤ i, carry j = [] := fun j below =>
        ih j (Nat.lt_succ_of_le below) (Nat.le_trans (Nat.le_succ_of_le below) inside) fun r before =>
          fresh r (Nat.lt_of_lt_of_le before (Nat.le_succ_of_le below))
      have here := earlier i (Nat.le_refl i)
      by_cases empty : name i = []
      · by_cases again : ∃ j < i, carry j ++ name j = carry i ++ name i
        · obtain ⟨j, before, same⟩ := again
          rw [carries.seen i inside j before same, here, empty, List.append_nil]
        · simp only [not_exists, not_and] at again
          exact carries.unseen i inside again
      · apply carries.unseen i inside
        intro j before same
        rw [here, earlier j (Nat.le_of_lt before), List.nil_append, List.nil_append] at same
        exact fresh i (Nat.lt_succ_self i) empty j before same

theorem RepeatsLast.separated (repeats : RepeatsLast n name) : Separated n name carry := by
  by_cases clean : ∃ r, r + 1 < n ∧ name r ≠ [] ∧ ∃ j < r, name j = name r
  · obtain ⟨r, more, named, j, before, same⟩ := clean
    have below : r < n := Nat.lt_of_succ_lt more
    obtain ⟨after, earlier⟩ := repeats r below named ⟨j, before, same⟩
    obtain ⟨e, before', empty⟩ := earlier more
    have free : ∀ i ≤ r, carry i = [] := by
      intro i upTo
      refine carries.free (Nat.le_of_lt (Nat.lt_of_le_of_lt upTo below)) fun r' less named' j' before' same' => ?_
      exact named ((repeats r' (by omega) named' ⟨j', before', same'⟩).1 r below (by omega))
    have front : ∀ i ≤ r, carry i ++ name i = name i := fun i upTo => by rw [free i upTo, List.nil_append]
    have again : carry (r + 1) = carry r ++ name r := by
      apply carries.seen r below j before
      rw [front j (Nat.le_of_lt before), front r (Nat.le_refl r), same]
    have back : ∀ i < n, r < i → carry i ++ name i = name r := by
      intro i inside later
      rw [carries.stays (Nat.le_of_lt inside) later again fun t after' before => after t (Nat.lt_trans before inside) after',
        after i inside later, List.append_nil, front r (Nat.le_refl r)]
    refine ⟨fun i inside => ?_, fun m inside => ?_, fun m inside single i inside' key _ => ?_⟩
    · rcases Nat.lt_or_ge r i with later | upTo
      · exact ⟨r, below, (back i inside later).symm⟩
      · exact ⟨i, inside, (front i upTo).symm⟩
    · rcases Nat.lt_or_ge r m with later | upTo
      · exact ⟨e, Nat.lt_trans before' below, by rw [front e (Nat.le_of_lt before'), empty, after m inside later]⟩
      · exact ⟨m, inside, front m upTo⟩
    · rcases Nat.lt_or_ge r i with later | upTo
      · -- the repeated name is not one that is given once
        rw [back i inside' later] at key
        have first := single j (Nat.lt_trans before below) (same.trans key)
        have second := single r below key
        omega
      · rw [front i upTo] at key
        exact single i inside' key
  · have free : ∀ i < n, carry i = [] := by
      intro i inside
      refine carries.free (Nat.le_of_lt inside) fun r below named j before same => clean ⟨r, by omega, named, j, before, same⟩
    refine ⟨fun i inside => ⟨i, inside, ?_⟩, fun m inside => ⟨m, inside, ?_⟩, fun m inside single j below key _ => ?_⟩
    · rw [free i inside, List.nil_append]
    · rw [free m inside, List.nil_append]
    · rw [free j below, List.nil_append] at key
      exact single j below key

omit carries in
/-- A name that is given once is its own key. -/
theorem Separated.key_eq (separated : Separated n name carry) (carries : Carries n name carry) {m : Nat} (inside : m < n)
    (single : ∀ j < n, name j = name m → j = m) : carry m ++ name m = name m := by
  by_cases empty : name m = []
  · obtain ⟨i, below, key⟩ := separated.keyed m inside
    rw [empty] at key
    have same := single i below ((List.append_eq_nil_iff.mp key).2.trans empty.symm)
    rw [← same, key, same, empty]
  · rw [separated.no_carry carries inside empty, List.nil_append]

/-- The keys are the names, if and only if a repeated name is the last. -/
theorem Carries.separated_iff : Separated n name carry ↔ RepeatsLast n name :=
  ⟨fun separated => separated.repeatsLast carries, fun repeats => repeats.separated carries⟩

end

end Xxlib.Lib
