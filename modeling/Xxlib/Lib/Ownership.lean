import Mathlib.Data.Fintype.EquivFin
import Mathlib.Data.List.Count
import Xxlib.Lib.ObjectGraph

/-! Objects with counted owners.

An object is destroyed when its last owner goes. Owners are pointers outside of the heap, and the `edges` of living
objects. What holds itself in a cycle is never destroyed.
-/

set_option autoImplicit false

namespace Xxlib.Lib

section
variable {O : Type} (edges : O → List Nat)

/-- The object at `a` lives. -/
def Lives (heap : List (Option O)) (a : Nat) (o : O) : Prop := heap[a]? = some (some o)

/-- From a living object at `a` leads an edge to `b`. -/
def Owns (heap : List (Option O)) (a b : Nat) : Prop := ∃ o, Lives heap a o ∧ b ∈ edges o

/-- How many owners share the object at `a`. -/
def useCount (owners : List Nat) (heap : List (Option O)) (a : Nat) : Nat :=
  owners.count a + (heap.flatMap fun o => o.elim [] edges).count a

theorem countP_set_none {heap : List (Option O)} {a : Nat} {o : O} (alive : heap[a]? = some (some o)) :
    (heap.set a none).countP Option.isSome < heap.countP Option.isSome := by
  induction heap generalizing a with
  | nil => cases alive
  | cons x heap ih =>
    cases a with
    | zero =>
      cases alive
      simp
    | succ a =>
      have fewer := ih (a := a) alive
      rw [List.set_cons_succ, List.countP_cons, List.countP_cons]
      omega

/-- The pointers in `pending` go, one after the other. A destroyed object takes its edges along. -/
def release (owners : List Nat) (heap : List (Option O)) (pending : List Nat) : List (Option O) :=
  match pending with
  | [] => heap
  | a :: pending =>
      match _alive : heap[a]? with
      | some (some o) =>
          if useCount edges (pending ++ owners) heap a = 0 then
            release owners (heap.set a none) (edges o ++ pending)
          else release owners heap pending
      | _ => release owners heap pending
termination_by (heap.countP Option.isSome, pending.length)
decreasing_by
  · exact Prod.Lex.left _ _ (countP_set_none _alive)
  all_goals exact Prod.Lex.right _ (Nat.lt_succ_self _)

end

section
variable {O : Type} {edges : O → List Nat} {heap : List (Option O)} {owners pending : List Nat} {a b : Nat} {o : O}

theorem useCount_eq_zero : useCount edges owners heap a = 0 ↔ a ∉ owners ∧ ∀ c, ¬ Owns edges heap c a := by
  rw [useCount, Nat.add_eq_zero_iff, List.count_eq_zero, List.count_eq_zero]
  refine and_congr Iff.rfl ⟨?_, ?_⟩
  · rintro nowhere c ⟨o, alive, edge⟩
    exact nowhere (List.mem_flatMap.mpr ⟨some o, List.mem_of_getElem? alive, edge⟩)
  · intro nobody member
    obtain ⟨x, inside, edge⟩ := List.mem_flatMap.mp member
    obtain ⟨c, found⟩ := List.getElem?_of_mem inside
    cases x with
    | none => cases edge
    | some o => exact nobody c ⟨o, found, edge⟩

theorem lives_set_none (apart : b ≠ a) : Lives (heap.set a none) b o ↔ Lives heap b o := by
  unfold Lives
  rw [List.getElem?_set_ne apart.symm]

theorem not_lives_set_none : ¬ Lives (heap.set a none) a o := by
  intro alive
  have inside := (List.getElem?_eq_some_iff.mp alive).1
  unfold Lives at alive
  rw [List.getElem?_set_self (by rwa [List.length_set] at inside)] at alive
  cases alive

/-- Pointers lead to living objects. What is in `D` lives only as long as somebody owns it. -/
structure Held (edges : O → List Nat) (D : Nat → Prop) (owners : List Nat) (heap : List (Option O)) : Prop where
  roots : ∀ a ∈ owners, ∃ o, Lives heap a o
  targets : ∀ a b, Owns edges heap a b → ∃ o, Lives heap b o
  owned : ∀ a o, D a → Lives heap a o → a ∈ owners ∨ ∃ c, Owns edges heap c a

variable {D : Nat → Prop}

/-- One pointer goes, and another owner is left. -/
theorem Held.drop (held : Held edges D (a :: owners) heap) (more : useCount edges owners heap a ≠ 0) :
    Held edges D owners heap := by
  refine ⟨fun b member => held.roots b (List.mem_cons_of_mem a member), held.targets, fun b o inside alive => ?_⟩
  rcases held.owned b o inside alive with outside | owner
  · rcases List.mem_cons.mp outside with rfl | rest
    · have some : ¬ (b ∉ owners ∧ ∀ c, ¬ Owns edges heap c b) := fun nobody => more (useCount_eq_zero.mpr nobody)
      by_cases member : b ∈ owners
      · exact .inl member
      · exact .inr (Classical.not_forall_not.mp fun none => some ⟨member, none⟩)
    · exact .inl rest
  · exact .inr owner

/-- The last pointer goes, and the object with it. -/
theorem Held.destroy (held : Held edges D (a :: owners) heap) (alive : Lives heap a o)
    (last : useCount edges owners heap a = 0) : Held edges D (edges o ++ owners) (heap.set a none) := by
  obtain ⟨outside, nobody⟩ := useCount_eq_zero.mp last
  have fewer : ∀ {c b}, Owns edges (heap.set a none) c b → Owns edges heap c b := by
    rintro c b ⟨x, lives, edge⟩
    have apart : c ≠ a := fun same => not_lives_set_none (same ▸ lives)
    exact ⟨x, (lives_set_none apart).mp lives, edge⟩
  constructor
  case roots =>
    intro b member
    have target : b ≠ a ∧ ∃ x, Lives heap b x := by
      rcases List.mem_append.mp member with edge | rest
      · have owns : Owns edges heap a b := ⟨o, alive, edge⟩
        exact ⟨fun same => nobody a (same ▸ owns), held.targets a b owns⟩
      · exact ⟨fun same => outside (same ▸ rest), held.roots b (List.mem_cons_of_mem a rest)⟩
    exact target.2.imp fun x => (lives_set_none target.1).mpr
  case targets =>
    intro c b owns
    have apart : b ≠ a := fun same => nobody c (same ▸ fewer owns)
    exact (held.targets c b (fewer owns)).imp fun x => (lives_set_none apart).mpr
  case owned =>
    intro b x inside lives
    have apart : b ≠ a := fun same => not_lives_set_none (same ▸ lives)
    rcases held.owned b x inside ((lives_set_none apart).mp lives) with member | ⟨c, y, owner, edge⟩
    · rcases List.mem_cons.mp member with same | rest
      · exact absurd same apart
      · exact .inl (List.mem_append_right _ rest)
    · by_cases gone : c = a
      · subst gone
        cases alive.symm.trans owner
        exact .inl (List.mem_append_left _ edge)
      · exact .inr ⟨c, y, (lives_set_none gone).mpr owner, edge⟩

theorem release_last (alive : Lives heap a o) (last : useCount edges (pending ++ owners) heap a = 0) :
    release edges owners heap (a :: pending) = release edges owners (heap.set a none) (edges o ++ pending) := by
  rw [release]
  split
  · next found =>
    cases found.symm.trans alive
    exact if_pos last
  · next other => exact absurd alive (other o)

theorem release_shared (more : useCount edges (pending ++ owners) heap a ≠ 0) :
    release edges owners heap (a :: pending) = release edges owners heap pending := by
  rw [release]
  split
  · exact if_neg more
  · rfl

/-- When all of `pending` has gone, what is left is held by the other owners. -/
theorem Held.release (held : Held edges D (pending ++ owners) heap) :
    Held edges D owners (release edges owners heap pending) ∧
      (release edges owners heap pending).length = heap.length ∧
      ∀ a o, Lives (release edges owners heap pending) a o → Lives heap a o := by
  induction heap, pending using release.induct edges owners with
  | case1 heap =>
    rw [Lib.release]
    exact ⟨held, rfl, fun _ _ alive => alive⟩
  | case2 heap a pending o alive last ih =>
    have less := held.destroy alive last
    obtain ⟨left, size, survive⟩ := ih (by rw [List.append_assoc]; exact less)
    rw [release_last alive last]
    refine ⟨left, size.trans List.length_set, fun b x lives => ?_⟩
    have lives := survive b x lives
    have apart : b ≠ a := fun same => not_lives_set_none (same ▸ lives)
    exact (lives_set_none apart).mp lives
  | case3 heap a pending o alive more ih =>
    rw [release_shared more]
    exact ih (held.drop more)
  | case4 heap a pending dead ih =>
    obtain ⟨o, alive⟩ := held.roots a List.mem_cons_self
    exact absurd alive (dead o)

/-! ## Reachable objects -/

/-- `a` is held by one of the owners, through others or directly. -/
def Reachable (edges : O → List Nat) (owners : List Nat) (heap : List (Option O)) (a : Nat) : Prop :=
  ∃ r ∈ owners, Relation.ReflTransGen (Owns edges heap) r a

theorem Held.lives (held : Held edges D owners heap) (reachable : Reachable edges owners heap a) :
    ∃ o, Lives heap a o := by
  obtain ⟨r, root, path⟩ := reachable
  cases path with
  | refl => exact held.roots a root
  | tail _ last => exact held.targets _ a last

/-- Without cycles among what is not reachable, nothing else lives. -/
theorem Held.reachable (held : Held edges D owners heap) (within : ∀ c a, Owns edges heap c a → D a → D c)
    (acyclic : ∀ a, D a → ¬ Reachable edges owners heap a → ¬ Relation.TransGen (Owns edges heap) a a)
    (inside : D a) (alive : Lives heap a o) : Reachable edges owners heap a := by
  -- who owns an object that is not reachable is not reachable either, and there are only so many objects
  let Lost : Fin heap.length → Fin heap.length → Prop := fun c b =>
    Owns edges heap c b ∧ D b ∧ ¬ Reachable edges owners heap b
  have finite : WellFounded (Relation.TransGen Lost) := by
    have : IsTrans _ (Relation.TransGen Lost) := ⟨fun _ _ _ => Relation.TransGen.trans⟩
    have : Std.Irrefl (Relation.TransGen Lost) := by
      refine ⟨fun b cycle => ?_⟩
      have lost : D b ∧ ¬ Reachable edges owners heap b := by
        cases cycle with
        | single last => exact last.2
        | tail _ last => exact last.2
      exact acyclic b lost.1 lost.2 (Relation.TransGen.lift Fin.val (fun _ _ step => step.1) _ _ cycle)
    exact Finite.wellFounded_of_trans_of_irrefl _
  have found : ∀ b : Fin heap.length, D b → (∃ x, Lives heap b x) → Reachable edges owners heap b := by
    intro b
    induction b using finite.induction with
    | h b ih =>
      rintro inside ⟨x, lives⟩
      rcases held.owned b x inside lives with root | ⟨c, owns⟩
      · exact ⟨b, root, .refl⟩
      · by_contra lost
        obtain ⟨y, owner, edge⟩ := owns
        have bound := (List.getElem?_eq_some_iff.mp owner).1
        have owns : Owns edges heap c b := ⟨y, owner, edge⟩
        obtain ⟨r, root, path⟩ := ih ⟨c, bound⟩ (.single ⟨owns, inside, lost⟩) (within c b owns inside) ⟨y, owner⟩
        exact lost ⟨r, root, path.tail owns⟩
  exact found ⟨a, (List.getElem?_eq_some_iff.mp alive).1⟩ inside ⟨o, alive⟩

/-! ## Survivors -/

section
variable {heap' : List (Option O)} (survive : ∀ a o, Lives heap' a o → Lives heap a o)
include survive

theorem owns_of_survivors (owns : Owns edges heap' a b) : Owns edges heap a b :=
  owns.imp fun o both => ⟨survive a o both.1, both.2⟩

/-- What hangs on an owner survives. -/
theorem Held.path (held : Held edges D owners heap') (root : a ∈ owners)
    (path : Relation.ReflTransGen (Owns edges heap) a b) :
    Relation.ReflTransGen (Owns edges heap') a b ∧ ∃ o, Lives heap' b o := by
  induction path with
  | refl => exact ⟨.refl, held.roots a root⟩
  | tail _ step ih =>
    obtain ⟨path, o, alive⟩ := ih
    obtain ⟨x, before, edge⟩ := step
    cases before.symm.trans (survive _ o alive)
    have owns : Owns edges heap' _ _ := ⟨_, alive, edge⟩
    exact ⟨path.tail owns, held.targets _ _ owns⟩

end

end

end Xxlib.Lib
