import Xxlib.Lib.SwapRemove

/-! The lists in which a `UvLoop` and a `UvTcpListener` keep their objects (`test_uv_4/xx_uv.cpp`).

A constructor that throws does so before the object is added, and leaves nothing behind. Objects have numbers, in the
order of their creation.
-/

set_option autoImplicit false

namespace Xxlib.Uv4

open Lib

inductive HandleKind where
  | tcpListener
  | tcpPeer (listener : Nat)
  | tcpClient
  | udpListener
  | udpClient
  | timer
  | async
  deriving DecidableEq

inductive Registry where
  | tcpListeners
  | peers (listener : Nat)
  | tcpClients
  | udpListeners
  | udpClients
  | timers
  | asyncs
  deriving DecidableEq

/-- The list that an object of the kind is in. -/
def HandleKind.registry : HandleKind → Registry
  | .tcpListener => .tcpListeners
  | .tcpPeer listener => .peers listener
  | .tcpClient => .tcpClients
  | .udpListener => .udpListeners
  | .udpClient => .udpClients
  | .timer => .timers
  | .async => .asyncs

structure Registries where
  created : Nat := 0
  kind : Nat → Option HandleKind := fun _ => none
  objects : Registry → List Nat := fun _ => []
  indexAtContainer : Nat → Nat := fun _ => 0

namespace Registries

/-- `index_at_container = container.dataLen; container.Add(this);` -/
def add (s : Registries) (k : HandleKind) : Registries where
  created := s.created + 1
  kind := Function.update s.kind s.created (some k)
  objects := Function.update s.objects k.registry (s.objects k.registry ++ [s.created])
  indexAtContainer := Function.update s.indexAtContainer s.created (s.objects k.registry).length

/-- A listener creates its peers. -/
def create (s : Registries) : HandleKind → Option Registries
  | .tcpPeer listener => if s.kind listener = some .tcpListener then some (s.add (.tcpPeer listener)) else none
  | k => some (s.add k)

def forget (s : Registries) (x : Nat) : Registries := { s with kind := Function.update s.kind x none }

/-- `container[container.dataLen - 1]->index_at_container = index_at_container;` and
`container.SwapRemoveAt(index_at_container);` -/
def swapRemoveSelf (s : Registries) (x : Nat) (registry : Registry) : Option Registries :=
  match (s.objects registry)[(s.objects registry).length - 1]? with
  | none => none
  | some last => some { s.forget x with
      indexAtContainer := Function.update s.indexAtContainer last (s.indexAtContainer x)
      objects := Function.update s.objects registry (swapRemove (s.objects registry) (s.indexAtContainer x)) }

/-- `container.RemoveAt(index_at_container);` -/
def removeSelf (s : Registries) (x : Nat) (registry : Registry) : Option Registries :=
  if s.indexAtContainer x < (s.objects registry).length then
    some { s.forget x with
      objects := Function.update s.objects registry ((s.objects registry).eraseIdx (s.indexAtContainer x)) }
  else none

/-- The destructors of all but a listener. -/
def destroy (s : Registries) (x : Nat) : HandleKind → Option Registries
  | .udpClient => s.removeSelf x .udpClients
  | k => s.swapRemoveSelf x k.registry

/-- `peers.ForEachRevert` -/
def destroyPeers (s : Registries) : List Nat → Option Registries
  | [] => some s
  | x :: xs =>
      match s.kind x with
      | none => none
      | some k =>
          match s.destroy x k with
          | none => none
          | some s => s.destroyPeers xs

def release (s : Registries) (x : Nat) : Option Registries :=
  match s.kind x with
  | none => none
  -- the listener releases its peers, and does not leave its own list
  | some .tcpListener => (s.destroyPeers (s.objects (.peers x)).reverse).map fun s => s.forget x
  | some k => s.destroy x k

inductive Act where
  | create (k : HandleKind)
  | release (x : Nat)

def step (s : Registries) : Act → Option Registries
  | .create k => s.create k
  | .release x => s.release x

inductive Run (guard : Registries → Act → Prop) : Registries → Prop where
  | fresh : Run guard {}
  | step {s s' : Registries} (act : Act) (before : Run guard s) (meets : guard s act) (steps : s.step act = some s') :
      Run guard s'

/-- Each list has exactly the living objects of its kind, each of them once and at the place that it knows. -/
structure Exact (s : Registries) : Prop where
  members : ∀ registry x, x ∈ s.objects registry ↔ ∃ k, s.kind x = some k ∧ k.registry = registry
  once : ∀ registry, (s.objects registry).Nodup
  places : ∀ registry i x, (s.objects registry)[i]? = some x → s.indexAtContainer x = i

/-- No listener is released, and a UDP client only if it is the last of its list. -/
def Safe (s : Registries) : Act → Prop
  | .create _ => True
  | .release x => s.kind x ≠ some .tcpListener ∧
      (s.kind x = some .udpClient → (s.objects .udpClients).getLast? = some x)

instance (s : Registries) (act : Act) : Decidable (s.Safe act) :=
  match act with
  | .create _ => inferInstanceAs (Decidable True)
  | .release _ => inferInstanceAs (Decidable (_ ∧ _))

/-! ## Steps -/

/-- The lists of living objects, and that numbers are given once. -/
structure Inv (s : Registries) : Prop where
  members : ∀ registry x, x ∈ s.objects registry ↔ ∃ k, s.kind x = some k ∧ k.registry = registry
  indexed : ∀ registry, Indexed (s.objects registry) s.indexAtContainer
  old : ∀ x k, s.kind x = some k → x < s.created

section
variable {s s' : Registries} {x : Nat} {k : HandleKind}

theorem Inv.exact (inv : Inv s) : Exact s := ⟨inv.members, fun registry => (inv.indexed registry).nodup, inv.indexed⟩

/-- A living object is in one list, at its place. -/
theorem Inv.place (inv : Inv s) (alive : s.kind x = some k) :
    (s.objects k.registry)[s.indexAtContainer x]? = some x := by
  obtain ⟨i, found⟩ := List.mem_iff_getElem?.mp ((inv.members k.registry x).mpr ⟨k, alive, rfl⟩)
  rw [inv.indexed k.registry i x found]
  exact found

theorem Inv.registry_eq (inv : Inv s) (alive : s.kind x = some k) {registry : Registry}
    (member : x ∈ s.objects registry) :
    registry = k.registry := by
  obtain ⟨other, alive', rfl⟩ := (inv.members registry x).mp member
  rw [Option.some.inj (alive.symm.trans alive')]

theorem Inv.add (inv : Inv s) (k : HandleKind) : Inv (s.add k) := by
  have fresh : s.kind s.created = none := by
    cases alive : s.kind s.created with
    | none => rfl
    | some k => exact absurd (inv.old _ _ alive) (Nat.lt_irrefl _)
  have absent : ∀ registry, s.created ∉ s.objects registry := by
    intro registry member
    obtain ⟨k, alive, -⟩ := (inv.members registry _).mp member
    rw [fresh] at alive
    cases alive
  have living : ∀ x, (s.add k).kind x = if x = s.created then some k else s.kind x :=
    fun x => Function.update_apply _ _ _ _
  have lists : ∀ registry, (s.add k).objects registry =
      if registry = k.registry then s.objects k.registry ++ [s.created] else s.objects registry :=
    fun registry => Function.update_apply _ _ _ _
  constructor
  case members =>
    intro registry x
    rw [lists, living]
    by_cases new : x = s.created
    · subst new
      rw [if_pos rfl]
      constructor
      · intro member
        split at member
        next same => exact ⟨k, rfl, same.symm⟩
        next => exact absurd member (absent registry)
      · rintro ⟨_, ⟨⟩, rfl⟩
        rw [if_pos rfl]
        exact List.mem_append_right _ List.mem_cons_self
    · rw [if_neg new, ← inv.members]
      split
      next same => rw [same, List.mem_append, List.mem_singleton, or_iff_left new]
      next => exact Iff.rfl
  case indexed =>
    intro registry
    rw [lists]
    split
    next => exact (inv.indexed k.registry).concat (absent _)
    next =>
      refine (inv.indexed registry).congr fun y member => Function.update_of_ne ?_ _ _
      rintro rfl
      exact absent registry member
  case old =>
    intro x other alive
    rw [living] at alive
    split at alive
    next same =>
      rw [same]
      exact Nat.lt_succ_self _
    next => exact Nat.lt_succ_of_lt (inv.old x other alive)

/-- An object has left its list, and the others of that list know their places. -/
theorem Inv.removed (inv : Inv s) (alive : s.kind x = some k) {objects : List Nat} {index : Nat → Nat}
    (members : ∀ y, y ∈ objects ↔ y ∈ s.objects k.registry ∧ y ≠ x) (indexed : Indexed objects index)
    (others : ∀ y, y ∉ s.objects k.registry → index y = s.indexAtContainer y) :
    Inv { s.forget x with indexAtContainer := index, objects := Function.update s.objects k.registry objects } := by
  have living : ∀ y, (s.forget x).kind y = if y = x then none else s.kind y := fun y => Function.update_apply _ _ _ _
  constructor
  case members =>
    intro registry y
    dsimp only
    rw [living, Function.update_apply]
    by_cases gone : y = x
    · subst gone
      rw [if_pos rfl]
      constructor
      · intro member
        split at member
        next => exact absurd rfl ((members y).mp member).2
        next other => exact absurd (inv.registry_eq alive member) other
      · rintro ⟨_, ⟨⟩, _⟩
    · rw [if_neg gone, ← inv.members]
      split
      next same => rw [members, same, and_iff_left gone]
      next => exact Iff.rfl
  case indexed =>
    intro registry
    dsimp only
    rw [Function.update_apply]
    split
    next => exact indexed
    next other =>
      refine (inv.indexed registry).congr fun y member => others y fun inside => other ?_
      obtain ⟨k', alive', same⟩ := (inv.members _ y).mp inside
      rw [inv.registry_eq alive' member, same]
  case old =>
    intro y other alive'
    have alive' : (s.forget x).kind y = some other := alive'
    rw [living] at alive'
    split at alive'
    next => cases alive'
    next => exact inv.old y other alive'

theorem Inv.swapRemoveSelf (inv : Inv s) (alive : s.kind x = some k) (steps : s.swapRemoveSelf x k.registry = some s') :
    Inv s' := by
  have found := inv.place alive
  have inside := (List.getElem?_eq_some_iff.mp found).1
  unfold Registries.swapRemoveSelf at steps
  split at steps
  · cases steps
  next last end' =>
    cases steps
    refine inv.removed alive (fun y => (inv.indexed k.registry).mem_swapRemove found)
      ((inv.indexed k.registry).swapRemove inside end') fun y outside => Function.update_of_ne ?_ _ _
    rintro rfl
    exact outside (List.mem_of_getElem? end')

/-- What is behind the removed object moves, and only what is behind it. -/
theorem Inv.removeSelf_iff (inv : Inv s) (alive : s.kind x = some .udpClient)
    (steps : s.removeSelf x .udpClients = some s') :
    ((s.objects .udpClients).getLast? = some x → Inv s') ∧
      (Exact s' → (s.objects .udpClients).getLast? = some x) := by
  have found : (s.objects .udpClients)[s.indexAtContainer x]? = some x := inv.place alive
  have indexed := inv.indexed .udpClients
  unfold Registries.removeSelf at steps
  split at steps
  next inside =>
    cases steps
    rw [List.getLast?_eq_getElem?]
    constructor
    · intro last
      have place := indexed _ x last
      have kept := indexed.swapRemove inside last
      rw [Function.update_eq_self] at kept
      rw [eraseIdx_last (by omega)]
      exact inv.removed alive (fun y => indexed.mem_swapRemove found) kept fun _ _ => rfl
    · intro exact'
      by_contra other
      have next : s.indexAtContainer x + 1 < (s.objects .udpClients).length := by
        by_contra beyond
        refine other ?_
        rw [show (s.objects .udpClients).length - 1 = s.indexAtContainer x by omega]
        exact found
      obtain ⟨y, behind⟩ : ∃ y, (s.objects .udpClients)[s.indexAtContainer x + 1]? = some y :=
        ⟨_, List.getElem?_eq_getElem next⟩
      have before := indexed _ y behind
      have after := exact'.places .udpClients (s.indexAtContainer x) y (by
        dsimp only
        rw [Function.update_self, List.getElem?_eraseIdx_of_ge (Nat.le_refl _)]
        exact behind)
      dsimp only [forget] at after
      omega
  next => cases steps

/-- A destructor changes one list, and ends the life of one object. -/
theorem destroy_frame (steps : s.destroy x k = some s') :
    (∀ registry, registry ≠ k.registry → s'.objects registry = s.objects registry) ∧
      s'.kind = Function.update s.kind x none := by
  have swapped : s.swapRemoveSelf x k.registry = some s' →
      (∀ registry, registry ≠ k.registry → s'.objects registry = s.objects registry) ∧
        s'.kind = Function.update s.kind x none := by
    intro steps
    unfold Registries.swapRemoveSelf at steps
    split at steps
    · cases steps
    · cases steps
      exact ⟨fun registry other => Function.update_of_ne other _ _, rfl⟩
  cases k with
  | udpClient =>
    have steps : s.removeSelf x .udpClients = some s' := steps
    unfold removeSelf at steps
    split at steps
    · cases steps
      exact ⟨fun registry other => Function.update_of_ne other _ _, rfl⟩
    · cases steps
  | tcpListener | tcpPeer | tcpClient | udpListener | timer | async => exact swapped steps

/-- The list of listeners is not touched while peers are released. -/
theorem destroyPeers_tcpListeners {xs : List Nat}
    (peers : ∀ x ∈ xs, ∀ k, s.kind x = some k → k.registry ≠ .tcpListeners) (steps : s.destroyPeers xs = some s') :
    s'.objects .tcpListeners = s.objects .tcpListeners := by
  induction xs generalizing s with
  | nil =>
    cases steps
    rfl
  | cons x xs ih =>
    unfold destroyPeers at steps
    split at steps
    · cases steps
    next k alive =>
      split at steps
      · cases steps
      next s₁ first =>
        obtain ⟨lists, kinds⟩ := destroy_frame first
        rw [ih (fun y member k' alive' => ?_) steps, lists _ (peers x List.mem_cons_self k alive).symm]
        rw [kinds, Function.update_apply] at alive'
        split at alive'
        · cases alive'
        · exact peers y (List.mem_cons_of_mem _ member) k' alive'

/-- A listener that is gone is still in the list. -/
theorem Inv.listener_stays (inv : Inv s) (alive : s.kind x = some .tcpListener) (steps : s.release x = some s') :
    ¬ Exact s' := by
  intro exact'
  unfold release at steps
  rw [alive] at steps
  obtain ⟨s₁, destroyed, rfl⟩ := Option.map_eq_some_iff.mp steps
  have same := destroyPeers_tcpListeners (fun y member k' alive' => ?_) destroyed
  · have listed : x ∈ s.objects .tcpListeners := (inv.members .tcpListeners x).mpr ⟨_, alive, rfl⟩
    obtain ⟨k', living, -⟩ := (exact'.members .tcpListeners x).mp (same ▸ listed)
    have gone : (s₁.forget x).kind x = none := Function.update_self _ _ _
    rw [gone] at living
    cases living
  · rw [← inv.registry_eq alive' (List.mem_reverse.mp member)]
    nofun

theorem Inv.release_iff (inv : Inv s) (steps : s.release x = some s') :
    (s.Safe (.release x) → Inv s') ∧ (Exact s' → s.Safe (.release x)) := by
  cases alive : s.kind x with
  | none =>
    unfold release at steps
    rw [alive] at steps
    cases steps
  | some k =>
    have safe : s.Safe (.release x) ↔ k ≠ .tcpListener ∧
        (k = .udpClient → (s.objects .udpClients).getLast? = some x) := by
      simp only [Safe, alive, ne_eq, Option.some.injEq]
    rw [safe]
    have plain : k ≠ .tcpListener → k ≠ .udpClient → s.swapRemoveSelf x k.registry = some s' →
        (k ≠ .tcpListener ∧ (k = .udpClient → (s.objects .udpClients).getLast? = some x) → Inv s') ∧
          (Exact s' → k ≠ .tcpListener ∧ (k = .udpClient → (s.objects .udpClients).getLast? = some x)) :=
      fun other other' steps => ⟨fun _ => inv.swapRemoveSelf alive steps,
        fun _ => ⟨other, fun same => absurd same other'⟩⟩
    cases k with
    | tcpListener => exact ⟨fun both => absurd rfl both.1, fun exact' => absurd exact' (inv.listener_stays alive steps)⟩
    | udpClient =>
      unfold release at steps
      rw [alive] at steps
      obtain ⟨last, only⟩ := inv.removeSelf_iff alive steps
      exact ⟨fun both => last (both.2 rfl), fun exact' => ⟨nofun, fun _ => only exact'⟩⟩
    | tcpPeer | tcpClient | udpListener | timer | async =>
      unfold release at steps
      rw [alive] at steps
      exact plain nofun nofun steps

theorem Inv.step {act : Act} (inv : Inv s) (safe : s.Safe act) (steps : s.step act = some s') : Inv s' := by
  cases act with
  | create k =>
    have added : s' = s.add k := by
      cases k with
      | tcpPeer listener =>
        have steps : (if s.kind listener = some .tcpListener then some (s.add (.tcpPeer listener)) else none) = some s' :=
          steps
        split at steps
        · cases steps
          rfl
        · cases steps
      | tcpListener | tcpClient | udpListener | udpClient | timer | async =>
        cases steps
        rfl
    rw [added]
    exact inv.add k
  | release x => exact (inv.release_iff steps).1 safe

theorem inv_of_run (run : Run Safe s) : Inv s := by
  induction run with
  | fresh =>
    refine ⟨fun registry x => ⟨?_, ?_⟩, ?_, ?_⟩
    all_goals simp [Indexed]
  | step act before safe steps ih => exact ih.step safe steps

/-- As long as no listener is released, and a UDP client only if it is the last one, the lists are exact; any other release
leaves them inexact. -/
theorem run_exact (run : Run Safe s) :
    Exact s ∧ ∀ x s', s.release x = some s' → (Exact s' ↔ s.Safe (.release x)) := by
  have inv := inv_of_run run
  refine ⟨inv.exact, fun x s' steps => ?_⟩
  obtain ⟨keeps, needs⟩ := inv.release_iff steps
  exact ⟨needs, fun safe => (keeps safe).exact⟩

end

/-- Clients and timers that go in any order, and a UDP client that goes last. -/
theorem run_exact_timers : ∃ s, Exact s ∧ s.objects .timers = [4] ∧ s.objects .udpClients = [1] := by
  have run₁ := Run.step (.create .timer) (Run.fresh : Run Safe {}) trivial rfl
  have run₂ := Run.step (.create .udpClient) run₁ trivial rfl
  have run₃ := Run.step (.create .timer) run₂ trivial rfl
  have run₄ := Run.step (.create .udpClient) run₃ trivial rfl
  have run₅ := Run.step (.create .timer) run₄ trivial rfl
  have run₆ := Run.step (.release 0) run₅ (by decide) rfl
  have run₇ := Run.step (.release 2) run₆ (by decide) rfl
  have run₈ := Run.step (.release 3) run₇ (by decide) rfl
  exact ⟨_, (run_exact run₈).1, rfl, rfl⟩

/-- A released listener stays in the list, and a UDP client that is not the last one leaves the others at wrong
places. -/
theorem releases_inexact : (∃ s, Run (fun _ _ => True) s ∧ s.kind 0 = none ∧ s.objects .tcpListeners = [0] ∧ ¬ Exact s) ∧
    ∃ s, Run (fun _ _ => True) s ∧ s.objects .udpClients = [1] ∧ s.indexAtContainer 1 = 1 ∧ ¬ Exact s := by
  constructor
  · have run₁ := Run.step (.create .tcpListener) (Run.fresh : Run (fun _ _ => True) {}) trivial rfl
    have run₂ := Run.step (.release 0) run₁ trivial rfl
    refine ⟨_, run₂, rfl, rfl, fun exact' => ?_⟩
    obtain ⟨k, alive, -⟩ := (exact'.members .tcpListeners 0).mp List.mem_cons_self
    exact nomatch alive
  · have run₁ := Run.step (.create .udpClient) (Run.fresh : Run (fun _ _ => True) {}) trivial rfl
    have run₂ := Run.step (.create .udpClient) run₁ trivial rfl
    have run₃ := Run.step (.release 0) run₂ trivial rfl
    exact ⟨_, run₃, rfl, rfl, fun exact' => absurd (exact'.places .udpClients 0 1 rfl) (by decide)⟩

end Registries

end Xxlib.Uv4
