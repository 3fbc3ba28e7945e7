import Xxlib.Uv4.PtrReset

/-! The counts of `Ptr` over whole programs (`xx_mempool.hpp`). -/

set_option autoImplicit false

namespace Xxlib.Uv4

open Function (update update_self update_of_ne)
open Lib

namespace PtrHeap

/-- What holds between two calls. -/
structure Settled (h : PtrHeap) : Prop where
  counted : Counted h
  calm : ∀ a, h.status a = .live ∨ h.status a = .freed
  safe : ∀ {a}, 0 < h.count a → h.status a = .live
  touched : ∀ {a}, 0 < h.count a → h.held a = true

section
variable {h h' : PtrHeap} {a : Nat} {l q : PtrLoc}

theorem Settled.known (settled : Settled h) (alive : h.status a = .live) : a < h.made :=
  settled.counted.known (by rw [alive]; decide)

theorem Settled.mem_ptrs (settled : Settled h) (there : h.Exists l) : l ∈ h.ptrs :=
  mem_ptrs_of_exists (fun alive => settled.known alive) there

theorem Settled.not_endangered (settled : Settled h) : ¬∃ a, h.Endangered a := by
  rintro ⟨a, kind, pointed⟩
  rcases kind with kind | kind <;> rw [settled.safe pointed] at kind <;> cases kind

theorem Settled.points (settled : Settled h) (member : l ∈ h.ptrs) (points : h.pointer l = some a) :
    h.status a = .live := settled.safe (pointing_pos member points)

theorem Tracks.start (settled : Settled h) (there : h.Exists l) : Tracks h l h where
  exists_first := there
  known := fun alive => settled.known alive
  ptrs := rfl
  pointer _ := .inl rfl
  alive := id
  cleared changed := absurd rfl changed
  lost alive dead := absurd alive dead

/-- `Reset` between two calls. -/
theorem Settled.reset (settled : Settled h) (there : h.Exists l) :
    ∃ h', h.reset l = some h' ∧ Resets h [l] h' ∧ Tracks h l h' ∧ Settled h' := by
  rcases reset_spec settled.counted (settled.mem_ptrs there) with ⟨-, danger⟩ | ⟨h', reset, resets⟩
  · exact absurd danger settled.not_endangered
  have shrinks := resets.shrinks
  have tracks := resets.tracks (.start settled there) fun k only => .inl (List.mem_singleton.mp only)
  refine ⟨h', reset, resets, tracks, resets.counted, fun a => ?_, fun {a} pointed => ?_, fun {a} pointed => ?_⟩
  · rcases shrinks.status a with same | ⟨-, freed⟩
    · rw [same]
      exact settled.calm a
    · exact .inr freed
  · have before := settled.safe (pointed.trans_le (shrinks.count_le a))
    by_contra dead
    rw [resets.gone before dead] at pointed
    exact Nat.lt_irrefl 0 pointed
  · rw [shrinks.held]
    exact settled.touched (pointed.trans_le (shrinks.count_le a))

/-! ## Setting pointers -/

theorem count_point (distinct : h.ptrs.Nodup) (member : l ∈ h.ptrs) (null : h.pointer l = none) (b : Nat) :
    (h.point l (some a)).count b = h.count b + if a = b then 1 else 0 := by
  have changed : pointing h.ptrs (update h.pointer l (some a)) b + _ = pointing h.ptrs h.pointer b + _ :=
    pointing_update distinct member
  simp only [null, reduceCtorEq, if_false, Nat.add_zero, Option.some.injEq] at changed
  exact changed

theorem Exists.not_freed (there : h.Exists l) {b i : Nat} (freed : h.status b = .freed) :
    .field b i ≠ l := by
  rintro rfl
  rw [there.1] at freed
  cases freed

theorem count_point_self (distinct : h.ptrs.Nodup) (member : l ∈ h.ptrs) (null : h.pointer l = none) :
    (h.point l (some a)).count a = h.count a + 1 := by
  rw [count_point distinct member null, if_pos rfl]

theorem count_point_of_ne {b : Nat} (distinct : h.ptrs.Nodup) (member : l ∈ h.ptrs) (null : h.pointer l = none)
    (apart : b ≠ a) : (h.point l (some a)).count b = h.count b := by
  rw [count_point distinct member null, if_neg (Ne.symm apart), Nat.add_zero]

/-- A null `Ptr` gets an object. -/
theorem Counted.point (counted : Counted h) (member : l ∈ h.ptrs)
    (place : ∀ {b i}, h.status b = .freed → .field b i ≠ l) (null : h.pointer l = none)
    (running : h.status a ≠ .releasing) (used : h.status a ≠ .freed) (room : h.refs a + 1 < 2 ^ 32) :
    Counted (h.point l (some a)) := by
  have refs := counted.count running fun freed => absurd freed used
  have here : (h.point l (some a)).count a = h.count a + 1 := count_point_self counted.distinct member null
  have other : ∀ {b}, b ≠ a → (h.point l (some a)).count b = h.count b :=
    count_point_of_ne counted.distinct member null
  refine ⟨counted.distinct, counted.known, fun {b} running used => ?_, fun b => ?_, fun {b i} freed inside => ?_,
    fun {b} live owned => ?_⟩
  · by_cases same : b = a
    · subst same
      rw [here]
      simp only [PtrHeap.point, setRefs, update_self]
      omega
    · rw [other same] at used ⊢
      simp only [PtrHeap.point, setRefs, setPointer, update_of_ne same]
      exact counted.count running used
  · by_cases same : b = a
    · subst same
      omega
    · rw [other same]
      exact counted.small b
  · simp only [PtrHeap.point, setRefs, setPointer, update_of_ne (place freed)]
    exact counted.empty freed inside
  · by_cases same : b = a
    · subst same
      omega
    · rw [other same]
      simp only [PtrHeap.point, update_of_ne same] at owned
      exact counted.owned live owned

theorem point_touched (counted : Counted h) (member : l ∈ h.ptrs) (null : h.pointer l = none)
    (touched : ∀ {b}, 0 < h.count b → h.held b = true) {b : Nat} (pointed : 0 < (h.point l (some a)).count b) :
    (h.point l (some a)).held b = true := by
  by_cases same : b = a
  · simp [PtrHeap.point, same]
  · rw [count_point_of_ne counted.distinct member null same] at pointed
    simp only [PtrHeap.point, update_of_ne same]
    exact touched pointed

theorem Settled.point (settled : Settled h) (there : h.Exists l) (null : h.pointer l = none)
    (alive : h.status a = .live) (room : h.refs a + 1 < 2 ^ 32) : Settled (h.point l (some a)) := by
  have counted := settled.counted
  have member := settled.mem_ptrs there
  refine ⟨counted.point member there.not_freed null (by rw [alive]; decide) (by rw [alive]; decide) room, settled.calm,
    fun {b} pointed => ?_, fun pointed => point_touched counted member null settled.touched pointed⟩
  by_cases same : b = a
  · exact same ▸ alive
  · rw [count_point_of_ne counted.distinct member null same] at pointed
    exact settled.safe pointed

/-- Only pointers change, and every object keeps its number of them. -/
theorem Settled.recount (settled : Settled h) (made : h'.made = h.made) (fields : h'.fields = h.fields)
    (status : h'.status = h.status) (held : h'.held = h.held) (refs : h'.refs = h.refs) (distinct : h'.ptrs.Nodup)
    (counts : ∀ b, h'.count b = h.count b)
    (empty : ∀ {b i}, h.status b = .freed → i < h.fields b → h'.pointer (.field b i) = none) : Settled h' := by
  have counted := settled.counted
  refine ⟨⟨distinct, fun {b} used => ?_, fun {b} running used => ?_, fun b => ?_, fun {b i} freed inside => ?_,
    fun {b} live owned => ?_⟩, fun b => ?_, fun {b} pointed => ?_, fun {b} pointed => ?_⟩
  · rw [status] at used
    rw [made]
    exact counted.known used
  · rw [status] at running used
    rw [counts] at used ⊢
    rw [refs]
    exact counted.count running used
  · rw [counts]
    exact counted.small b
  · exact empty (status ▸ freed) (fields ▸ inside)
  · rw [counts]
    exact counted.owned (status ▸ live) (held ▸ owned)
  · rw [status]
    exact settled.calm b
  · rw [counts] at pointed
    rw [status]
    exact settled.safe pointed
  · rw [counts] at pointed
    rw [held]
    exact settled.touched pointed

/-- An object changes hands. -/
theorem Settled.moved (settled : Settled h) (there : h.Exists l) (source : q ∈ h.ptrs) (apart : q ≠ l)
    (null : h.pointer l = none) : Settled ((h.setPointer l (h.pointer q)).setPointer q none) := by
  have counted := settled.counted
  refine settled.recount rfl rfl rfl rfl rfl counted.distinct (fun b => ?_) fun {b i} freed inside => ?_
  · have first : pointing h.ptrs (update h.pointer l (h.pointer q)) b + _ = pointing h.ptrs h.pointer b + _ :=
      pointing_update counted.distinct (settled.mem_ptrs there)
    have second : pointing h.ptrs (update (update h.pointer l (h.pointer q)) q none) b + _ =
        pointing h.ptrs (update h.pointer l (h.pointer q)) b + _ := pointing_update counted.distinct source
    simp only [null, reduceCtorEq, if_false, update_of_ne apart] at first second
    show pointing h.ptrs (update (update h.pointer l (h.pointer q)) q none) b = pointing h.ptrs h.pointer b
    omega
  · by_cases same : .field b i = q
    · simp [setPointer, same]
    · simp only [setPointer, update_of_ne same, update_of_ne (there.not_freed freed)]
      exact counted.empty freed inside

/-! ## Variables and objects -/

/-- A variable that holds nothing yet. -/
def withVar (h : PtrHeap) (v : Nat) : PtrHeap := { h with vars := v :: h.vars }.setPointer (.var v) none

theorem Settled.withVar {v : Nat} (settled : Settled h) (new : v ∉ h.vars) : Settled (h.withVar v) := by
  have counted := settled.counted
  have outside : .var v ∉ h.ptrs := by
    intro inside
    simp [ptrs, members, new] at inside
  refine settled.recount rfl rfl rfl rfl rfl ?_ (fun b => ?_) fun {b i} freed inside => ?_
  · exact List.nodup_cons.mpr ⟨outside, counted.distinct⟩
  · have others : pointing h.ptrs (update h.pointer (.var v) none) b = pointing h.ptrs h.pointer b :=
      pointing_congr fun k member => update_of_ne (ne_of_mem_of_not_mem member outside) _ _
    have first : pointing [.var v] (update h.pointer (.var v) none) b = 0 := by simp [pointing]
    have both : pointing ([.var v] ++ h.ptrs) (update h.pointer (.var v) none) b = _ := pointing_append _ _
    rw [first, others, Nat.zero_add] at both
    exact both
  · simp only [PtrHeap.withVar, setPointer]
    rw [update_of_ne (by simp)]
    exact counted.empty freed inside

theorem Settled.withoutVar {v : Nat} (settled : Settled h) (null : h.pointer (.var v) = none) (there : v ∈ h.vars) :
    Settled { h with vars := h.vars.erase v } := by
  have counted := settled.counted
  have perm : h.ptrs.Perm (.var v :: ({ h with vars := h.vars.erase v } : PtrHeap).ptrs) := by
    have vars := ((List.perm_cons_erase there).map PtrLoc.var)
    exact vars.append_right _
  refine settled.recount rfl rfl rfl rfl rfl ?_ (fun b => ?_) fun freed inside => counted.empty freed inside
  · exact (List.nodup_cons.mp (perm.nodup_iff.mp counted.distinct)).2
  · unfold count pointing
    rw [perm.countP_eq, List.countP_cons]
    simp [null]

theorem create_ptrs (n : Nat) : (h.create n).ptrs = h.ptrs ++ (h.create n).members h.made := by
  have old : (List.range h.made).flatMap (h.create n).members = (List.range h.made).flatMap h.members := by
    refine List.flatMap_congr fun a inside => ?_
    have apart : a ≠ h.made := (List.mem_range.mp inside).ne
    simp [members, create, apart]
  unfold ptrs
  show h.vars.map PtrLoc.var ++ (List.range (h.made + 1)).flatMap (h.create n).members = _
  rw [List.range_succ, List.flatMap_append, old, List.append_assoc, List.flatMap_singleton]

theorem create_pointer {k : PtrLoc} (n : Nat) (old : k ∈ h.ptrs) : (h.create n).pointer k = h.pointer k := by
  cases k with
  | var v => rfl
  | field a i => simp [create, (mem_ptrs_field old).1.ne]

theorem count_create (n b : Nat) : (h.create n).count b = h.count b := by
  have old : pointing h.ptrs (h.create n).pointer b = pointing h.ptrs h.pointer b :=
    pointing_congr fun k member => create_pointer n member
  have new : pointing ((h.create n).members h.made) (h.create n).pointer b = 0 := by
    refine pointing_eq_zero_iff.mpr fun k member => ?_
    obtain ⟨i, -, rfl⟩ := List.mem_map.mp member
    simp [create]
  unfold count
  rw [create_ptrs, pointing_append, old, new, Nat.add_zero]

/-- No `Ptr` has the number of the new object yet. -/
theorem Counted.create (counted : Counted h) (unknown : h.count h.made = 0) (n : Nat) : Counted (h.create n) := by
  have distinct : (h.create n).ptrs.Nodup := by
    rw [create_ptrs]
    refine counted.distinct.append ?_ fun k old new => ?_
    · exact (List.nodup_reverse.mpr List.nodup_range).map fun i j same => (PtrLoc.field.inj same).2
    · obtain ⟨i, -, rfl⟩ := List.mem_map.mp new
      exact Nat.lt_irrefl _ (mem_ptrs_field old).1
  refine ⟨distinct, fun {b} used => ?_, fun {b} running used => ?_, fun b => ?_, fun {b i} freed inside => ?_,
    fun {b} live owned => ?_⟩
  · by_cases same : b = h.made
    · exact same ▸ Nat.lt_succ_self _
    · simp only [PtrHeap.create, update_of_ne same] at used
      exact Nat.lt_succ_of_lt (counted.known used)
  · rw [count_create] at used ⊢
    by_cases same : b = h.made
    · simp [PtrHeap.create, same, unknown]
    · simp only [PtrHeap.create, update_of_ne same] at running used ⊢
      exact counted.count running used
  · rw [count_create]
    exact counted.small b
  · by_cases same : b = h.made
    · simp [PtrHeap.create, same]
    · simp only [PtrHeap.create, update_of_ne same, if_neg same] at freed inside ⊢
      exact counted.empty freed inside
  · by_cases same : b = h.made
    · simp [PtrHeap.create, same] at owned
    · rw [count_create]
      simp only [PtrHeap.create, update_of_ne same] at live owned
      exact counted.owned live owned

theorem Settled.create (settled : Settled h) (n : Nat) : Settled (h.create n) := by
  have old : ∀ {b}, 0 < h.count b → b ≠ h.made := fun pointed => (settled.known (settled.safe pointed)).ne
  have unknown : h.count h.made = 0 := by
    by_contra pointed
    exact old (Nat.pos_of_ne_zero pointed) rfl
  refine ⟨settled.counted.create unknown n, fun b => ?_, fun {b} pointed => ?_, fun {b} pointed => ?_⟩
  · by_cases same : b = h.made
    · exact .inl (by simp [PtrHeap.create, same])
    · simp only [PtrHeap.create, update_of_ne same]
      exact settled.calm b
  · rw [count_create] at pointed
    simp only [PtrHeap.create, update_of_ne (old pointed)]
    exact settled.safe pointed
  · rw [count_create] at pointed
    simp only [PtrHeap.create, update_of_ne (old pointed)]
    exact settled.touched pointed

/-! ## What the counts say -/

/-- The members of freed objects do not count. -/
theorem pointing_members (objects : List Nat) (empty : ∀ b ∈ objects, h.status b ≠ .live → ∀ k ∈ h.members b,
    h.pointer k = none) :
    pointing ((objects.filter fun b => h.status b = .live).flatMap h.members) h.pointer a =
      pointing (objects.flatMap h.members) h.pointer a := by
  induction objects with
  | nil => rfl
  | cons b objects ih =>
    have rest := ih fun c member => empty c (List.mem_cons_of_mem b member)
    rw [List.flatMap_cons, pointing_append, ← rest]
    by_cases alive : h.status b = .live
    · rw [List.filter_cons_of_pos (by simpa using alive), List.flatMap_cons, pointing_append]
    · have none : pointing (h.members b) h.pointer a = 0 :=
        pointing_eq_zero_iff.mpr fun k member => by simp [empty b (by simp) alive k member]
      rw [List.filter_cons_of_neg (by simpa using alive), none, Nat.zero_add]

theorem Settled.pointing_existing (settled : Settled h) (a : Nat) : pointing h.existing h.pointer a = h.count a := by
  unfold existing count ptrs
  rw [pointing_append, pointing_append, pointing_members _ fun b _ dead k member => ?_]
  obtain ⟨i, inside, rfl⟩ := List.mem_map.mp member
  have freed := (settled.calm b).resolve_left dead
  exact settled.counted.empty freed (by simpa using inside)

theorem Settled.exact (settled : Settled h) : Exact h where
  count a alive := by
    rw [settled.pointing_existing]
    exact settled.counted.count (by rw [alive]; decide) (by rw [alive]; simp)
  alive l a there points := settled.points (settled.mem_ptrs there) points
  owned a alive owned := by
    rw [settled.pointing_existing]
    exact settled.counted.owned alive owned

/-- An object that goes had a `Ptr` before, and the last of them is gone. -/
theorem Settled.released_iff (before : Settled h) (after : Settled h')
    (held : ∀ {a}, h.held a = true → h.status a = .live → h'.held a = true)
    (lost : h.status a = .live → h'.status a ≠ .live → ∃ k, h.Exists k ∧ h.pointer k = some a)
    (alive : h.status a = .live) : h'.status a ≠ .live ↔
      0 < pointing h.existing h.pointer a ∧ pointing h'.existing h'.pointer a = 0 := by
  rw [before.pointing_existing, after.pointing_existing]
  constructor
  · intro dead
    obtain ⟨k, there, points⟩ := lost alive dead
    refine ⟨pointing_pos (before.mem_ptrs there) points, ?_⟩
    by_contra pointed
    exact dead (after.safe (Nat.pos_of_ne_zero pointed))
  -- an object that a `Ptr` has pointed to and that lives has one
  · rintro ⟨pointed, none⟩ live
    have owned := after.counted.owned live (held (before.touched pointed) alive)
    omega

/-! ## Calls -/

/-- A call that leaves `h'`, and `x` in the `Ptr` at `l`. -/
structure Leaves (h h' : PtrHeap) (l : PtrLoc) (x : Option Nat) : Prop where
  settled : Settled h'
  pointer : h'.pointer l = x
  valid : h'.Valid x
  released : ∀ a, h.status a = .live → (h'.status a ≠ .live ↔
    0 < pointing h.existing h.pointer a ∧ pointing h'.existing h'.pointer a = 0)

theorem Settled.unchanged (settled : Settled h) (there : h.Exists l) : Leaves h h l (h.pointer l) where
  settled := settled
  pointer := rfl
  valid _ points := settled.points (settled.mem_ptrs there) points
  released _ alive := settled.released_iff settled (fun owned _ => owned) (fun alive dead => absurd alive dead) alive

/-- The `Ptr` at `q` is not touched by the `Reset` of the one at `l`. -/
theorem Tracks.outlived (tracks : Tracks h l h') (apart : q ≠ l) (outlives : h.Outlives l q) :
    h'.pointer q = h.pointer q := by
  by_contra changed
  rcases tracks.cleared changed with same | ⟨b, i, place, alive, dead⟩
  · exact apart same
  · exact outlives b i place (tracks.lost alive dead)

theorem Tracks.exists_later (tracks : Tracks h l h') (shrinks : Shrinks h h') (there : h.Exists q)
    (outlives : h.Outlives l q) : h'.Exists q := by
  cases q with
  | var v =>
    show v ∈ h'.vars
    rw [shrinks.vars]
    exact there
  | field b i =>
    refine ⟨?_, by rw [shrinks.fields]; exact there.2⟩
    by_contra dead
    exact outlives b i rfl (tracks.lost there.1 dead)

theorem Tracks.was_pointed (tracks : Tracks h l h') (alive : h.status a = .live) (dead : h'.status a ≠ .live) :
    ∃ k, h.Exists k ∧ h.pointer k = some a := by
  cases tracks.lost alive dead with
  | intro pointed vars fields => exact pointed

/-- `operator=(O* const&)`: the pointer is read again behind `Reset`, and is still the same. -/
theorem Settled.assign {o : Source} (settled : Settled h) (there : h.Exists l)
    (valid : match o with
      | .value x => h.Valid x
      | .ptr q => h.Exists q)
    (room : h.Countable (h.read o)) (independent : h.Independent l o) :
    ∃ h', h.assign l o = some h' ∧ Leaves h h' l (h.read o) := by
  unfold PtrHeap.assign
  by_cases same : h.pointer l = h.read o
  · rw [if_pos same, ← same]
    exact ⟨h, rfl, settled.unchanged there⟩
  rw [if_neg same]
  obtain ⟨h', reset, resets, tracks, settled'⟩ := settled.reset there
  have shrinks := resets.shrinks
  obtain ⟨stays, source⟩ := independent same
  have there' := tracks.exists_later shrinks there stays
  have null := resets.cleared l (by simp)
  -- behind `Reset` the argument is read again: it must not have gone with the object
  have reads : h'.read o = h.read o := by
    cases o with
    | value x => rfl
    | ptr q => exact tracks.outlived (fun equal => same (by rw [equal]; rfl)) source
  rw [reset, Option.map_some]
  cases target : h.read o with
  | none =>
    rw [target] at reads
    refine ⟨h', by simp only [reads], settled', null, fun a target => (nomatch target), fun a alive => ?_⟩
    exact settled.released_iff settled' (fun owned _ => by rw [shrinks.held]; exact owned)
      (fun alive dead => tracks.was_pointed alive dead) alive
  | some a =>
    rw [target] at reads
    have alive' : h'.status a = .live := by
      cases o with
      | value x =>
        by_contra dead
        exact source a target (tracks.lost (valid a target) dead)
      | ptr q =>
        refine settled'.points ?_ reads
        rw [shrinks.ptrs]
        exact settled.mem_ptrs valid
    have before := shrinks.alive alive'
    have refs := settled.counted.count (a := a) (by rw [before]; decide) (by rw [before]; simp)
    have refs' := settled'.counted.count (a := a) (by rw [alive']; decide) (by rw [alive']; simp)
    have fewer := shrinks.count_le a
    have below := room a target
    have settled'' := settled'.point there' null alive' (by omega)
    refine ⟨_, by simp only [reads], settled'', by simp [PtrHeap.point, setPointer, setRefs], fun b equal => ?_,
      fun b alive => ?_⟩
    · cases equal
      exact alive'
    · refine settled.released_iff settled'' (fun {c} owned _ => ?_)
        (fun alive dead => tracks.was_pointed alive dead) alive
      by_cases same : c = a
      · simp [PtrHeap.point, same]
      · simp only [PtrHeap.point, update_of_ne same]
        rw [shrinks.held]
        exact owned

theorem Settled.assignMove (settled : Settled h) (there : h.Exists l) (source : h.Exists q)
    (independent : h.Independent l (.ptr q)) : ∃ h', h.assignMove l q = some h' ∧ Leaves h h' l (h.pointer q) := by
  unfold PtrHeap.assignMove
  -- the two `Ptr` lead to the same object, and nothing is moved
  by_cases same : h.pointer l = h.pointer q
  · rw [if_pos same, ← same]
    exact ⟨h, rfl, settled.unchanged there⟩
  rw [if_neg same]
  obtain ⟨h', reset, resets, tracks, settled'⟩ := settled.reset there
  have shrinks := resets.shrinks
  obtain ⟨stays, outlives⟩ := independent same
  have apart : q ≠ l := fun equal => same (by rw [equal])
  have reads : h'.pointer q = h.pointer q := tracks.outlived apart outlives
  have inside : q ∈ h'.ptrs := by
    rw [shrinks.ptrs]
    exact settled.mem_ptrs source
  have settled'' := settled'.moved (tracks.exists_later shrinks there stays) inside apart (resets.cleared l (by simp))
  rw [reset, Option.map_some]
  refine ⟨_, rfl, settled'', ?_, fun a target => ?_, fun a alive => ?_⟩
  · simp only [setPointer, update_of_ne apart.symm, update_self, reads]
  · exact settled'.points inside (reads.trans target)
  · exact settled.released_iff settled'' (fun {c} owned _ => by simp only [setPointer, shrinks.held]; exact owned)
      (fun alive dead => tracks.was_pointed alive dead) alive

theorem construct_eq (v : Nat) (x : Option Nat) : h.construct v x = (h.withVar v).point (.var v) x := by
  cases x with
  | none => simp [construct, point, withVar, setPointer]
  | some a => simp [construct, point, withVar, setPointer, setRefs]

theorem Settled.construct {v : Nat} {x : Option Nat} (settled : Settled h) (new : v ∉ h.vars) (valid : h.Valid x)
    (room : h.Countable x) : Settled (h.construct v x) := by
  have fresh := settled.withVar new
  rw [construct_eq]
  cases x with
  | none => simpa [PtrHeap.point, PtrHeap.withVar, setPointer] using fresh
  | some a =>
    refine fresh.point ?_ ?_ (valid a rfl) (room a rfl)
    · exact List.mem_cons_self
    · simp [PtrHeap.withVar, setPointer]

theorem Settled.constructMove {v : Nat} (settled : Settled h) (new : v ∉ h.vars) (there : h.Exists q) :
    Settled (h.constructMove v q) := by
  have fresh := settled.withVar new
  have apart : q ≠ .var v := by
    rintro rfl
    exact new there
  have source : q ∈ (h.withVar v).ptrs := List.mem_cons_of_mem _ (settled.mem_ptrs there)
  have moved := fresh.moved (l := .var v) List.mem_cons_self source apart (by simp [PtrHeap.withVar, setPointer])
  have reads : (h.withVar v).pointer q = h.pointer q := by simp [PtrHeap.withVar, setPointer, apart]
  rw [reads] at moved
  simpa [PtrHeap.constructMove, PtrHeap.withVar, setPointer] using moved

/-- What holds after each call of a program. -/
def Goes (h : PtrHeap) (e : Event) : Prop := ∃ h', h.step e = some h' ∧ Settled h' ∧ h.Serves h' e

/-- A call that releases nothing. -/
theorem Settled.keeps {e : Event} (settled : Settled h) (settled' : Settled h') (none : h.assigned e = none)
    (status : ∀ {a}, h.status a = .live → h'.status a = .live)
    (held : ∀ {a}, h.held a = true → h.status a = .live → h'.held a = true) : h.Serves h' e := by
  refine ⟨fun l x target => ?_, fun a alive => ?_⟩
  · rw [none] at target
    cases target
  · exact settled.released_iff settled' held (fun alive dead => absurd (status alive) dead) alive

theorem Leaves.serves {e : Event} {x : Option Nat} (leaves : Leaves h h' l x) (target : h.assigned e = some (l, x)) :
    h.Serves h' e := by
  refine ⟨fun k y same => ?_, leaves.released⟩
  rw [target] at same
  cases same
  exact ⟨leaves.pointer, leaves.valid⟩

theorem point_held {x : Option Nat} (owned : h.held a = true) : (h.point l x).held a = true := by
  cases x with
  | none => exact owned
  | some b =>
    by_cases same : a = b
    · simp [PtrHeap.point, same]
    · simpa [PtrHeap.point, same] using owned

theorem point_status (x : Option Nat) : (h.point l x).status = h.status := by
  cases x <;> rfl

/-- The step lemma: a call of a regular program does what it should. -/
theorem Settled.goes {e : Event} (settled : Settled h) (permitted : h.Permitted e) (regular : h.Regular e) :
    h.Goes e := by
  cases e with
  | create n =>
    have settled' := settled.create n
    refine ⟨_, rfl, settled', settled.keeps settled' rfl (fun {a} alive => ?_) fun {a} owned alive => ?_⟩
    · simp only [PtrHeap.create, update_of_ne (settled.known alive).ne]
      exact alive
    · simp only [PtrHeap.create, update_of_ne (settled.known alive).ne]
      exact owned
  | construct v x =>
    have settled' := settled.construct permitted.1 permitted.2 regular
    refine ⟨_, rfl, settled', settled.keeps settled' rfl (fun {a} alive => ?_) fun {a} owned _ => point_held owned⟩
    simp only [PtrHeap.construct, point_status]
    exact alive
  | constructCopy v q =>
    have valid : h.Valid (h.pointer q) := fun a points => settled.points (settled.mem_ptrs permitted.2) points
    have settled' := settled.construct permitted.1 valid regular
    refine ⟨_, rfl, settled', settled.keeps settled' rfl (fun {a} alive => ?_) fun {a} owned _ => point_held owned⟩
    simp only [PtrHeap.construct, point_status]
    exact alive
  | constructMove v q =>
    have settled' := settled.constructMove permitted.1 permitted.2
    exact ⟨_, rfl, settled', settled.keeps settled' rfl id fun owned _ => owned⟩
  | assignPointer l x =>
    obtain ⟨h', assigned, leaves⟩ := settled.assign (o := .value x) permitted.1 permitted.2 regular.1 regular.2
    exact ⟨h', assigned, leaves.settled, leaves.serves rfl⟩
  | assignPtr l q =>
    obtain ⟨h', assigned, leaves⟩ := settled.assign (o := .ptr q) permitted.1 permitted.2 regular.1 regular.2
    exact ⟨h', assigned, leaves.settled, leaves.serves rfl⟩
  | assignRef l a =>
    have valid : h.Valid (h.lock a) := by
      intro b target
      unfold lock at target
      by_cases alive : h.status a = .live
      · rw [if_pos alive] at target
        exact Option.some.inj target ▸ alive
      · rw [if_neg alive] at target
        cases target
    obtain ⟨h', assigned, leaves⟩ := settled.assign (o := .value (h.lock a)) permitted valid regular.1 regular.2
    exact ⟨h', assigned, leaves.settled, leaves.serves rfl⟩
  | assignMove l q =>
    obtain ⟨h', assigned, leaves⟩ := settled.assignMove permitted.1 permitted.2 regular
    exact ⟨h', assigned, leaves.settled, leaves.serves rfl⟩
  | reset l =>
    obtain ⟨h', reset, resets, tracks, settled'⟩ := settled.reset permitted
    refine ⟨h', reset, settled', (fun k x target => (nomatch target)), fun a alive => ?_⟩
    exact settled.released_iff settled' (fun owned _ => by rw [resets.shrinks.held]; exact owned)
      (fun alive dead => tracks.was_pointed alive dead) alive
  | destroy v =>
    obtain ⟨h', reset, resets, tracks, settled'⟩ := settled.reset (l := .var v) permitted
    have there : v ∈ h'.vars := by
      rw [resets.shrinks.vars]
      exact permitted
    have settled'' := settled'.withoutVar (resets.cleared (.var v) (by simp)) there
    refine ⟨_, by simp only [step, reset, Option.map_some], settled'', (fun k x target => (nomatch target)),
      fun a alive => ?_⟩
    exact settled.released_iff settled'' (fun owned _ => by rw [resets.shrinks.held]; exact owned)
      (fun alive dead => tracks.was_pointed alive dead) alive

/-! ## Whole programs -/

theorem Settled.start : Settled {} where
  counted := ⟨List.nodup_nil, by simp, by simp [count, ptrs, pointing], by simp [count, ptrs, pointing], by simp,
    by simp⟩
  calm _ := .inr rfl
  safe pointed := by simp [count, ptrs, pointing] at pointed
  touched pointed := by simp [count, ptrs, pointing] at pointed

theorem Reached.settled (reached : Reached Regular h) : Settled h := by
  induction reached with
  | start => exact .start
  | step _ permitted regular stepped ih =>
    obtain ⟨h', found, settled, -⟩ := ih.goes permitted regular
    rw [stepped] at found
    exact Option.some.inj found ▸ settled

/-- In every program whose assignments do not destroy their own operands, each count is the number of `Ptr`, a `Ptr`
leads to a living object, an object goes exactly with its last `Ptr`, and an assignment assigns. -/
theorem counts_exact (reached : Reached Regular h) :
    Exact h ∧ ∀ e, h.Permitted e → h.Regular e → ∃ h', h.step e = some h' ∧ h.Serves h' e := by
  have settled := reached.settled
  refine ⟨settled.exact, fun e permitted regular => ?_⟩
  obtain ⟨h', stepped, -, serves⟩ := settled.goes permitted regular
  exact ⟨h', stepped, serves⟩

/-- Two objects, the first with a member, and a variable that points to the first. -/
def twoObjects : PtrHeap := ((({} : PtrHeap).create 1).create 0).construct 0 (some 0)

theorem twoObjects_reached (condition : PtrHeap → Event → Prop) (create : ∀ h n, condition h (.create n))
    (construct : condition (({} : PtrHeap).create 1 |>.create 0) (.construct 0 (some 0))) :
    Reached condition twoObjects := by
  have first : Reached condition (({} : PtrHeap).create 1) := .step (e := .create 1) .start trivial (create _ _) rfl
  have second : Reached condition (({} : PtrHeap).create 1 |>.create 0) :=
    first.step (e := .create 0) trivial (create _ _) rfl
  have valid : (({} : PtrHeap).create 1 |>.create 0).Valid (some 0) := fun a same => Option.some.inj same ▸ rfl
  exact second.step (e := .construct 0 (some 0)) ⟨List.not_mem_nil, valid⟩ construct rfl

theorem twoObjects_unpointed (k : PtrLoc) : twoObjects.pointer k ≠ some 1 := by
  cases k with
  | var v => by_cases same : v = 0 <;> simp [twoObjects, PtrHeap.construct, point, setPointer, setRefs, create, same]
  | field b i => simp [twoObjects, PtrHeap.construct, point, setPointer, setRefs, create]

theorem twoObjects_kept : ¬Lost twoObjects (.field 0 0) 0 := by
  rintro ⟨-, vars, -⟩
  cases vars 0 List.mem_cons_self rfl

/-- The member gets the second object, and the variable is reset. -/
theorem counts_exact_chain : ∃ h, Reached Regular h ∧ h.pointer (.var 0) = some 0 ∧
    h.pointer (.field 0 0) = some 1 ∧ Exact h ∧
    ∃ h', h.step (.reset (.var 0)) = some h' ∧ h.Serves h' (.reset (.var 0)) := by
  have built : Reached Regular twoObjects := by
    refine twoObjects_reached Regular (fun _ _ => trivial) fun a same => ?_
    cases same
    decide
  have regular : twoObjects.Regular (.assignPointer (.field 0 0) (some 1)) := by
    refine ⟨fun a same => ?_, fun _ => ⟨fun a i place => ?_, fun a same => ?_⟩⟩
    · cases same
      decide
    · cases place
      exact twoObjects_kept
    · cases same
      rintro ⟨⟨k, -, points⟩, -, -⟩
      exact twoObjects_unpointed k points
  have chain : Reached Regular _ :=
    built.step (e := .assignPointer (.field 0 0) (some 1))
      ⟨⟨rfl, by decide⟩, fun a same => Option.some.inj same ▸ rfl⟩ regular rfl
  exact ⟨_, chain, rfl, rfl, (counts_exact chain).1, (counts_exact chain).2 _ List.mem_cons_self trivial⟩

/-- Where the variable is assigned from that member, the member is gone with its object before it is read, and so is
the object it pointed to. -/
theorem assignment_destroys_source : ∃ h, Reached (fun _ _ => True) h ∧
    ∀ e ∈ [Event.assignPtr (.var 0) (.field 0 0), .assignMove (.var 0) (.field 0 0), .assignRef (.var 0) 1],
      h.Permitted e ∧ ∃ h', h.step e = some h' ∧ ¬h.Serves h' e := by
  have built := twoObjects_reached (fun _ _ => True) (fun _ _ => trivial) trivial
  have chain : Reached (fun _ _ => True) _ := built.step (e := .assignPointer (.field 0 0) (some 1))
    ⟨⟨rfl, by decide⟩, fun a same => Option.some.inj same ▸ rfl⟩ trivial rfl
  refine ⟨_, chain, fun e member => ?_⟩
  simp only [List.mem_cons, List.not_mem_nil, or_false] at member
  rcases member with rfl | rfl | rfl
  · refine ⟨⟨List.mem_cons_self, rfl, by decide⟩, _, rfl, fun serves => ?_⟩
    have received := (serves.1 _ _ rfl).1
    cases received
  · refine ⟨⟨List.mem_cons_self, rfl, by decide⟩, _, rfl, fun serves => ?_⟩
    have received := (serves.1 _ _ rfl).1
    cases received
  · refine ⟨List.mem_cons_self, _, rfl, fun serves => ?_⟩
    have received := (serves.1 _ _ rfl).2 1 rfl
    cases received

end

end PtrHeap

end Xxlib.Uv4
