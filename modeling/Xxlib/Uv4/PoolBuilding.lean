import Xxlib.Uv4.PoolRead
import Xxlib.Uv4.PtrCounting

/-! The pool while objects are being read into it (`xx_bbuffer.hpp`, `xx_mempool.hpp`). -/

set_option autoImplicit false

namespace Xxlib.Uv4

open Function (update update_self update_of_ne)
open Lib

/-! ## Bytes that are taken -/

/-- At least one byte was taken. -/
structure Advances (bb bb' : BBuffer) : Prop where
  data : bb'.data = bb.data
  root : bb'.offsetRoot = bb.offsetRoot
  less : bb.offset < bb'.offset
  inside : bb'.offset ≤ bb'.data.length

section
variable {bb bb' bb'' : BBuffer}

theorem Advances.trans (first : Advances bb bb') (second : Advances bb' bb'') : Advances bb bb'' :=
  ⟨second.data.trans first.data, second.root.trans first.root, first.less.trans second.less, second.inside⟩

theorem varRead7Groups_advances {last top fuel idx lshift i n offset offset' dataLen : Nat} {srcBuf : List UInt8}
    (some : idx < dataLen)
    (read : varRead7Groups last top srcBuf offset dataLen fuel idx lshift i = .ok (n, offset')) :
    offset < offset' ∧ offset' ≤ offset + dataLen := by
  induction fuel generalizing idx lshift i with
  | zero => cases read
  | succ fuel ih =>
    unfold varRead7Groups at read
    simp only at read
    split at read
    · split at read
      · cases read
      · split at read
        · cases read
        · exact ih (by omega) read
    · split at read
      · cases read
      · cases read
        omega

theorem varRead7U64Loop_advances {fuel idx lshift i n offset offset' dataLen : Nat} {srcBuf : List UInt8}
    (some : idx < dataLen) (read : varRead7U64Loop srcBuf offset dataLen fuel idx lshift i = .ok (n, offset')) :
    offset < offset' ∧ offset' ≤ offset + dataLen := by
  induction fuel generalizing idx lshift i with
  | zero => cases read
  | succ fuel ih =>
    unfold varRead7U64Loop at read
    simp only at read
    split at read
    · split at read
      · cases read
      · split at read
        · exact ih (by omega) read
        · cases read
          omega
    · cases read
      omega

theorem takeTypeId_advances {tid : UInt16} (taken : takeTypeId bb = .ok (tid, bb')) : Advances bb bb' := by
  unfold takeTypeId varRead7U16 at taken
  by_cases short : bb.offset ≥ bb.data.length
  · rw [if_pos short] at taken
    cases taken
  rw [if_neg short] at taken
  cases read : varRead7Groups 3 3 bb.data bb.offset (bb.data.length - bb.offset) 3 0 0 0 with
  | error r =>
    rw [read] at taken
    cases taken
  | ok result =>
    obtain ⟨n, offset⟩ := result
    rw [read] at taken
    cases taken
    have bounds := varRead7Groups_advances (by omega) read
    exact ⟨rfl, rfl, bounds.1, by show offset ≤ bb.data.length; omega⟩

theorem takeSize_advances {n : Nat} (taken : takeSize bb = .ok (n, bb')) : Advances bb bb' := by
  unfold takeSize varRead7U64 at taken
  by_cases short : bb.offset ≥ bb.data.length
  · rw [if_pos short] at taken
    cases taken
  rw [if_neg short] at taken
  cases read : varRead7U64Loop bb.data bb.offset (bb.data.length - bb.offset) 8 0 0 0 with
  | error r =>
    rw [read] at taken
    cases taken
  | ok result =>
    obtain ⟨m, offset⟩ := result
    rw [read] at taken
    cases taken
    have bounds := varRead7U64Loop_advances (by omega) read
    exact ⟨rfl, rfl, bounds.1, by show offset ≤ bb.data.length; omega⟩

theorem takeLength_advances {len : Nat} (taken : takeLength bb = .ok (len, bb')) : Advances bb bb' := by
  unfold takeLength at taken
  cases size : takeSize bb with
  | error r =>
    rw [size] at taken
    cases taken
  | ok result =>
    obtain ⟨n, behind⟩ := result
    rw [size] at taken
    simp only at taken
    split at taken
    · cases taken
    · split at taken
      · cases taken
      · cases taken
        exact takeSize_advances size

end

/-! ## Objects under construction -/

namespace PtrHeap

section
variable {h h' : PtrHeap} {a n : Nat} {s : Status}

theorem count_setStatus (b : Nat) : (h.setStatus a s).count b = h.count b := rfl

/-- The status of an object that is neither freed nor being released. -/
theorem Counted.restatus (counted : Counted h) (running : h.status a ≠ .releasing) (used : h.status a ≠ .freed)
    (empty : s = .freed → ∀ i, i < h.fields a → h.pointer (.field a i) = none)
    (owned : s = .live → h.held a = true → 0 < h.count a) : Counted (h.setStatus a s) := by
  refine ⟨counted.distinct, fun {b} known => ?_, fun {b} running' used' => ?_, counted.small,
    fun {b i} freed inside => ?_, fun {b} live held => ?_⟩
  · by_cases same : b = a
    · exact counted.known (same ▸ used)
    · simp only [setStatus, update_of_ne same] at known
      exact counted.known known
  · by_cases same : b = a
    · subst same
      exact counted.count running fun freed => absurd freed used
    · simp only [setStatus, update_of_ne same] at running' used'
      exact counted.count running' used'
  · by_cases same : b = a
    · subst same
      simp only [setStatus, update_self] at freed
      exact empty freed i inside
    · simp only [setStatus, update_of_ne same] at freed
      exact counted.empty freed inside
  · by_cases same : b = a
    · subst same
      simp only [setStatus, update_self] at live
      exact owned live held
    · simp only [setStatus, update_of_ne same] at live
      exact counted.owned live held

theorem count_allocate (b : Nat) : h.allocate.count b = h.count b := count_create 0 b

theorem Counted.allocate (counted : Counted h) (unknown : h.count h.made = 0) : Counted h.allocate :=
  (counted.create unknown 0).restatus (by simp [PtrHeap.create]) (by simp [PtrHeap.create]) (by simp) (by simp)

theorem allocate_status (b : Nat) : h.allocate.status b = if b = h.made then .constructing else h.status b := by
  by_cases same : b = h.made
  · simp [PtrHeap.allocate, setStatus, same]
  · simp [PtrHeap.allocate, setStatus, PtrHeap.create, same]

theorem allocate_held {b : Nat} (old : b ≠ h.made) : h.allocate.held b = h.held b := by
  simp [PtrHeap.allocate, setStatus, PtrHeap.create, old]

/-- The newest object, which has no elements, gets some. -/
theorem resize_ptrs (newest : h.made = a + 1) (none : h.fields a = 0) :
    (h.resize a n).ptrs = h.ptrs ++ (h.resize a n).members a := by
  have old : (List.range a).flatMap (h.resize a n).members = (List.range a).flatMap h.members := by
    refine List.flatMap_congr fun b inside => ?_
    have apart : b ≠ a := (List.mem_range.mp inside).ne
    simp [members, resize, apart]
  have before : h.members a = [] := by simp [members, none]
  unfold ptrs
  show h.vars.map PtrLoc.var ++ (List.range h.made).flatMap (h.resize a n).members = _
  rw [newest, List.range_succ, List.flatMap_append, List.flatMap_append, old, List.flatMap_singleton,
    List.flatMap_singleton, before, List.append_nil, List.append_assoc]

theorem resize_pointer {k : PtrLoc} (none : h.fields a = 0) (old : k ∈ h.ptrs) :
    (h.resize a n).pointer k = h.pointer k := by
  cases k with
  | var v => rfl
  | field b i =>
    have apart : b ≠ a := by
      rintro rfl
      have := (mem_ptrs_field old).2
      omega
    simp [resize, apart]

theorem count_resize (newest : h.made = a + 1) (none : h.fields a = 0) (b : Nat) :
    (h.resize a n).count b = h.count b := by
  have old : pointing h.ptrs (h.resize a n).pointer b = pointing h.ptrs h.pointer b :=
    pointing_congr fun k member => resize_pointer none member
  have new : pointing ((h.resize a n).members a) (h.resize a n).pointer b = 0 := by
    refine pointing_eq_zero_iff.mpr fun k member => ?_
    obtain ⟨i, -, rfl⟩ := List.mem_map.mp member
    simp [resize]
  unfold count
  rw [resize_ptrs newest none, pointing_append, old, new, Nat.add_zero]

theorem Counted.resize (counted : Counted h) (newest : h.made = a + 1) (none : h.fields a = 0) (n : Nat) :
    Counted (h.resize a n) := by
  have distinct : (h.resize a n).ptrs.Nodup := by
    rw [resize_ptrs newest none]
    refine counted.distinct.append ?_ fun k old new => ?_
    · exact (List.nodup_reverse.mpr List.nodup_range).map fun i j same => (PtrLoc.field.inj same).2
    · obtain ⟨i, -, rfl⟩ := List.mem_map.mp new
      have := (mem_ptrs_field old).2
      omega
  have counts := count_resize (n := n) newest none
  -- the new elements are null, and no count changes
  refine ⟨distinct, counted.known, fun {b} running used => ?_, fun b => ?_, fun {b i} freed inside => ?_,
    fun {b} live held => ?_⟩
  · rw [counts] at used ⊢
    exact counted.count running used
  · rw [counts]
    exact counted.small b
  · by_cases same : b = a
    · simp [PtrHeap.resize, same]
    · simp only [PtrHeap.resize, update_of_ne same, if_neg same] at inside ⊢
      exact counted.empty freed inside
  · rw [counts]
    exact counted.owned live held

/-! ## What reading keeps -/

theorem field_mem_ptrs {i : Nat} (made : a < h.made) (inside : i < h.fields a) : .field a i ∈ h.ptrs := by
  refine List.mem_append_right _ (List.mem_flatMap.mpr ⟨a, List.mem_range.mpr made, ?_⟩)
  exact List.mem_map.mpr ⟨i, by simpa using inside, rfl⟩

theorem members_mem_ptrs (made : a < h.made) : ∀ k ∈ h.members a, k ∈ h.ptrs := fun _ member =>
  List.mem_append_right _ (List.mem_flatMap.mpr ⟨a, List.mem_range.mpr made, member⟩)

/-- The objects of before are still there, and none of their null pointers was set. -/
structure Grown (h h' : PtrHeap) : Prop where
  vars : h'.vars = h.vars
  made : h.made ≤ h'.made
  fields : ∀ {a}, a < h.made → h'.fields a = h.fields a
  pointer : ∀ {l}, l ∈ h.ptrs → h'.pointer l = h.pointer l ∨ h'.pointer l = none

theorem Grown.refl (h : PtrHeap) : Grown h h := ⟨rfl, le_refl _, fun _ => rfl, fun _ => .inl rfl⟩

theorem Grown.mem_ptrs (grown : Grown h h') {l : PtrLoc} (member : l ∈ h.ptrs) : l ∈ h'.ptrs := by
  cases l with
  | var v =>
    refine List.mem_append_left _ ?_
    rw [grown.vars]
    rcases List.mem_append.mp member with var | field
    · exact var
    · simp [members] at field
  | field b i =>
    obtain ⟨made, inside⟩ := mem_ptrs_field member
    exact field_mem_ptrs (made.trans_le grown.made) (by rw [grown.fields made]; exact inside)

theorem Grown.trans {h'' : PtrHeap} (first : Grown h h') (second : Grown h' h'') : Grown h h'' where
  vars := second.vars.trans first.vars
  made := first.made.trans second.made
  fields old := (second.fields (old.trans_le first.made)).trans (first.fields old)
  pointer member := by
    rcases second.pointer (first.mem_ptrs member) with same | none
    · rw [same]
      exact first.pointer member
    · exact .inr none

theorem Grown.null (grown : Grown h h') {l : PtrLoc} (member : l ∈ h.ptrs) (null : h.pointer l = none) :
    h'.pointer l = none := by
  rcases grown.pointer member with same | none
  · rw [same, null]
  · exact none

theorem Shrinks.grown (shrinks : Shrinks h h') : Grown h h' where
  vars := shrinks.vars
  made := shrinks.made.ge
  fields _ := by rw [shrinks.fields]
  pointer _ := shrinks.pointer _

theorem Grown.restatus (grown : Grown h h') (b : Nat) : Grown h (h'.setStatus b s) :=
  ⟨grown.vars, grown.made, grown.fields, grown.pointer⟩

theorem Grown.allocate (h : PtrHeap) : Grown h h.allocate where
  vars := rfl
  made := Nat.le_succ _
  fields old := update_of_ne old.ne _ _
  pointer member := .inl (create_pointer 0 member)

theorem Grown.resize (grown : Grown h h') (new : h.made ≤ a) : Grown h (h'.resize a n) where
  vars := grown.vars
  made := grown.made
  fields {b} old := by
    simp only [PtrHeap.resize, update_of_ne (old.trans_le new).ne]
    exact grown.fields old
  pointer {l} member := by
    cases l with
    | var v => exact grown.pointer member
    | field b i =>
      simp only [PtrHeap.resize, if_neg ((mem_ptrs_field member).1.trans_le new).ne]
      exact grown.pointer member

/-- A new object gets a pointer. -/
theorem Grown.point (grown : Grown h h') (new : h.made ≤ a) {i : Nat} (x : Option Nat) :
    Grown h (h'.point (.field a i) x) where
  vars := by cases x <;> exact grown.vars
  made := by cases x <;> exact grown.made
  fields old := by cases x <;> exact grown.fields old
  pointer {l} member := by
    have apart : l ≠ .field a i := by
      rintro rfl
      have := (mem_ptrs_field member).1
      omega
    have same : (h'.point (.field a i) x).pointer l = h'.pointer l := by
      cases x <;> simp [PtrHeap.point, setPointer, setRefs, apart]
    rw [same]
    exact grown.pointer member

end

/-! ## Objects that are not complete -/

/-- The heap during a read, also behind an error. `base` is the heap before, `outer` has the keys of the objects under
construction, and `t` is an object that has not been assigned yet. -/
structure Underway (base : PtrHeap) (outer : List Nat) (t : Option Nat) (idxStore : Nat → Option Nat) (h : PtrHeap) :
    Prop where
  counted : Counted h
  vars : h.vars = base.vars
  calm : ∀ a, h.status a ≠ .releasing
  touched : ∀ {a}, 0 < h.count a → h.held a = true
  fresh : ∀ {a}, base.made ≤ a → h.status a = .live → h.held a = true ∨ t = some a
  opened : ∀ {a}, h.status a = .constructing ↔ ∃ k ∈ outer, idxStore k = some a

section
variable {base h h' : PtrHeap} {outer : List Nat} {idxStore : Nat → Option Nat} {k p : Nat}

/-- The entry of one more object does not matter to another one. -/
theorem exists_entry_cons {a : Nat} (new : k ∉ outer) (apart : a ≠ p) :
    (∃ j ∈ k :: outer, update idxStore k (some p) j = some a) ↔ ∃ j ∈ outer, idxStore j = some a := by
  constructor
  · rintro ⟨j, inside, found⟩
    by_cases here : j = k
    · rw [here, update_self] at found
      exact absurd (Option.some.inj found).symm apart
    · rw [update_of_ne here] at found
      exact ⟨j, List.mem_of_ne_of_mem here inside, found⟩
  · rintro ⟨j, inside, found⟩
    refine ⟨j, List.mem_cons_of_mem _ inside, ?_⟩
    rw [update_of_ne (ne_of_mem_of_not_mem inside new)]
    exact found

/-- An object is begun. -/
theorem Underway.allocate (underway : Underway base outer none idxStore h) (unknown : h.count h.made = 0)
    (new : k ∉ outer) : Underway base (k :: outer) none (update idxStore k (some h.made)) h.allocate := by
  refine ⟨underway.counted.allocate unknown, underway.vars, fun a => ?_, fun {a} pointed => ?_,
    fun {a} newer live => ?_, fun {a} => ?_⟩
  · rw [allocate_status]
    split
    · decide
    · exact underway.calm a
  · rw [count_allocate] at pointed
    rw [allocate_held fun same => by rw [same] at pointed; omega]
    exact underway.touched pointed
  · rw [allocate_status] at live
    split at live
    case isTrue => cases live
    case isFalse old =>
      rw [allocate_held old]
      exact underway.fresh newer live
  · rw [allocate_status]
    by_cases same : a = h.made
    · simp [same]
    · rw [if_neg same, exists_entry_cons new same]
      exact underway.opened

/-- A list that was begun gets its elements. -/
theorem Underway.resize (underway : Underway base outer none idxStore h) (newest : h.made = p + 1)
    (none : h.fields p = 0) (n : Nat) : Underway base outer .none idxStore (h.resize p n) :=
  { underway with
    counted := underway.counted.resize newest none n
    touched := fun {b} pointed => underway.touched (count_resize newest none b ▸ pointed) }

/-- What was read is assigned. -/
theorem Underway.point {a : Nat} {l : PtrLoc} (underway : Underway base outer (some a) idxStore h) (member : l ∈ h.ptrs)
    (place : ∀ {b i}, h.status b = .freed → .field b i ≠ l) (null : h.pointer l = none) (used : h.status a ≠ .freed)
    (room : h.refs a + 1 < 2 ^ 32) : Underway base outer none idxStore (h.point l (some a)) where
  counted := underway.counted.point member place null (underway.calm a) used room
  vars := underway.vars
  calm := underway.calm
  touched := point_touched underway.counted member null underway.touched
  fresh new live := by
    -- the object that waited for its first `Ptr` has one now
    rcases underway.fresh new live with owned | same
    · exact .inl (point_held owned)
    · exact .inl (by simp [PtrHeap.point, Option.some.inj same])
  opened := underway.opened

/-- The constructor of the innermost object returns. -/
theorem Underway.complete (underway : Underway base (k :: outer) none idxStore h) (found : idxStore k = some p)
    (distinct : ∀ {j b}, j ∈ outer → idxStore j = some b → b ≠ p) (kept : h.held p = true → 0 < h.count p) :
    Underway base outer (some p) idxStore (h.setStatus p .live) := by
  have under : h.status p = .constructing := underway.opened.mpr ⟨k, by simp, found⟩
  refine ⟨underway.counted.restatus (by rw [under]; decide) (by rw [under]; decide) (by simp) (fun _ => kept),
    underway.vars, fun b => ?_, underway.touched, fun {b} newer live => ?_, fun {b} => ?_⟩
  · by_cases same : b = p
    · simp [setStatus, same]
    · simp only [setStatus, update_of_ne same]
      exact underway.calm b
  · by_cases same : b = p
    · exact .inr (by rw [same])
    · simp only [setStatus, update_of_ne same] at live
      exact .inl ((underway.fresh newer live).resolve_right (by simp))
  · by_cases same : b = p
    · subst same
      simp only [setStatus, update_self, reduceCtorEq, false_iff]
      rintro ⟨j, member, entry⟩
      exact distinct member entry rfl
    · have first : idxStore k ≠ some b := by
        rw [found]
        exact fun equal => same (Option.some.inj equal).symm
      simp only [setStatus, update_of_ne same]
      rw [underway.opened]
      simp [first]

/-- Destructors leave the objects under construction alone. -/
theorem Underway.resets {ls : List PtrLoc} (underway : Underway base outer none idxStore h) (resets : Resets h ls h') :
    Underway base outer none idxStore h' := by
  have shrinks := resets.shrinks
  refine ⟨resets.counted, shrinks.vars.trans underway.vars, fun a => ?_, fun {a} pointed => ?_, fun {a} new live => ?_,
    fun {a} => ?_⟩
  · rcases shrinks.status a with same | ⟨-, freed⟩
    · rw [same]
      exact underway.calm a
    · rw [freed]
      decide
  · rw [shrinks.held]
    exact underway.touched (pointed.trans_le (shrinks.count_le a))
  · rw [shrinks.held]
    exact underway.fresh new (shrinks.alive live)
  -- destructors take living objects only
  · rw [← underway.opened]
    rcases shrinks.status a with same | ⟨live, freed⟩
    · rw [same]
    · rw [live, freed]
      decide

theorem Resets.endangered_iff {ls : List PtrLoc} (resets : Resets h ls h') :
    (∃ a, h'.Endangered a) ↔ ∃ a, h.Endangered a :=
  ⟨fun ⟨a, danger⟩ => ⟨a, resets.endangered_before danger⟩, fun ⟨a, danger⟩ => ⟨a, resets.endangered danger⟩⟩

/-- `Clear` of the list that could not be read. -/
theorem clear_spec (counted : Counted h) (made : p < h.made) :
    h.clear p = none ∧ (∃ a, h.Endangered a) ∨ ∃ h', h.clear p = some h' ∧ Resets h (h.members p) h' := by
  have enough : h.living ≤ h.made :=
    (Finset.card_le_card (Finset.filter_subset _ _)).trans (Finset.card_range h.made).le
  exact Settles.all (settles h.made) (h.members p) counted (members_mem_ptrs made) enough

/-- A `Ptr` that gets null. -/
theorem assign_null_spec {l : PtrLoc} (counted : Counted h) (member : l ∈ h.ptrs) :
    h.assign l (.value none) = none ∧ (∃ a, h.Endangered a) ∨
      ∃ h', h.assign l (.value none) = some h' ∧ Resets h [l] h' := by
  unfold PtrHeap.assign
  by_cases null : h.pointer l = none
  · exact .inr ⟨h, if_pos null, .null counted null⟩
  · rw [if_neg (by exact null)]
    simp only [PtrHeap.read, Option.map_id']
    exact reset_spec counted member

/-- The block of an object whose constructor has thrown. -/
theorem Underway.free (underway : Underway base (k :: outer) none (update idxStore k (some p)) h)
    (new : k ∉ outer) (unknown : ∀ j ∈ outer, idxStore j ≠ some p)
    (empty : ∀ i, i < h.fields p → h.pointer (.field p i) = none) :
    h.free p = some (h.setStatus p .freed) ∧ Underway base outer none idxStore (h.setStatus p .freed) ∧
      ((∃ a, (h.setStatus p .freed).Endangered a) ↔ ∃ a, h.Endangered a) := by
  -- it is still under construction, whatever `Clear` has released
  have under : h.status p = .constructing := underway.opened.mpr ⟨k, by simp, update_self ..⟩
  have counted : Counted (h.setStatus p .freed) :=
    underway.counted.restatus (by rw [under]; decide) (by rw [under]; decide) (fun _ => empty) (by simp)
  refine ⟨by rw [PtrHeap.free, if_pos under], ⟨counted, underway.vars, fun a => ?_, underway.touched,
    fun {a} newer live => ?_, fun {a} => ?_⟩, ?_⟩
  · by_cases same : a = p
    · simp [setStatus, same]
    · simp only [setStatus, update_of_ne same]
      exact underway.calm a
  · have apart : a ≠ p := by
      rintro rfl
      simp [setStatus] at live
    simp only [setStatus, update_of_ne apart] at live
    exact underway.fresh newer live
  · by_cases same : a = p
    · subst same
      simp only [setStatus, update_self, reduceCtorEq, false_iff]
      rintro ⟨j, inside, found⟩
      exact unknown j inside found
    · simp only [setStatus, update_of_ne same]
      rw [underway.opened, exists_entry_cons new same]
  · have same : ∀ a, (h.setStatus p .freed).Endangered a ↔ h.Endangered a := by
      intro a
      unfold Endangered
      rw [count_setStatus]
      by_cases same : a = p
      · simp [setStatus, same, under]
      · simp [setStatus, same]
    simp only [same]

end

end PtrHeap

end Xxlib.Uv4
