import Xxlib.Uv4.PoolReading

/-! What a read leaves in the pool, failed or not (`xx_bbuffer.hpp`, `xx_mempool.hpp`, `xx_list.hpp`). -/

set_option autoImplicit false

namespace Xxlib.Uv4

open Function (update update_self update_of_ne)
open Lib PtrHeap

/-! ## A read beside its scan -/

structure Continues (r r' : PoolReader) : Prop where
  data : r'.bb.data = r.bb.data
  offset : r.bb.offset ≤ r'.bb.offset
  entries : ∀ {k a}, r.idxStore k = some a → r'.idxStore k = some a

/-- An object that is not complete has been named. -/
def Exposed (outer opened : List Nat) (s : Seen) : Prop := ∃ k ∈ opened ++ outer, k ∈ s.named

/-- What a part of a read and the scan of the same bytes have in common. `start` is a heap of before whose objects are
not the ones that are being built, and `target` is what is still to be assigned. -/
inductive Follows {α : Type} (base start : PtrHeap) (outer : List Nat) (target : α → Option Nat) (r : PoolReader) :
    Outcome α → Scan → Prop where
  | ok {x : α} {r' : PoolReader} {s' : Seen} : Building base outer (target x) r' s' → Grown start r'.heap →
      Continues r r' → Follows base start outer target r (.ok x r') (.ok s')
  | error {code : Int} {r' : PoolReader} {opened : List Nat} {s' : Seen} :
      Underway base outer none r.idxStore r'.heap → Grown start r'.heap →
      ((∃ a, r'.heap.Endangered a) ↔ Exposed outer opened s') →
      Follows base start outer target r (.error code r') (.error opened s')
  /-- Destructors have met an object that is not complete. -/
  | released {opened : List Nat} {s' : Seen} : Exposed outer opened s' →
      Follows base start outer target r .undefined (.error opened s')
  | wrapped : Follows base start outer target r .undefined .undefined
  /-- Nothing is said where a count wraps around. -/
  | crowded {o : Outcome α} : Follows base start outer target r o .crowded

/-- Enough fuel for the bytes that are left. -/
def Reads (base : PtrHeap) (listId : UInt16) (fuel : Nat) : Prop :=
  ∀ {outer : List Nat} {r : PoolReader} {s : Seen}, Building base outer none r s →
    r.bb.data.length - r.bb.offset < fuel →
    Follows base r.heap outer id r (PoolReader.readPtr listId fuel r) (Seen.scanPtr listId fuel s)

section
variable {α : Type} {base start : PtrHeap} {outer opened : List Nat} {target : α → Option Nat} {r r' r'' : PoolReader}
  {s : Seen} {bb : BBuffer} {k p : Nat} {listId : UInt16} {fuel : Nat}

theorem Continues.refl (r : PoolReader) : Continues r r := ⟨rfl, le_refl _, id⟩

theorem Continues.trans (first : Continues r r') (second : Continues r' r'') : Continues r r'' :=
  ⟨second.data.trans first.data, first.offset.trans second.offset,
    fun found => second.entries (first.entries found)⟩

theorem Continues.advance (taken : Advances r.bb bb) : Continues r { r with bb } :=
  ⟨taken.data, taken.less.le, id⟩

/-- The objects under construction have the same entries later. -/
theorem PtrHeap.Underway.earlier {h : PtrHeap} (underway : Underway base outer none r'.idxStore h)
    (first : Continues r r') (begun : ∀ k ∈ outer, ∃ a, r.idxStore k = some a) : Underway base outer none r.idxStore h :=
  { underway with
    opened := fun {a} => by
      rw [underway.opened]
      refine exists_congr fun k => and_congr_right fun inside => ?_
      obtain ⟨b, found⟩ := begun k inside
      rw [found, first.entries found] }

theorem Follows.earlier {o : Outcome α} {scan : Scan} (follows : Follows base start outer target r' o scan)
    (first : Continues r r') (begun : ∀ k ∈ outer, ∃ a, r.idxStore k = some a) :
    Follows base start outer target r o scan := by
  cases follows with
  | ok building grown second => exact .ok building grown (first.trans second)
  | error underway grown danger => exact .error (underway.earlier first begun) grown danger
  | released exposed => exact .released exposed
  | wrapped => exact .wrapped
  | crowded => exact .crowded

/-- An error while nothing is to be assigned. -/
theorem Building.fails (building : Building base outer none r' s) (grown : Grown start r'.heap)
    (same : r'.idxStore = r.idxStore) (code : Int) :
    Follows base start outer target r (.error code r') (.error [] s) :=
  .error (same ▸ building.toUnderway) grown building.endangered_iff

/-! ## Lists -/

theorem readItems_follows (reads : Reads base listId fuel) {i n : Nat} (building : Building base outer none r s)
    (grown : Grown start r.heap) (new : start.made ≤ p) (newer : base.made ≤ p) (found : r.idxStore k = some p)
    (fields : r.heap.fields p = i + n)
    (null : ∀ j, i ≤ j → j < i + n → r.heap.pointer (.field p j) = none)
    (enough : r.bb.data.length - r.bb.offset < fuel) :
    Follows base start outer (fun _ => none) r (PoolReader.readItems (PoolReader.readPtr listId fuel) p i n r)
      (Seen.scanItems (Seen.scanPtr listId fuel) n s) := by
  induction n generalizing i r s with
  | zero => exact .ok building grown (.refl r)
  | succ n ih =>
    have begun : ∀ k ∈ outer, ∃ a, r.idxStore k = some a := fun k member =>
      building.begun.mp (building.outer_begun member)
    have member : ∀ j, j < i + (n + 1) → .field p j ∈ r.heap.ptrs := fun j below =>
      field_mem_ptrs (building.known found) (fields ▸ below)
    have item := reads building enough
    unfold PoolReader.readItems PoolReader.readFrom Seen.scanItems
    generalize PoolReader.readPtr listId fuel r = o at item ⊢
    generalize Seen.scanPtr listId fuel s = scan at item ⊢
    -- the element is read before the `Ptr` is assigned, and that is still null by then
    cases item with
    | @ok t r₁ s₁ building₁ grown₁ first =>
      have null₁ : ∀ j, i ≤ j → j < i + (n + 1) → r₁.heap.pointer (.field p j) = none := fun j above below =>
        grown₁.null (member j below) (null j above below)
      have fields₁ : r₁.heap.fields p = i + (n + 1) := (grown₁.fields (building.known found)).trans fields
      have here := null₁ i (le_refl _) (by omega)
      have used := (building₁.entry (first.entries found)).2
      have building₂ := building₁.point newer used (by omega) here
      have assigned : r₁.assign (.field p i) t = some { r₁ with heap := r₁.heap.point (.field p i) t } := by
        rw [PoolReader.assign, assign_of_null here, Option.map_some]
      have status : ∀ j, i + 1 ≤ j → j < i + 1 + n →
          (r₁.heap.point (.field p i) t).pointer (.field p j) = none := by
        intro j above below
        have apart : j ≠ i := by omega
        have before := null₁ j (by omega) (by omega)
        cases t <;> simp [PtrHeap.point, setPointer, setRefs, apart, before]
      have fields₂ : (r₁.heap.point (.field p i) t).fields p = i + 1 + n := by
        cases t <;> simp [PtrHeap.point, setPointer, setRefs, fields₁] <;> omega
      have enough₁ : r₁.bb.data.length - r₁.bb.offset < fuel := by
        have := first.offset
        rw [first.data]
        omega
      have rest := ih building₂ ((grown.trans grown₁).point new t) (first.entries found) fields₂ status
        enough₁
      have later : Continues r { r₁ with heap := r₁.heap.point (.field p i) t } :=
        ⟨first.data, first.offset, first.entries⟩
      simp only [assigned]
      exact rest.earlier later begun
    | @error code r₁ opened s₁ underway grown₁ danger =>
      simp only [PoolReader.assign]
      -- the `Ptr` of the element gets null, which it has been all the time
      rcases assign_null_spec underway.counted (grown₁.mem_ptrs (member i (by omega))) with
        ⟨failed, endangered⟩ | ⟨h', assigned, resets⟩
      · rw [failed]
        exact .released (danger.mp endangered)
      · rw [assigned]
        exact .error (underway.resets resets) ((grown.trans grown₁).trans resets.shrinks.grown)
          (resets.endangered_iff.trans danger)
    | released exposed => exact .released exposed
    | wrapped => exact .wrapped
    | crowded => exact .crowded

/-- The constructors. The members of an object whose constructor throws are null again. -/
theorem construct_follows (reads : Reads base listId fuel) (building : Building base outer none r s)
    (grown : Grown start r.heap) (new : start.made ≤ p) (newer : base.made ≤ p) (inside : k ∈ outer)
    (found : r.idxStore k = some p) (newest : r.heap.made = p + 1) (fields : r.heap.fields p = 0) (T : Creator)
    (enough : r.bb.data.length - r.bb.offset < fuel) :
    Follows base start outer (fun _ => none) r (PoolReader.construct (PoolReader.readPtr listId fuel) p T r)
        (Seen.scanObject (Seen.scanPtr listId fuel) T s) ∧
      ∀ code r', PoolReader.construct (PoolReader.readPtr listId fuel) p T r = .error code r' →
        Seen.scanObject (Seen.scanPtr listId fuel) T s ≠ .crowded →
        ∀ i, i < r'.heap.fields p → r'.heap.pointer (.field p i) = none := by
  have begun : ∀ k ∈ outer, ∃ a, r.idxStore k = some a := fun k member =>
    building.begun.mp (building.outer_begun member)
  unfold PoolReader.construct Seen.scanObject
  rw [building.bytes]
  cases length : takeLength r.bb with
  | error code =>
    refine ⟨building.fails grown rfl code, ?_⟩
    rintro _ _ ⟨⟩ - i below
    omega
  | ok result =>
    obtain ⟨len, bb⟩ := result
    have taken := takeLength_advances length
    by_cases wraps : Wraps bb len
    · simp only [if_pos wraps]
      exact ⟨.wrapped, by rintro _ _ ⟨⟩⟩
    simp only [if_neg wraps]
    have bytes : ∀ {bb'}, bb' = { bb with offset := bb.offset + len } → Advances r.bb bb' := by
      rintro bb' rfl
      unfold Wraps at wraps
      have enough : bb.offset + len ≤ bb.data.length := by omega
      exact ⟨taken.data, taken.root, taken.less.trans_le (Nat.le_add_right _ _), enough⟩
    cases T with
    | string => exact ⟨.ok (building.advance (bytes rfl)) grown (.advance (bytes rfl)), by rintro _ _ ⟨⟩⟩
    | bbuffer => exact ⟨.ok (building.advance (bytes rfl)) grown (.advance (bytes rfl)), by rintro _ _ ⟨⟩⟩
    | listOfPtr =>
      -- the elements are read into a list that has its length already
      have advanced := (building.advance taken).resize newest fields len
      have items := readItems_follows reads (i := 0) (n := len) advanced (grown.resize new) new newer found
        (by simp [PtrHeap.resize]) (fun j _ _ => by simp [PtrHeap.resize])
        (by show bb.data.length - bb.offset < fuel; rw [taken.data]; have := taken.less; omega)
      have first : Continues r { r with bb, heap := r.heap.resize p len } :=
        ⟨taken.data, taken.less.le, id⟩
      simp only
      generalize PoolReader.readItems (PoolReader.readPtr listId fuel) p 0 len
        { r with bb, heap := r.heap.resize p len } = o at items ⊢
      generalize Seen.scanItems (Seen.scanPtr listId fuel) len { s with bb } = scan at items ⊢
      have items := items.earlier first begun
      cases items with
      | ok building₁ grown₁ second => exact ⟨.ok building₁ grown₁ second, by rintro _ _ ⟨⟩⟩
      | @error code r₁ opened s₁ underway grown₁ danger =>
        have under : r₁.heap.status p = .constructing := underway.opened.mpr ⟨k, inside, found⟩
        rcases clear_spec underway.counted (underway.counted.known (by rw [under]; decide)) with
          ⟨failed, endangered⟩ | ⟨h', cleared, resets⟩
        · simp only [failed]
          exact ⟨.released (danger.mp endangered), by rintro _ _ ⟨⟩⟩
        · simp only [cleared]
          refine ⟨.error (underway.resets resets) (grown₁.trans resets.shrinks.grown)
            (resets.endangered_iff.trans danger), ?_⟩
          rintro _ _ ⟨⟩ - i below
          rw [show h'.fields = _ from resets.shrinks.fields] at below
          exact resets.cleared _ (List.mem_map.mpr ⟨i, by simpa using below, rfl⟩)
      | released exposed => exact ⟨.released exposed, by rintro _ _ ⟨⟩⟩
      | wrapped => exact ⟨.wrapped, by rintro _ _ ⟨⟩⟩
      | crowded => exact ⟨.crowded, fun _ _ _ counted => absurd rfl counted⟩

/-! ## Objects -/

theorem exposed_cons : Exposed (k :: outer) opened s ↔ Exposed outer (k :: opened) s := by
  unfold Exposed
  simp only [List.mem_append, List.mem_cons]
  exact exists_congr fun j => and_congr_left fun _ => by tauto

theorem create_follows (reads : Reads base listId fuel) (building : Building base outer none r s)
    (taken : Advances r.bb bb) (new : r.bb.offset ≤ k + r.bb.offsetRoot) (behind : k + r.bb.offsetRoot < bb.offset)
    (T : Creator) (enough : bb.data.length - bb.offset < fuel) :
    Follows base r.heap outer id r (PoolReader.create (PoolReader.readPtr listId fuel) k T { r with bb })
      (match Seen.scanObject (Seen.scanPtr listId fuel) T { s with bb, begun := k :: s.begun } with
      | .error opened s => .error (k :: opened) s
      | other => other) := by
  have fresh : k ∉ outer := fun inside => by
    have := building.older (building.outer_begun inside)
    omega
  have begun := building.begin taken new behind
  have fields : r.heap.allocate.fields r.heap.made = 0 := update_self ..
  obtain ⟨object, empty⟩ := construct_follows reads begun (.allocate r.heap) (le_refl _) building.made
    List.mem_cons_self (update_self ..) rfl fields T enough
  unfold PoolReader.create
  simp only
  generalize PoolReader.construct (PoolReader.readPtr listId fuel) r.heap.made T _ = o at object empty ⊢
  generalize Seen.scanObject (Seen.scanPtr listId fuel) T _ = scan at object empty ⊢
  cases object with
  | @ok _ r₁ s₁ building₁ grown second =>
    have found := second.entries (update_self ..)
    refine .ok (building₁.complete found fresh) (grown.restatus _) ?_
    exact ⟨second.data.trans taken.data, taken.less.le.trans second.offset,
      fun {j a} entry => second.entries (by
        have apart : j ≠ k := by
          rintro rfl
          have := building.older (building.begun.mpr ⟨a, entry⟩)
          omega
        exact (update_of_ne apart _ _).trans entry)⟩
  | @error code r₁ opened s₁ underway grown danger =>
    have unknown : ∀ j ∈ outer, r.idxStore j ≠ some r.heap.made := fun j _ entry =>
      Nat.lt_irrefl _ (building.known entry)
    obtain ⟨freed, underway', danger'⟩ := underway.free fresh unknown (empty _ _ rfl nofun)
    simp only [freed]
    exact .error underway' (grown.restatus _) ((danger'.trans danger).trans exposed_cons)
  | released exposed => exact .released (exposed_cons.mp exposed)
  | wrapped => exact .wrapped
  | crowded => exact .crowded

/-- By induction on the fuel: an object has taken a byte before its elements are read. -/
theorem readPtr_follows (base : PtrHeap) (listId : UInt16) (fuel : Nat) : Reads base listId fuel := by
  induction fuel with
  | zero =>
    intro outer r s building enough
    omega
  | succ fuel ih =>
    intro outer r s building enough
    unfold PoolReader.readPtr Seen.scanPtr
    rw [building.bytes]
    cases type : takeTypeId r.bb with
    | error code => exact building.fails (.refl _) rfl code
    | ok result =>
      obtain ⟨tid, bb⟩ := result
      have first := takeTypeId_advances type
      have advanced := building.advance first
      simp only
      by_cases null : tid = 0
      · rw [if_pos null, if_pos null]
        exact .ok advanced (.refl _) (.advance first)
      rw [if_neg null, if_neg null]
      cases creators listId tid with
      | none => exact advanced.fails (r := r) (.refl _) rfl (-5)
      | some T =>
        cases size : takeSize bb with
        | error code => exact advanced.fails (r := r) (.refl _) rfl code
        | ok result =>
          obtain ⟨k, bb'⟩ := result
          have second := takeSize_advances size
          have taken := first.trans second
          have less := first.less
          have less' := second.less
          have inside := second.inside
          have root := building.root
          simp only
          by_cases here : k = bb.offset - bb.offsetRoot
          · rw [if_pos here, if_pos here]
            rw [first.root] at here
            exact create_follows ih building taken (by omega) (by omega) T (by rw [taken.data] at inside ⊢; omega)
          rw [if_neg here, if_neg here]
          cases found : r.idxStore k with
          | none =>
            have unknown : k ∉ s.begun := fun inside => by
              obtain ⟨a, entry⟩ := building.begun.mp inside
              rw [found] at entry
              cases entry
            rw [if_neg unknown]
            exact (building.advance taken).fails (r := r) (.refl _) rfl (-4)
          | some a =>
            rw [if_pos (building.begun.mpr ⟨a, found⟩)]
            simp only [if_neg (building.entry found).2]
            split
            case isTrue room => exact .ok (building.refer taken found room) (.refl _) (.advance taken)
            case isFalse => exact .crowded

/-! ## The whole read -/

/-- The read begins. -/
theorem PtrHeap.Settled.building (settled : Settled base) (root : bb.offsetRoot ≤ bb.offset) :
    Building base [] none { bb, heap := base } { bb } := by
  have status : ∀ {a}, base.made ≤ a → base.status a ≠ .live := fun newer live => by
    have := settled.known live
    omega
  refine
    { counted := settled.counted
      vars := rfl
      calm := fun a running => ?_
      touched := settled.touched
      fresh := fun newer live => absurd live (status newer)
      opened := fun {a} => ?_
      bytes := rfl
      made := le_refl _
      pointed := fun pointed freed => ?_
      kept := fun {a} under _ => ?_
      within := fun member points newer => absurd (settled.points member points) (status newer)
      begun := by simp
      outer_begun := nofun
      named_begun := nofun
      entry := nofun
      injective := nofun
      root := root
      older := nofun
      named := nofun
      few := nofun
      countable := fun _ => by simp
      value := nofun }
  · rcases settled.calm a with same | same <;> rw [running] at same <;> cases same
  · rcases settled.calm a with same | same <;> simp [same]
  · rw [settled.safe pointed] at freed
    cases freed
  · rcases settled.calm a with same | same <;> rw [under] at same <;> cases same

section
variable {h h' : PtrHeap} {t : Option Nat} {idxStore : Nat → Option Nat} {v a : Nat}

theorem PtrHeap.Underway.live_or_freed (underway : Underway base [] t idxStore h) (a : Nat) :
    h.status a = .live ∨ h.status a = .freed := by
  cases status : h.status a with
  | constructing =>
    obtain ⟨k, inside, -⟩ := underway.opened.mp status
    cases inside
  | releasing => exact absurd status (underway.calm a)
  | live => exact .inl rfl
  | freed => exact .inr rfl

theorem PtrHeap.Underway.settled (underway : Underway base [] t idxStore h) (safe : ¬∃ a, h.Endangered a) :
    Settled h where
  counted := underway.counted
  calm := underway.live_or_freed
  safe {a} pointed := (underway.live_or_freed a).resolve_right fun freed => safe ⟨a, .inr freed, pointed⟩
  touched := underway.touched

theorem PtrHeap.Settled.intact (settled : Settled h)
    (owned : ∀ {a}, base.made ≤ a → h.status a = .live → 0 < h.count a) : Intact base h := by
  refine ⟨settled.exact, settled.calm, fun a newer live => ?_⟩
  rw [settled.pointing_existing]
  exact owned newer live

/-- A `Ptr` to an object that is gone lies in an object that lives. -/
theorem PtrHeap.Underway.broken (underway : Underway base [] t idxStore h) (danger : h.Endangered a) : ¬Exact h := by
  intro exact'
  have counted := underway.counted
  obtain ⟨l, member, points⟩ := pointing_pos_iff.mp danger.2
  have there : h.Exists l := by
    cases l with
    | var w =>
      rcases List.mem_append.mp member with var | field
      · show w ∈ h.vars
        simpa using var
      · simp [members] at field
    | field b i =>
      obtain ⟨-, inside⟩ := mem_ptrs_field member
      refine ⟨(underway.live_or_freed b).resolve_right fun freed => ?_, inside⟩
      rw [counted.empty freed inside] at points
      cases points
  have live := exact'.alive l a there points
  rcases danger.1 with kind | kind <;> rw [live] at kind <;> cases kind

/-- No `Ptr` from before keeps a new object alive. -/
theorem Building.not_lost (building : Building base [] t r s) (settled : Settled r.heap) (newer : base.made ≤ a) :
    ¬Lost r.heap (.var v) a := by
  intro lost
  induction lost with
  | intro pointed vars fields ih =>
    obtain ⟨l, there, points⟩ := pointed
    -- what points to a new object lies in a new object, which would be lost in turn
    obtain ⟨b, i, rfl, newer'⟩ := building.within (settled.mem_ptrs there) points newer
    exact ih b i there points nofun newer'

/-- An assignment makes no objects and no variables. -/
theorem assign_keeps {l : PtrLoc} {o : Source} (counted : Counted h) (member : l ∈ h.ptrs)
    (assigned : h.assign l o = some h') : h'.vars = h.vars ∧ ∀ a, h'.status a = .live → h.status a = .live := by
  unfold PtrHeap.assign at assigned
  split at assigned
  · cases assigned
    exact ⟨rfl, fun _ => id⟩
  · rcases reset_spec counted member with ⟨fails, -⟩ | ⟨h₁, reset, resets⟩
    · rw [fails] at assigned
      cases assigned
    · have shrinks := resets.shrinks
      rw [reset, Option.map_some] at assigned
      have after := Option.some.inj assigned
      subst after
      split
      · exact ⟨shrinks.vars, fun _ => shrinks.alive⟩
      · exact ⟨shrinks.vars, fun _ => shrinks.alive⟩

/-- The root is assigned. -/
theorem Building.root_assigned (building : Building base [] t r s) (there : v ∈ base.vars) :
    ∃ h', r.heap.assign (.var v) (.value t) = some h' ∧ Settled h' ∧ Intact base h' := by
  -- all constructors have returned
  have safe : ¬∃ a, r.heap.Endangered a := by
    rintro ⟨a, kind, pointed⟩
    have freed := (building.live_or_freed a).resolve_left (by rcases kind with kind | kind <;> rw [kind] <;> decide)
    exact building.pointed pointed freed
  have settled := building.settled safe
  have exists' : r.heap.Exists (.var v) := by
    show v ∈ r.heap.vars
    rw [building.vars]
    exact there
  have valid : r.heap.Valid t := by
    intro a same
    obtain ⟨k, found⟩ := building.value same
    exact (building.live_or_freed a).resolve_right (building.entry found).2
  have countable : r.heap.Countable t := by
    intro a same
    obtain ⟨k, found⟩ := building.value same
    have few := building.few found
    have less := building.countable k
    have refs := settled.counted.count (a := a) (by rw [valid a same]; decide) (by rw [valid a same]; simp)
    rw [if_pos same, if_neg (List.not_mem_nil)] at few
    omega
  have independent : r.heap.Independent (.var v) (.value t) := by
    refine fun _ => ⟨nofun, fun a same => ?_⟩
    obtain ⟨k, found⟩ := building.value same
    exact building.not_lost settled (building.entry found).1
  obtain ⟨h', assigned, leaves⟩ := settled.assign (o := .value t) exists' valid countable independent
  refine ⟨h', assigned, leaves.settled, leaves.settled.intact fun {a} newer live => ?_⟩
  obtain ⟨vars, alive⟩ := assign_keeps settled.counted (settled.mem_ptrs exists') assigned
  have before := alive a live
  rcases building.fresh newer before with held | same
  · -- the object had a `Ptr`, and it would be gone if it had none any more
    have owned := settled.counted.owned before held
    by_contra none
    refine (leaves.released a before).mpr ⟨?_, ?_⟩ live
    · rw [settled.pointing_existing]
      exact owned
    · rw [leaves.settled.pointing_existing]
      omega
  · have member : .var v ∈ h'.ptrs := List.mem_append_left _ (List.mem_map.mpr ⟨v, by rw [vars]; exact exists', rfl⟩)
    exact pointing_pos member (leaves.pointer.trans same)

/-- An error reaches the root. -/
theorem PtrHeap.Underway.root_cleared (underway : Underway base [] none idxStore h) (there : v ∈ base.vars) :
    h.assign (.var v) (.value none) = none ∧ (∃ a, h.Endangered a) ∨
      ∃ h', h.assign (.var v) (.value none) = some h' ∧ Underway base [] none idxStore h' ∧
        ((∃ a, h'.Endangered a) ↔ ∃ a, h.Endangered a) := by
  have member : .var v ∈ h.ptrs :=
    List.mem_append_left _ (List.mem_map.mpr ⟨v, by rw [underway.vars]; exact there, rfl⟩)
  rcases assign_null_spec underway.counted member with failed | ⟨h', assigned, resets⟩
  · exact .inl failed
  · exact .inr ⟨h', assigned, underway.resets resets, resets.endangered_iff⟩

theorem PtrHeap.Underway.intact (underway : Underway base [] none idxStore h) (safe : ¬∃ a, h.Endangered a) :
    Settled h ∧ Intact base h := by
  have settled := underway.settled safe
  refine ⟨settled, settled.intact fun newer live => settled.counted.owned live ?_⟩
  exact (underway.fresh newer live).resolve_right (by simp)

theorem poolReadRoot_follows (settled : Settled base) (listId : UInt16) (bb : BBuffer) :
    Follows base base [] id { bb := { bb with offsetRoot := bb.offset }, heap := base }
      (PoolReader.readPtr listId (bb.data.length + 1) { bb := { bb with offsetRoot := bb.offset }, heap := base })
      (scanRoot listId bb) := by
  have start : Building base [] none { bb := { bb with offsetRoot := bb.offset }, heap := base }
      { bb := { bb with offsetRoot := bb.offset } } := settled.building (le_refl bb.offset)
  exact readPtr_follows base listId (bb.data.length + 1) start (by show bb.data.length - bb.offset < _; omega)

/-- Clean bytes, read with success or not, leave a pool in order. -/
theorem Clean.reads (clean : Clean listId bb) (settled : Settled base) (there : v ∈ base.vars) :
    ∃ r', (poolReadRoot listId base bb v = .ok () r' ∨ ∃ code, poolReadRoot listId base bb v = .error code r') ∧
      Settled r'.heap ∧ Intact base r'.heap := by
  have follows := poolReadRoot_follows settled listId bb
  unfold poolReadRoot PoolReader.readFrom
  unfold Clean at clean
  generalize PoolReader.readPtr listId (bb.data.length + 1) _ = o at follows ⊢
  generalize scanRoot listId bb = scan at follows clean
  cases follows with
  | @ok t r₁ s₁ building _ _ =>
    obtain ⟨h', assigned, settled', intact⟩ := building.root_assigned there
    refine ⟨{ r₁ with heap := h' }, .inl ?_, settled', intact⟩
    simp only [PoolReader.assign]
    rw [show r₁.heap.assign (.var v) (.value t) = some h' from assigned]
    rfl
  | @error code r₁ opened s₁ underway _ danger =>
    have safe : ¬∃ a, r₁.heap.Endangered a := by
      rw [danger]
      rintro ⟨k, inside, named⟩
      exact clean k (by simpa using inside) named
    rcases underway.root_cleared there with ⟨-, endangered⟩ | ⟨h', assigned, underway', danger'⟩
    · exact absurd endangered safe
    · refine ⟨{ r₁ with heap := h' }, .inr ⟨code, ?_⟩, underway'.intact (danger'.not.mpr safe)⟩
      simp only [PoolReader.assign, assigned, Option.map_some]
  | released exposed =>
    obtain ⟨k, inside, named⟩ := exposed
    exact absurd named (clean k (by simpa using inside))
  | wrapped => cases clean
  | crowded => cases clean

/-- Where an object was named that is not complete, the error leaves a `Ptr` to what is freed, or frees it twice. -/
theorem ReadsIntact.clean (intact : ReadsIntact listId base bb v) (settled : Settled base) (there : v ∈ base.vars)
    (countable : scanRoot listId bb ≠ .crowded) : Clean listId bb := by
  have follows := poolReadRoot_follows settled listId bb
  obtain ⟨r', returned, intact⟩ := intact
  unfold poolReadRoot PoolReader.readFrom at returned
  unfold Clean
  generalize PoolReader.readPtr listId (bb.data.length + 1) _ = o at follows returned
  generalize scanRoot listId bb = scan at follows countable ⊢
  cases follows with
  | ok => trivial
  | @error code r₁ opened s₁ underway _ danger =>
    intro k inside named
    have endangered := danger.mpr ⟨k, by simpa using inside, named⟩
    simp only [PoolReader.assign] at returned
    rcases underway.root_cleared there with ⟨failed, -⟩ | ⟨h', assigned, underway', danger'⟩
    · simp [failed] at returned
    -- the error comes back, and the `Ptr` is still there
    · obtain ⟨a, endangered'⟩ := danger'.mpr endangered
      simp only [assigned, Option.map_some, reduceCtorEq, Outcome.error.injEq, false_or] at returned
      obtain ⟨-, -, rfl⟩ := returned
      exact underway'.broken endangered' intact.1
  | released => simp at returned
  | wrapped => simp at returned
  | crowded => exact absurd rfl countable

theorem InUse.settled (used : InUse listId h) : Settled h := by
  induction used with
  | start => exact .start
  | step _ permitted regular stepped ih =>
    obtain ⟨h', found, settled, -⟩ := ih.goes permitted regular
    rw [stepped] at found
    exact Option.some.inj found ▸ settled
  | read _ there clean returned ih =>
    obtain ⟨r', returned', settled, -⟩ := clean.reads ih there
    rcases returned with ok | ⟨code, error⟩
    · simp only [ok, Outcome.ok.injEq, reduceCtorEq, exists_false, or_false, true_and] at returned'
      exact returned' ▸ settled
    · simp only [error, Outcome.error.injEq, reduceCtorEq, false_or] at returned'
      obtain ⟨-, -, same⟩ := returned'
      exact same ▸ settled

/-- A read of any bytes leaves the pool intact where they are clean, and, as long as the references can be counted,
only there. -/
theorem read_leaves_pool_intact (used : InUse listId h) (there : v ∈ h.vars) :
    (Clean listId bb → ReadsIntact listId h bb v) ∧
      (scanRoot listId bb ≠ .crowded → ReadsIntact listId h bb v → Clean listId bb) := by
  refine ⟨fun clean => ?_, fun countable intact => intact.clean used.settled there countable⟩
  obtain ⟨r', returned, -, intact⟩ := clean.reads used.settled there
  exact ⟨r', returned, intact⟩

end

end

/-- A pool with one variable. -/
def oneVariable : PtrHeap := ({} : PtrHeap).construct 0 none

theorem oneVariable_inUse (listId : UInt16) : InUse listId oneVariable :=
  .step (e := .construct 0 none) .start ⟨List.not_mem_nil, nofun⟩ nofun rfl

/-- A list of a string and of something that no type id stands for. -/
theorem read_leaves_pool_intact_string : ∃ code r',
    poolReadRoot 3 oneVariable { data := [3, 1, 2, 1, 4, 1, 65, 9] } 0 = .error code r' ∧
      ReadsIntact 3 oneVariable { data := [3, 1, 2, 1, 4, 1, 65, 9] } 0 :=
  ⟨_, _, rfl, (read_leaves_pool_intact (oneVariable_inUse 3) List.mem_cons_self).1 (by decide)⟩

/-- A list has itself as an element, and then something that no type id stands for: `Clear` releases the list, whose
constructor has not returned. Where the first element is a complete list instead, with that list and itself as its
elements, it stays alive with a `Ptr` to what was freed. -/
theorem failed_read_releases_twice :
    InUse 3 oneVariable ∧ 0 ∈ oneVariable.vars ∧
    poolReadRoot 3 oneVariable { data := [3, 1, 2, 3, 1, 9] } 0 = .undefined ∧
    (∃ code r', poolReadRoot 3 oneVariable { data := [3, 1, 2, 3, 4, 2, 3, 1, 3, 4, 9] } 0 = .error code r' ∧
      ¬Intact oneVariable r'.heap) ∧
    ¬ReadsIntact 3 oneVariable { data := [3, 1, 2, 3, 1, 9] } 0 := by
  refine ⟨oneVariable_inUse 3, List.mem_cons_self, rfl, ⟨_, _, rfl, fun intact => ?_⟩, ?_⟩
  · have live := intact.1.alive (.field 1 0) 0 ⟨rfl, by decide⟩ rfl
    cases live
  · rintro ⟨r', ok | ⟨code, error⟩, -⟩
    · cases ok
    · cases error

end Xxlib.Uv4
