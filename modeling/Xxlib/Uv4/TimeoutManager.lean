import Xxlib.Lib.Links

/-! The timing wheel: `UvTimeoutManager` and `UvTimeouterBase` (`xx_uv.cpp`).

A slot of the wheel is a doubly linked list of timeouters. `Process` walks along a slot with
the next timeouter in its hand, while the handlers it calls change the lists. A step of the model
is a call, or the return of a handler; an access to a timeouter that was released has no result.
-/

set_option autoImplicit false

namespace Xxlib.Uv4

open Lib

/-- The fields of all timeouters, by address, and the fields of their manager. An index of -1 is `none`. While
a handler is called by `Process`, `firing` holds the variables `t` and `nt` of its loop. -/
structure Wheel (A : Type) where
  alive : A → Bool
  timeouterPrev : A → Option A
  timeouterNext : A → Option A
  timeouterIndex : A → Option Nat
  timeouterss : Nat → Option A
  wheelLen : Nat
  cursor : Nat
  defaultInterval : Nat
  firing : Option (A × Option A)

namespace Wheel

variable {A : Type} [DecidableEq A]

/-! ## Calls -/

/-- Whether `Timeouting` answers `true`, for a timeouter that is bound to the manager. -/
def Timeouting (s : Wheel A) (t : A) : Prop := s.timeouterIndex t ≠ none ∨ s.timeouterPrev t ≠ none

instance (s : Wheel A) (t : A) : Decidable (s.Timeouting t) := inferInstanceAs (Decidable (_ ∨ _))

/-- The pointer is null, or what it points to was not released. -/
def Valid (s : Wheel A) (p : Option A) : Prop := ∀ a, p = some a → s.alive a = true

instance (s : Wheel A) (p : Option A) : Decidable (s.Valid p) :=
  match p with
  | none => .isTrue fun _ same => nomatch same
  | some a => decidable_of_iff (s.alive a = true) ⟨fun alive _ same => Option.some.inj same ▸ alive, fun valid => valid a rfl⟩

def timeouterClear (s : Wheel A) (t : A) : Wheel A :=
  { s with
    timeouterPrev := Function.update s.timeouterPrev t none
    timeouterNext := Function.update s.timeouterNext t none
    timeouterIndex := Function.update s.timeouterIndex t none }

/-- The slot for an interval, seen from the cursor. -/
def slotOf (s : Wheel A) (interval : Nat) : Nat :=
  let slot := (if interval = 0 then s.defaultInterval else interval) + s.cursor
  if s.wheelLen ≤ slot then slot - s.wheelLen else slot

def add (s : Wheel A) (t : A) (interval : Nat) : Option (Wheel A) :=
  let slot := s.slotOf interval
  if slot < s.wheelLen ∧ s.Valid (s.timeouterss slot) then
    some { s with
      timeouterPrev := redirect (Function.update s.timeouterPrev t none) (s.timeouterss slot) (some t)
      timeouterIndex := Function.update s.timeouterIndex t (some slot)
      timeouterNext := Function.update s.timeouterNext t (s.timeouterss slot)
      timeouterss := Function.update s.timeouterss slot (some t) }
  else none

/-- The slot that `Remove` writes to, if it does. -/
def headSlot (s : Wheel A) (t : A) : Option (Nat → Option A) :=
  match s.timeouterPrev t, s.timeouterIndex t with
  | some _, _ => some s.timeouterss
  | none, some slot => some (Function.update s.timeouterss slot (s.timeouterNext t))
  | none, none => none

def remove (s : Wheel A) (t : A) : Option (Wheel A) := do
  let heads ← s.headSlot t
  if s.Valid (s.timeouterNext t) ∧ s.Valid (s.timeouterPrev t) then
    some (timeouterClear { s with
      timeouterPrev := redirect s.timeouterPrev (s.timeouterNext t) (s.timeouterPrev t)
      timeouterNext := redirect s.timeouterNext (s.timeouterPrev t) (s.timeouterNext t)
      timeouterss := heads } t)
  else none

def addOrUpdate (s : Wheel A) (t : A) (interval : Nat) : Option (Wheel A) := do
  let s ← if s.Timeouting t then s.remove t else some s
  s.add t interval

def timeouterStop (s : Wheel A) (t : A) : Option (Wheel A) := if s.Timeouting t then s.remove t else some s

/-- `Release`: the destructor leaves the manager. -/
def release (s : Wheel A) (t : A) : Option (Wheel A) := do
  let s ← if s.Timeouting t then s.remove t else some s
  return { s with alive := Function.update s.alive t false }

/-- The condition of the loop in `Process`, and what follows. -/
def fire (s : Wheel A) : Option A → Option (Wheel A)
  | none => some { s with
      timeouterss := Function.update s.timeouterss s.cursor none
      cursor := if s.cursor + 1 = s.wheelLen then 0 else s.cursor + 1
      firing := none }
  | some t => if s.alive t then some { s with firing := some (t, s.timeouterNext t) } else none

/-- `Process`, up to the call of the first handler. -/
def process (s : Wheel A) : Option (Wheel A) := s.fire (s.timeouterss s.cursor)

/-- `Process`, from the return of a handler. -/
def handled (s : Wheel A) : Option (Wheel A) :=
  match s.firing with
  | none => none
  | some (t, nt) => (if s.alive t then s.timeouterClear t else s).fire nt

/-- The inner loop of `Clear`; `none` also if it takes more than `fuel` rounds. -/
def clearSlot : Nat → Wheel A → Option A → Option (Wheel A)
  | 0, _, _ => none
  | _ + 1, s, none => some s
  | fuel + 1, s, some t => if s.alive t then clearSlot fuel (s.timeouterClear t) (s.timeouterNext t) else none

/-- The outer loop of `Clear`, from the slot `slot` on. -/
def clearSlots (fuel : Nat) : Nat → Nat → Wheel A → Option (Wheel A)
  | 0, _, s => some s
  | count + 1, slot, s => do
      let s ← clearSlot fuel s (s.timeouterss slot)
      clearSlots fuel count (slot + 1) { s with timeouterss := Function.update s.timeouterss slot none }

def clear (fuel : Nat) (s : Wheel A) : Option (Wheel A) := do
  let s ← clearSlots fuel s.wheelLen 0 s
  return { s with cursor := 0 }

/-! ## Runs -/

inductive Act (A : Type) where
  | add (t : A) (interval : Nat)
  | remove (t : A)
  | addOrUpdate (t : A) (interval : Nat)
  | timeouterStop (t : A)
  | release (t : A)
  | process
  | handled
  | clear

def Steps (s : Wheel A) : Act A → Wheel A → Prop
  | .add t interval, s' => s.add t interval = some s'
  | .remove t, s' => s.remove t = some s'
  | .addOrUpdate t interval, s' => s.addOrUpdate t interval = some s'
  | .timeouterStop t, s' => s.timeouterStop t = some s'
  | .release t, s' => s.release t = some s'
  | .process, s' => s.process = some s'
  | .handled, s' => s.handled = some s'
  | .clear, s' => ∃ fuel, clear fuel s = some s'

/-- What the assertions ask for, and which calls a handler makes. -/
def Allowed (s : Wheel A) : Act A → Prop
  | .add t interval => s.firing = none ∧ s.alive t = true ∧ ¬ s.Timeouting t ∧ interval ≤ s.wheelLen
  | .remove t => s.firing = none ∧ s.alive t = true ∧ s.Timeouting t
  | .addOrUpdate t interval => s.alive t = true ∧ interval ≤ s.wheelLen
  | .timeouterStop t => s.alive t = true
  | .release t => s.alive t = true
  | .process => s.firing = none
  | .handled => s.firing ≠ none
  | .clear => s.firing = none

/-- A handler does not unlink the timeouter that `Process` goes on with. It unlinks the firing one only while
what that points back to is there and is not linked. -/
def Spares (s : Wheel A) (t : A) : Prop :=
  ∀ cur nt, s.firing = some (cur, nt) → s.Timeouting t → nt ≠ some t ∧
    (t = cur → s.timeouterIndex cur = some s.cursor → ∀ p, s.timeouterPrev cur = some p →
      s.alive p = true ∧ ¬ s.Timeouting p)

/-- A handler leaves the walk of `Process` alone, does not put timeouters into the slot that is being emptied,
and does not leave its own timeouter linked in another slot. -/
def Safe (s : Wheel A) : Act A → Prop
  | .addOrUpdate t interval => s.Spares t ∧ (s.firing ≠ none → s.slotOf interval ≠ s.cursor)
  | .timeouterStop t => s.Spares t
  | .release t => s.Spares t
  | .handled => ∀ cur nt, s.firing = some (cur, nt) → s.alive cur = true →
      s.timeouterIndex cur = none ∨ s.timeouterIndex cur = some s.cursor
  | _ => True

/-- An empty wheel, with any timeouters bound to it. -/
structure Fresh (s : Wheel A) : Prop where
  cursor : s.cursor < s.wheelLen
  defaultInterval : s.defaultInterval ≤ s.wheelLen
  idle : s.firing = none
  slots : ∀ k, s.timeouterss k = none
  timeouters : ∀ t, s.timeouterPrev t = none ∧ s.timeouterNext t = none ∧ s.timeouterIndex t = none

/-- The manager when it is constructed. -/
def create (wheelLen defaultInterval : Nat) : Wheel A where
  alive := fun _ => true
  timeouterPrev := fun _ => none
  timeouterNext := fun _ => none
  timeouterIndex := fun _ => none
  timeouterss := fun _ => none
  wheelLen := wheelLen
  cursor := 0
  defaultInterval := defaultInterval
  firing := none

omit [DecidableEq A] in
theorem create_fresh {wheelLen defaultInterval : Nat} (positive : 0 < wheelLen) (fits : defaultInterval ≤ wheelLen) :
    Fresh (create wheelLen defaultInterval : Wheel A) :=
  ⟨positive, fits, rfl, fun _ => rfl, fun _ => ⟨rfl, rfl, rfl⟩⟩

inductive Run (guard : Wheel A → Act A → Prop) : Wheel A → Prop where
  | fresh {s : Wheel A} (fresh : Fresh s) : Run guard s
  | step {s s' : Wheel A} (act : Act A) (before : Run guard s) (meets : guard s act) (steps : s.Steps act s') :
      Run guard s'

/-! ## The invariant -/

/-- Every slot is a list of timeouters that know their slot, and these are the ones that are timeouting. As a
timeouter has one index, it is in one slot. -/
structure WellFormed (s : Wheel A) (lists : Nat → List A) : Prop where
  head : ∀ k < s.wheelLen, s.timeouterss k = (lists k).head?
  linked : ∀ k < s.wheelLen, Linked s.timeouterPrev s.timeouterNext none (lists k)
  nodup : ∀ k < s.wheelLen, (lists k).Nodup
  members : ∀ k < s.wheelLen, ∀ t ∈ lists k, s.alive t = true ∧ s.timeouterIndex t = some k
  timeouting : ∀ t, s.alive t = true → (s.Timeouting t ↔ ∃ k < s.wheelLen, t ∈ lists k)

/-- What the first timeouter of a slot points back to. In the slot that `Process` walks along, this may be a
timeouter that fired before. -/
def base (s : Wheel A) (before : Option A) (k : Nat) : Option A :=
  if s.firing ≠ none ∧ k = s.cursor then before else none

structure Wired (s : Wheel A) (lists : Nat → List A) (before : Option A) : Prop where
  cursor : s.cursor < s.wheelLen
  defaultInterval : s.defaultInterval ≤ s.wheelLen
  head : ∀ k < s.wheelLen, s.firing = none ∨ k ≠ s.cursor → s.timeouterss k = (lists k).head?
  linked : ∀ k < s.wheelLen, Linked s.timeouterPrev s.timeouterNext (s.base before k) (lists k)
  nodup : ∀ k < s.wheelLen, (lists k).Nodup
  members : ∀ k < s.wheelLen, ∀ t ∈ lists k, s.alive t = true ∧ s.timeouterIndex t = some k
  unlinked : ∀ t, s.alive t = true → (∀ k < s.wheelLen, t ∉ lists k) →
    s.timeouterIndex t = none ∧ s.timeouterPrev t = none

/-- The loop of `Process` goes on with the head of the slot, apart from the firing timeouter. -/
def Walks (s : Wheel A) (lists : Nat → List A) : Prop :=
  ∀ cur nt, s.firing = some (cur, nt) →
    (∃ rest, lists s.cursor = cur :: rest ∧ nt = rest.head?) ∨
      (cur ∉ lists s.cursor ∧ nt = (lists s.cursor).head?)

section
variable {s s' : Wheel A} {lists : Nat → List A} {before : Option A} {t : A} {k : Nat}

theorem Wired.timeouting_iff (wired : Wired s lists before) (alive : s.alive t = true) :
    s.Timeouting t ↔ ∃ k < s.wheelLen, t ∈ lists k := by
  constructor
  · intro timeouting
    by_contra none
    have unlinked := wired.unlinked t alive fun k inside member => none ⟨k, inside, member⟩
    rcases timeouting with index | prev
    · exact index unlinked.1
    · exact prev unlinked.2
  · rintro ⟨k, inside, member⟩
    left
    rw [(wired.members k inside t member).2]
    exact Option.some_ne_none k

omit [DecidableEq A] in
theorem Wired.same_slot (wired : Wired s lists before) {j : Nat} (first : k < s.wheelLen) (second : j < s.wheelLen)
    (member : t ∈ lists k) (member' : t ∈ lists j) : k = j := by
  have index := (wired.members k first t member).2
  rw [(wired.members j second t member').2] at index
  exact (Option.some.inj index).symm

theorem Wired.wellFormed (wired : Wired s lists before) (idle : s.firing = none) : WellFormed s lists := by
  refine ⟨fun k inside => wired.head k inside (.inl idle), fun k inside => ?_, wired.nodup, wired.members,
    fun t alive => wired.timeouting_iff alive⟩
  have linked := wired.linked k inside
  rwa [base, if_neg (fun firing => firing.1 idle)] at linked

omit [DecidableEq A] in
theorem base_of_other (other : s.firing = none ∨ k ≠ s.cursor) : s.base before k = none := by
  apply if_neg
  rintro ⟨firing, same⟩
  rcases other with idle | different
  · exact firing idle
  · exact different same

/-- What a call leaves of the fields that it does not write. -/
structure Keeps (s s' : Wheel A) : Prop where
  wheelLen : s'.wheelLen = s.wheelLen
  cursor : s'.cursor = s.cursor
  defaultInterval : s'.defaultInterval = s.defaultInterval
  firing : s'.firing = s.firing

omit [DecidableEq A] in
theorem Keeps.base (keeps : Keeps s s') : s'.base before k = s.base before k := by
  rw [Wheel.base, Wheel.base, keeps.firing, keeps.cursor]

/-- One list changes: what is linked in the other lists or in none is left as it was, and what is taken out is
cleared. -/
theorem Wired.change (wired : Wired s lists before) {before' : Option A} {list : List A} (inside : k < s.wheelLen)
    (keeps : Keeps s s') (alive : s'.alive = s.alive) (behind : before' = before ∨ k = s.cursor)
    (head : s.firing = none ∨ k ≠ s.cursor → s'.timeouterss k = list.head?)
    (heads : ∀ j, j ≠ k → s'.timeouterss j = s.timeouterss j)
    (linked : Linked s'.timeouterPrev s'.timeouterNext (s.base before' k) list) (nodup : list.Nodup)
    (members : ∀ u ∈ list, s.alive u = true ∧ s'.timeouterIndex u = some k)
    (others : ∀ j < s.wheelLen, j ≠ k → ∀ u ∈ lists j, s'.timeouterPrev u = s.timeouterPrev u ∧
      s'.timeouterNext u = s.timeouterNext u ∧ s'.timeouterIndex u = s.timeouterIndex u)
    (removed : ∀ u ∈ lists k, u ∉ list → s'.timeouterIndex u = none ∧ s'.timeouterPrev u = none)
    (apart : ∀ u, u ∉ list → (∀ j < s.wheelLen, u ∉ lists j) →
      s'.timeouterIndex u = s.timeouterIndex u ∧ s'.timeouterPrev u = s.timeouterPrev u) :
    Wired s' (Function.update lists k list) before' := by
  have base : ∀ j, j ≠ k → s.base before' j = s.base before j := by
    intro j different
    rcases behind with rfl | rfl
    · rfl
    · rw [base_of_other (.inr different), base_of_other (.inr different)]
  constructor
  case cursor =>
    rw [keeps.cursor, keeps.wheelLen]
    exact wired.cursor
  case defaultInterval =>
    rw [keeps.defaultInterval, keeps.wheelLen]
    exact wired.defaultInterval
  case head =>
    rw [keeps.wheelLen, keeps.firing, keeps.cursor]
    intro j inside' other
    by_cases same : j = k
    · rw [same] at other ⊢
      rw [Function.update_self]
      exact head other
    · rw [Function.update_of_ne same, heads j same]
      exact wired.head j inside' other
  case linked =>
    rw [keeps.wheelLen]
    intro j inside'
    rw [keeps.base]
    by_cases same : j = k
    · rw [same, Function.update_self]
      exact linked
    · rw [Function.update_of_ne same, base j same]
      refine (wired.linked j inside').frame fun u member => ?_
      obtain ⟨prev, next, -⟩ := others j inside' same u member
      exact ⟨prev, next⟩
  case nodup =>
    rw [keeps.wheelLen]
    intro j inside'
    by_cases same : j = k
    · rw [same, Function.update_self]
      exact nodup
    · rw [Function.update_of_ne same]
      exact wired.nodup j inside'
  case members =>
    rw [keeps.wheelLen, alive]
    intro j inside' u member
    by_cases same : j = k
    · rw [same, Function.update_self] at member
      rw [same]
      exact members u member
    · rw [Function.update_of_ne same] at member
      obtain ⟨alive, index⟩ := wired.members j inside' u member
      exact ⟨alive, (others j inside' same u member).2.2.trans index⟩
  case unlinked =>
    rw [keeps.wheelLen, alive]
    intro u living outside
    have absent : u ∉ list := by
      have here := outside k inside
      rwa [Function.update_self] at here
    by_cases there : u ∈ lists k
    · exact removed u there absent
    · have nowhere : ∀ j < s.wheelLen, u ∉ lists j := by
        intro j inside' member
        by_cases same : j = k
        · exact there (same ▸ member)
        · apply outside j inside'
          rwa [Function.update_of_ne same]
      obtain ⟨index, prev⟩ := apart u absent nowhere
      obtain ⟨index', prev'⟩ := wired.unlinked u living nowhere
      exact ⟨index.trans index', prev.trans prev'⟩

omit [DecidableEq A] in
theorem Wired.headSlot (wired : Wired s lists before) {front back : List A} (inside : k < s.wheelLen)
    (shape : lists k = front ++ t :: back) : ∃ heads, s.headSlot t = some heads ∧ (∀ j, j ≠ k → heads j = s.timeouterss j) ∧
      (s.firing = none ∨ k ≠ s.cursor → heads k = (front ++ back).head?) := by
  have linked := wired.linked k inside
  rw [shape] at linked
  have prev := linked.prev_eq
  have next := linked.next_eq
  have index := (wired.members k inside t (by simp [shape])).2
  have head := wired.head k inside
  rw [shape] at head
  unfold Wheel.headSlot
  cases front with
  | nil =>
    cases points : s.timeouterPrev t with
    | some p =>
      refine ⟨_, rfl, fun _ _ => rfl, fun other => ?_⟩
      rw [points, base_of_other other] at prev
      cases prev
    | none =>
      rw [index]
      refine ⟨_, rfl, fun j different => Function.update_of_ne different _ _, fun _ => ?_⟩
      rw [Function.update_self, next, List.nil_append]
  | cons f front =>
    obtain ⟨p, points⟩ : ∃ p, s.timeouterPrev t = some p := by
      rw [prev, List.getLast?_cons]
      exact ⟨_, rfl⟩
    rw [points]
    exact ⟨_, rfl, fun _ _ => rfl, fun other => head other⟩

/-! What the two pointers of a linked timeouter point to is in the same list, or is not linked at all. -/

omit [DecidableEq A] in
theorem Wired.next_mem (wired : Wired s lists before) {front back : List A} (inside : k < s.wheelLen)
    (shape : lists k = front ++ t :: back) {n : A} (points : s.timeouterNext t = some n) : n ∈ lists k := by
  have linked := wired.linked k inside
  rw [shape] at linked
  rw [linked.next_eq] at points
  rw [shape]
  exact List.mem_append_right _ (List.mem_cons_of_mem t (List.mem_of_mem_head? points))

omit [DecidableEq A] in
theorem Wired.prev_mem (wired : Wired s lists before) {front back : List A} (inside : k < s.wheelLen)
    (shape : lists k = front ++ t :: back) (spare : front = [] → ∀ p, s.base before k = some p →
      s.alive p = true ∧ ∀ j < s.wheelLen, p ∉ lists j) {p : A} (points : s.timeouterPrev t = some p) :
    s.alive p = true ∧ ∀ j < s.wheelLen, p ∈ lists j → j = k ∧ p ∈ front := by
  have linked := wired.linked k inside
  rw [shape] at linked
  rw [linked.prev_eq] at points
  cases last : front.getLast? with
  | none =>
    rw [last, Option.none_or] at points
    obtain ⟨alive, apart⟩ := spare (List.getLast?_eq_none_iff.mp last) p points
    exact ⟨alive, fun j inside' member => absurd member (apart j inside')⟩
  | some q =>
    rw [last, Option.some_or] at points
    cases points
    have member : p ∈ front := List.mem_of_getLast? last
    have here : p ∈ lists k := by simp [shape, member]
    refine ⟨(wired.members k inside p here).1, fun j inside' there => ?_⟩
    exact ⟨wired.same_slot inside' inside there here, member⟩

theorem Wired.remove (wired : Wired s lists before) {front back : List A} (inside : k < s.wheelLen)
    (shape : lists k = front ++ t :: back) (spare : front = [] → ∀ p, s.base before k = some p →
      s.alive p = true ∧ ∀ j < s.wheelLen, p ∉ lists j) :
    ∃ s', s.remove t = some s' ∧ Wired s' (Function.update lists k (front ++ back)) before ∧ Keeps s s' ∧
      s'.alive = s.alive := by
  have linked := wired.linked k inside
  rw [shape] at linked
  have nodup := wired.nodup k inside
  rw [shape] at nodup
  have tInside : t ∈ lists k := by simp [shape]
  obtain ⟨heads, found, others, here⟩ := wired.headSlot inside shape
  have nextIn : ∀ n, s.timeouterNext t = some n → n ∈ lists k := fun n => wired.next_mem inside shape
  have prevIn : ∀ p, s.timeouterPrev t = some p → _ := fun p => wired.prev_mem inside shape spare
  have valid : s.Valid (s.timeouterNext t) ∧ s.Valid (s.timeouterPrev t) :=
    ⟨fun n points => (wired.members k inside n (nextIn n points)).1, fun p points => (prevIn p points).1⟩
  have absent : t ∉ front ++ back := (List.nodup_middle.mp nodup).notMem
  have subset : ∀ u ∈ front ++ back, u ∈ lists k ∧ u ≠ t := by
    intro u member
    refine ⟨?_, fun same => absent (same ▸ member)⟩
    rw [shape, List.mem_append, List.mem_cons]
    rcases List.mem_append.mp member with first | second
    · exact .inl first
    · exact .inr (.inr second)
  unfold Wheel.remove
  rw [found, Option.bind_eq_bind, Option.bind_some, if_pos valid]
  refine ⟨_, rfl, wired.change inside ⟨rfl, rfl, rfl, rfl⟩ rfl (.inl rfl) here others ?linked ?nodup ?members ?others
    ?removed ?apart, ⟨rfl, rfl, rfl, rfl⟩, rfl⟩
  case linked =>
    have removed := linked.remove nodup fun none p points member =>
      (spare none p points).2 k inside (by simp [shape, member])
    apply removed.frame
    intro u member
    have different := (subset u member).2
    exact ⟨Function.update_of_ne different _ _, Function.update_of_ne different _ _⟩
  case nodup => exact (List.nodup_cons.mp (List.nodup_middle.mp nodup)).2
  case members =>
    intro u member
    obtain ⟨there, different⟩ := subset u member
    obtain ⟨alive, index⟩ := wired.members k inside u there
    exact ⟨alive, (Function.update_of_ne different _ _).trans index⟩
  case others =>
    intro j inside' other u member
    have different : u ≠ t := by
      rintro rfl
      exact other (wired.same_slot inside' inside member tInside)
    -- its neighbours are in its own list, or the one behind it fired and is in none
    have notNext : s.timeouterNext t ≠ some u :=
      fun points => other (wired.same_slot inside' inside member (nextIn u points))
    have notPrev : s.timeouterPrev t ≠ some u := fun points => other ((prevIn u points).2 j inside' member).1
    exact ⟨(Function.update_of_ne different _ _).trans (redirect_of_ne notNext),
      (Function.update_of_ne different _ _).trans (redirect_of_ne notPrev), Function.update_of_ne different _ _⟩
  case removed =>
    intro u there gone
    obtain rfl : u = t := by
      rw [shape, List.mem_append, List.mem_cons] at there
      rcases there with first | same | second
      · exact absurd (List.mem_append_left _ first) gone
      · exact same
      · exact absurd (List.mem_append_right _ second) gone
    exact ⟨Function.update_self _ _ _, Function.update_self _ _ _⟩
  case apart =>
    intro u _ nowhere
    have different : u ≠ t := by
      rintro rfl
      exact nowhere k inside tInside
    have notNext : s.timeouterNext t ≠ some u := fun points => nowhere k inside (nextIn u points)
    exact ⟨Function.update_of_ne different _ _, (Function.update_of_ne different _ _).trans (redirect_of_ne notNext)⟩

theorem Wired.add (wired : Wired s lists before) {interval : Nat} (alive : s.alive t = true)
    (apart : ∀ j < s.wheelLen, t ∉ lists j) (inside : s.slotOf interval < s.wheelLen)
    (other : s.firing = none ∨ s.slotOf interval ≠ s.cursor) :
    ∃ s', s.add t interval = some s' ∧ Keeps s s' ∧ s'.alive = s.alive ∧
      Wired s' (Function.update lists (s.slotOf interval) (t :: lists (s.slotOf interval))) before := by
  have head := wired.head _ inside other
  have linked := wired.linked _ inside
  rw [base_of_other other] at linked
  have headIn : ∀ u, s.timeouterss (s.slotOf interval) = some u → u ∈ lists (s.slotOf interval) := by
    intro u points
    rw [head] at points
    exact List.mem_of_mem_head? points
  have valid : s.Valid (s.timeouterss (s.slotOf interval)) :=
    fun u points => (wired.members _ inside u (headIn u points)).1
  have differs : ∀ j < s.wheelLen, ∀ u ∈ lists j, u ≠ t := fun j inside' u member same => apart j inside' (same ▸ member)
  unfold Wheel.add
  rw [if_pos ⟨inside, valid⟩]
  refine ⟨_, rfl, ⟨rfl, rfl, rfl, rfl⟩, rfl, wired.change inside ⟨rfl, rfl, rfl, rfl⟩ rfl (.inl rfl)
    (fun _ => Function.update_self _ _ _) (fun j different => Function.update_of_ne different _ _) ?linked ?nodup
    ?members ?others (fun u there gone => absurd (List.mem_cons_of_mem t there) gone) ?apart⟩
  case linked =>
    have pushed := linked.push (wired.nodup _ inside) (apart _ inside)
    rw [← head] at pushed
    exact (base_of_other other).symm ▸ pushed
  case nodup => exact List.nodup_cons.mpr ⟨apart _ inside, wired.nodup _ inside⟩
  case members =>
    intro u member
    rcases List.mem_cons.mp member with rfl | member
    · exact ⟨alive, Function.update_self _ _ _⟩
    · obtain ⟨alive, index⟩ := wired.members _ inside u member
      exact ⟨alive, (Function.update_of_ne (differs _ inside u member) _ _).trans index⟩
  case others =>
    intro j inside' other u member
    have different := differs j inside' u member
    have notHead : s.timeouterss (s.slotOf interval) ≠ some u :=
      fun points => other (wired.same_slot inside' inside member (headIn u points))
    exact ⟨(redirect_of_ne notHead).trans (Function.update_of_ne different _ _), Function.update_of_ne different _ _,
      Function.update_of_ne different _ _⟩
  case apart =>
    intro u absent nowhere
    have different : u ≠ t := by
      rintro rfl
      exact absent List.mem_cons_self
    have notHead : s.timeouterss (s.slotOf interval) ≠ some u := fun points => nowhere _ inside (headIn u points)
    exact ⟨Function.update_of_ne different _ _,
      (redirect_of_ne notHead).trans (Function.update_of_ne different _ _)⟩

/-! ## Steps -/

omit [DecidableEq A] in
theorem slotOf_lt (wired : Wired s lists before) {interval : Nat} (fits : interval ≤ s.wheelLen) :
    s.slotOf interval < s.wheelLen := by
  have inside := wired.cursor
  have default := wired.defaultInterval
  unfold slotOf
  split <;> dsimp only <;> split <;> omega

omit [DecidableEq A] in
/-- After one timeouter is taken out of its slot, `Process` goes on as before, as that is not its next one. -/
theorem Walks.remove (walks : Walks s lists) (nodup : (lists s.cursor).Nodup) {front back : List A}
    (shape : lists k = front ++ t :: back) (next : ∀ cur nt, s.firing = some (cur, nt) → nt ≠ some t) {s' : Wheel A}
    (keeps : Keeps s s') : Walks s' (Function.update lists k (front ++ back)) := by
  intro cur nt firing
  rw [keeps.firing] at firing
  rw [keeps.cursor]
  have other := next cur nt firing
  by_cases same : s.cursor = k
  · subst same
    rw [Function.update_self]
    rw [shape] at nodup
    rcases walks cur nt firing with ⟨rest, list, goes⟩ | ⟨outside, goes⟩
    · rw [shape] at list
      cases front with
      | nil =>
        -- the firing timeouter itself is taken out
        obtain ⟨rfl, rfl⟩ := List.cons.inj list
        exact .inr ⟨(List.nodup_cons.mp nodup).1, goes⟩
      | cons f front =>
        obtain ⟨rfl, rfl⟩ := List.cons.inj list
        refine .inl ⟨front ++ back, rfl, ?_⟩
        cases front with
        | nil => exact absurd goes other
        | cons g front => exact goes
    · rw [shape] at outside goes
      refine .inr ⟨fun member => outside ?_, ?_⟩
      · rcases List.mem_append.mp member with first | second
        · exact List.mem_append_left _ first
        · exact List.mem_append_right _ (List.mem_cons_of_mem t second)
      · cases front with
        | nil => exact absurd goes other
        | cons f front => exact goes
  · rw [Function.update_of_ne same]
    exact walks cur nt firing

/-- Taking a timeouter out of its slot, if it is in one. -/
theorem Wired.unlink (wired : Wired s lists before) (walks : Walks s lists) (alive : s.alive t = true)
    (spares : s.Spares t) :
    ∃ s' lists', s.timeouterStop t = some s' ∧ Keeps s s' ∧ s'.alive = s.alive ∧ Wired s' lists' before ∧
      Walks s' lists' ∧ ∀ j < s'.wheelLen, t ∉ lists' j := by
  unfold timeouterStop
  split
  next timeouting =>
    obtain ⟨k, inside, member⟩ := (wired.timeouting_iff alive).mp timeouting
    obtain ⟨front, back, shape⟩ := List.append_of_mem member
    have nodup := wired.nodup k inside
    have next : ∀ cur nt, s.firing = some (cur, nt) → nt ≠ some t :=
      fun cur nt firing => (spares cur nt firing timeouting).1
    have spare : front = [] → ∀ p, s.base before k = some p → s.alive p = true ∧ ∀ j < s.wheelLen, p ∉ lists j := by
      rintro rfl p behind
      have linked := wired.linked k inside
      rw [shape] at linked
      have prev := linked.prev_eq.trans behind
      by_cases other : s.firing = none ∨ k ≠ s.cursor
      · rw [base_of_other other] at behind
        cases behind
      · obtain ⟨busy, rfl⟩ : s.firing ≠ none ∧ k = s.cursor := by simpa using other
        obtain ⟨⟨cur, nt⟩, firing⟩ := Option.ne_none_iff_exists'.mp busy
        have index := (wired.members _ inside t member).2
        -- the first of the slot is the firing timeouter, as the next one is spared
        have current : t = cur := by
          rcases walks cur nt firing with ⟨rest, list, -⟩ | ⟨-, goes⟩
          · rw [shape] at list
            exact (List.cons.inj list).1
          · rw [shape] at goes
            exact absurd goes (next cur nt firing)
        subst current
        obtain ⟨alive', idle⟩ := (spares t nt firing timeouting).2 rfl index p prev
        exact ⟨alive', fun j inside' linked => idle ((wired.timeouting_iff alive').mpr ⟨j, inside', linked⟩)⟩
    obtain ⟨s', removed, wired', keeps, same⟩ := wired.remove inside shape spare
    refine ⟨s', _, removed, keeps, same, wired', walks.remove (wired.nodup _ wired.cursor) shape next keeps, ?_⟩
    rw [keeps.wheelLen]
    intro j inside' there
    by_cases slot : j = k
    · rw [slot, Function.update_self] at there
      rw [shape] at nodup
      exact (List.nodup_middle.mp nodup).notMem there
    · rw [Function.update_of_ne slot] at there
      exact slot (wired.same_slot inside' inside there member)
  next idle =>
    refine ⟨s, lists, rfl, ⟨rfl, rfl, rfl, rfl⟩, rfl, wired, walks, fun j inside member => ?_⟩
    exact idle ((wired.timeouting_iff alive).mpr ⟨j, inside, member⟩)

theorem Wired.arm (wired : Wired s lists before) (walks : Walks s lists) {interval : Nat} (alive : s.alive t = true)
    (apart : ∀ j < s.wheelLen, t ∉ lists j) (fits : interval ≤ s.wheelLen)
    (other : s.firing = none ∨ s.slotOf interval ≠ s.cursor) :
    ∃ s' lists', s.add t interval = some s' ∧ Wired s' lists' before ∧ Walks s' lists' := by
  obtain ⟨s', added, keeps, -, wired'⟩ := wired.add alive apart (slotOf_lt wired fits) other
  refine ⟨s', _, added, wired', ?_⟩
  intro cur nt firing
  rw [keeps.firing] at firing
  have different : s.cursor ≠ s.slotOf interval := by
    rcases other with idle | different
    · rw [idle] at firing
      cases firing
    · exact different.symm
  rw [keeps.cursor, Function.update_of_ne different]
  exact walks cur nt firing

theorem Wired.release (wired : Wired s lists before) (walks : Walks s lists) (apart : ∀ j < s.wheelLen, t ∉ lists j) :
    Wired { s with alive := Function.update s.alive t false } lists before ∧
      Walks { s with alive := Function.update s.alive t false } lists := by
  have others : ∀ u, Function.update s.alive t false u = true → u ≠ t ∧ s.alive u = true := by
    intro u alive
    by_cases same : u = t
    · rw [same, Function.update_self] at alive
      cases alive
    · rw [Function.update_of_ne same] at alive
      exact ⟨same, alive⟩
  refine ⟨⟨wired.cursor, wired.defaultInterval, wired.head, wired.linked, wired.nodup, ?_, ?_⟩, walks⟩
  · intro k inside u member
    have different : u ≠ t := fun same => apart k inside (same ▸ member)
    obtain ⟨alive, index⟩ := wired.members k inside u member
    exact ⟨(Function.update_of_ne different _ _).trans alive, index⟩
  · intro u alive outside
    exact wired.unlinked u (others u alive).2 outside

omit [DecidableEq A] in
/-- `Process` goes on with the rest of its slot. -/
theorem Wired.fire (wired : Wired s lists before) : ∃ s' lists' before', s.fire (lists s.cursor).head? = some s' ∧
    Wired s' lists' before' ∧ Walks s' lists' := by
  cases list : lists s.cursor with
  | nil =>
    refine ⟨_, lists, none, rfl, ⟨?cursor, wired.defaultInterval, ?head, ?linked, wired.nodup, wired.members,
      wired.unlinked⟩, fun cur nt firing => nomatch firing⟩
    case cursor =>
      have inside := wired.cursor
      dsimp only
      split <;> omega
    case head =>
      intro k inside _
      by_cases same : k = s.cursor
      · rw [same, list]
        exact Function.update_self _ _ _
      · exact (Function.update_of_ne same _ _).trans (wired.head k inside (.inr same))
    case linked =>
      intro k inside
      rw [base_of_other (.inl rfl)]
      by_cases same : k = s.cursor
      · rw [same, list]
        trivial
      · have linked := wired.linked k inside
        rwa [base_of_other (.inr same)] at linked
  | cons t rest =>
    have linked := wired.linked s.cursor wired.cursor
    rw [list] at linked
    have alive := (wired.members s.cursor wired.cursor t (by simp [list])).1
    refine ⟨_, lists, s.base before s.cursor, if_pos alive, ⟨wired.cursor, wired.defaultInterval, ?head, ?linked,
      wired.nodup, wired.members, wired.unlinked⟩, ?walks⟩
    case head =>
      intro k inside other
      rcases other with idle | different
      · cases idle
      · exact wired.head k inside (.inr different)
    case linked =>
      intro k inside
      have linked := wired.linked k inside
      by_cases same : k = s.cursor
      · rw [same] at linked ⊢
        rwa [base, if_pos ⟨Option.some_ne_none _, rfl⟩]
      · rw [base_of_other (.inr same)] at linked
        rwa [base, if_neg fun both => same both.2]
    case walks =>
      rintro cur nt ⟨rfl, rfl⟩
      exact .inl ⟨rest, list, linked.2.1⟩

/-- A timeouter that fired leaves its slot from the front. What came after it still points back to it. -/
theorem Wired.fired (wired : Wired s lists before) (busy : s.firing ≠ none) {rest : List A}
    (shape : lists s.cursor = t :: rest) :
    Wired (s.timeouterClear t) (Function.update lists s.cursor rest) (some t) := by
  have linked := wired.linked s.cursor wired.cursor
  have nodup := wired.nodup s.cursor wired.cursor
  rw [shape] at linked nodup
  have absent := (List.nodup_cons.mp nodup).1
  have tInside : t ∈ lists s.cursor := by simp [shape]
  have differs : ∀ j < s.wheelLen, j ≠ s.cursor → ∀ u ∈ lists j, u ≠ t := by
    rintro j inside other u member rfl
    exact other (wired.same_slot inside wired.cursor member tInside)
  have differs' : ∀ u ∈ rest, u ≠ t := fun u member same => absent (same ▸ member)
  refine wired.change wired.cursor ⟨rfl, rfl, rfl, rfl⟩ rfl (.inr rfl) ?head (fun _ _ => rfl) ?linked
    (List.nodup_cons.mp nodup).2 ?members ?others ?removed ?apart
  case head =>
    rintro (idle | different)
    · exact absurd idle busy
    · exact absurd rfl different
  case linked =>
    rw [base, if_pos ⟨busy, rfl⟩]
    apply linked.tail.frame
    intro u member
    exact ⟨Function.update_of_ne (differs' u member) _ _, Function.update_of_ne (differs' u member) _ _⟩
  case members =>
    intro u member
    obtain ⟨alive, index⟩ := wired.members s.cursor wired.cursor u (by simp [shape, member])
    exact ⟨alive, (Function.update_of_ne (differs' u member) _ _).trans index⟩
  case others =>
    intro j inside other u member
    have different := differs j inside other u member
    exact ⟨Function.update_of_ne different _ _, Function.update_of_ne different _ _, Function.update_of_ne different _ _⟩
  case removed =>
    intro u there gone
    rw [shape, List.mem_cons] at there
    rw [there.resolve_right gone]
    exact ⟨Function.update_self _ _ _, Function.update_self _ _ _⟩
  case apart =>
    intro u _ nowhere
    have different : u ≠ t := by
      rintro rfl
      exact nowhere _ wired.cursor tInside
    exact ⟨Function.update_of_ne different _ _, Function.update_of_ne different _ _⟩

/-- Clearing a timeouter that is in no slot. -/
theorem Wired.cleared (wired : Wired s lists before) (apart : ∀ j < s.wheelLen, t ∉ lists j) :
    Wired (s.timeouterClear t) lists before := by
  have differs : ∀ j < s.wheelLen, ∀ u ∈ lists j, u ≠ t := fun j inside u member same => apart j inside (same ▸ member)
  refine ⟨wired.cursor, wired.defaultInterval, wired.head, ?linked, wired.nodup, ?members, ?unlinked⟩
  case linked =>
    intro j inside
    apply (wired.linked j inside).frame
    intro u member
    have different := differs j inside u member
    exact ⟨Function.update_of_ne different _ _, Function.update_of_ne different _ _⟩
  case members =>
    intro j inside u member
    obtain ⟨alive, index⟩ := wired.members j inside u member
    exact ⟨alive, (Function.update_of_ne (differs j inside u member) _ _).trans index⟩
  case unlinked =>
    intro u alive outside
    by_cases same : u = t
    · rw [same]
      exact ⟨Function.update_self _ _ _, Function.update_self _ _ _⟩
    · obtain ⟨index, prev⟩ := wired.unlinked u alive outside
      exact ⟨(Function.update_of_ne same _ _).trans index, (Function.update_of_ne same _ _).trans prev⟩

/-- When a handler has returned, `Process` holds the first of what is left in the slot. -/
theorem Wired.left (wired : Wired s lists before) (walks : Walks s lists) {cur : A} {nt : Option A}
    (firing : s.firing = some (cur, nt))
    (home : s.alive cur = true → s.timeouterIndex cur = none ∨ s.timeouterIndex cur = some s.cursor) :
    ∃ lists' before', Wired (if s.alive cur then s.timeouterClear cur else s) lists' before' ∧
      nt = (lists' s.cursor).head? := by
  have busy : s.firing ≠ none := by rw [firing]; exact Option.some_ne_none _
  rcases walks cur nt firing with ⟨rest, list, rfl⟩ | ⟨outside, rfl⟩
  · have alive := (wired.members s.cursor wired.cursor cur (by simp [list])).1
    rw [if_pos alive]
    refine ⟨_, _, wired.fired busy list, ?_⟩
    rw [Function.update_self]
  · split
    next alive =>
      -- it may only be linked in the slot that `Process` walks along, and there it is not
      have apart : ∀ j < s.wheelLen, cur ∉ lists j := by
        intro j inside member
        have index := (wired.members j inside cur member).2
        rcases home alive with none' | here
        · rw [index] at none'
          cases none'
        · rw [index] at here
          cases here
          exact outside member
      exact ⟨lists, before, wired.cleared apart, rfl⟩
    next => exact ⟨lists, before, wired, rfl⟩

theorem Wired.handled (wired : Wired s lists before) (walks : Walks s lists) {cur : A} {nt : Option A}
    (firing : s.firing = some (cur, nt))
    (home : s.alive cur = true → s.timeouterIndex cur = none ∨ s.timeouterIndex cur = some s.cursor) :
    ∃ s' lists' before', s.handled = some s' ∧ Wired s' lists' before' ∧ Walks s' lists' := by
  obtain ⟨lists', before', wired', rfl⟩ := wired.left walks firing home
  have cursor : (if s.alive cur then s.timeouterClear cur else s).cursor = s.cursor := by split <;> rfl
  have next := wired'.fire
  rw [cursor] at next
  unfold Wheel.handled
  rw [firing]
  exact next

/-- All timeouters of a list are cleared. -/
def clearAll (s : Wheel A) (list : List A) : Wheel A :=
  { s with
    timeouterPrev := fun u => if u ∈ list then none else s.timeouterPrev u
    timeouterNext := fun u => if u ∈ list then none else s.timeouterNext u
    timeouterIndex := fun u => if u ∈ list then none else s.timeouterIndex u }

theorem clearAll_cons {list : List A} : (s.timeouterClear t).clearAll list = s.clearAll (t :: list) := by
  have fields : ∀ {B : Type} (f : A → Option B),
      (fun u => if u ∈ list then none else Function.update f t none u) = fun u => if u ∈ t :: list then none else f u := by
    intro B f
    funext u
    by_cases same : u = t
    · rw [same, Function.update_self, if_pos List.mem_cons_self, ite_self]
    · simp only [Function.update_of_ne same, List.mem_cons, same, false_or]
  unfold clearAll
  rw [← fields, ← fields, ← fields]
  rfl

/-- The inner loop of `Clear` comes to the end of the list, and takes one more round to see it. -/
theorem clearSlot_eq {list : List A} (linked : Linked s.timeouterPrev s.timeouterNext before list) (nodup : list.Nodup)
    (alive : ∀ u ∈ list, s.alive u = true) (fuel : Nat) :
    clearSlot fuel s list.head? = if list.length < fuel then some (s.clearAll list) else none := by
  induction list generalizing s before fuel with
  | nil =>
    cases fuel with
    | zero => rfl
    | succ fuel => simp [clearSlot, clearAll]
  | cons t rest ih =>
    cases fuel with
    | zero => rfl
    | succ fuel =>
      have different : ∀ u ∈ rest, u ≠ t := fun u member same => (List.nodup_cons.mp nodup).1 (same ▸ member)
      have linked' : Linked (s.timeouterClear t).timeouterPrev (s.timeouterClear t).timeouterNext (some t) rest := by
        apply linked.tail.frame
        intro u member
        exact ⟨Function.update_of_ne (different u member) _ _, Function.update_of_ne (different u member) _ _⟩
      rw [List.head?_cons, clearSlot, if_pos (alive t List.mem_cons_self), linked.2.1,
        ih linked' (List.nodup_cons.mp nodup).2 (fun u member => alive u (List.mem_cons_of_mem t member)),
        clearAll_cons, List.length_cons]
      simp only [Nat.add_lt_add_iff_right]

theorem Wired.clearAll (wired : Wired s lists before) (inside : k < s.wheelLen) :
    Wired { s.clearAll (lists k) with timeouterss := Function.update s.timeouterss k none }
      (Function.update lists k []) before := by
  refine wired.change inside ⟨rfl, rfl, rfl, rfl⟩ rfl (.inl rfl) (fun _ => Function.update_self _ _ _)
    (fun j different => Function.update_of_ne different _ _) trivial List.nodup_nil nofun ?others
    (fun u there _ => ⟨if_pos there, if_pos there⟩)
    fun u _ nowhere => ⟨if_neg (nowhere k inside), if_neg (nowhere k inside)⟩
  case others =>
    intro j inside' other u member
    have absent : u ∉ lists k := fun there => other (wired.same_slot inside' inside member there)
    exact ⟨if_neg absent, if_neg absent, if_neg absent⟩

/-- Both loops of `Clear` end, and the rounds they need do not depend on the fuel. -/
theorem Wired.clearSlots (wired : Wired s lists before) (idle : s.firing = none) (count slot : Nat)
    (fits : slot + count ≤ s.wheelLen) : ∃ s' lists' rounds, Wired s' lists' before ∧ s'.firing = none ∧
      s'.wheelLen = s.wheelLen ∧ (∀ k, lists' k = if slot ≤ k ∧ k < slot + count then [] else lists k) ∧
      ∀ fuel, Wheel.clearSlots fuel count slot s = if rounds ≤ fuel then some s' else none := by
  induction count generalizing s lists slot with
  | zero => exact ⟨s, lists, 0, wired, idle, rfl, fun k => (if_neg (by omega)).symm, fun fuel => rfl⟩
  | succ count ih =>
    have inside : slot < s.wheelLen := by omega
    have inner := clearSlot_eq (wired.linked slot inside) (wired.nodup slot inside)
      (fun u member => (wired.members slot inside u member).1)
    have next : slot + 1 + count ≤ s.wheelLen := by omega
    obtain ⟨s', lists', rounds, wired', idle', length, empty, outer⟩ := ih (wired.clearAll inside) idle (slot + 1) next
    refine ⟨s', lists', max ((lists slot).length + 1) rounds, wired', idle', length, fun k => ?_, fun fuel => ?_⟩
    · rw [empty]
      by_cases same : k = slot
      · rw [same, Function.update_self, ite_self, if_pos (by omega)]
      · rw [Function.update_of_ne same]
        congr 1
        exact propext (by omega)
    rw [Wheel.clearSlots, wired.head slot inside (.inl idle), inner fuel]
    by_cases enough : (lists slot).length < fuel
    · rw [if_pos enough, Option.bind_eq_bind, Option.bind_some]
      refine (outer fuel).trans ?_
      simp only [Nat.max_le, Nat.succ_le_of_lt enough, true_and]
    · rw [if_neg enough, if_neg fun both => enough (Nat.max_le.mp both).1]
      rfl

theorem Wired.clear (wired : Wired s lists before) (idle : s.firing = none) : ∃ s' lists', Wired s' lists' before ∧
    s'.firing = none ∧ (∀ k < s'.wheelLen, lists' k = []) ∧ (∃ fuel, Wheel.clear fuel s = some s') ∧
      ∀ fuel s'', Wheel.clear fuel s = some s'' → s'' = s' := by
  obtain ⟨s', lists', rounds, wired', idle', length, empty, outer⟩ :=
    wired.clearSlots idle s.wheelLen 0 (Nat.zero_add _ ▸ Nat.le_refl _)
  refine ⟨{ s' with cursor := 0 }, lists', ?_, idle', fun k inside => ?_, ⟨rounds, ?_⟩, fun fuel s'' done => ?_⟩
  · have inside := wired'.cursor
    refine ⟨?_, wired'.defaultInterval, ?_, ?_, wired'.nodup, wired'.members, wired'.unlinked⟩
    · dsimp only
      omega
    · exact fun k inside' _ => wired'.head k inside' (.inl idle')
    · intro k inside'
      have linked := wired'.linked k inside'
      rw [base_of_other (.inl idle')] at linked
      rwa [base, if_neg fun both => both.1 idle']
  · rw [empty, if_pos ⟨Nat.zero_le k, by rwa [Nat.zero_add, ← length]⟩]
  · rw [Wheel.clear, outer, if_pos (Nat.le_refl _)]
    rfl
  · rw [Wheel.clear, outer] at done
    split at done
    next => exact (Option.some.inj done).symm
    next => cases done

theorem addOrUpdate_eq {interval : Nat} :
    s.addOrUpdate t interval = (s.timeouterStop t).bind fun s => s.add t interval := by
  unfold addOrUpdate timeouterStop
  split <;> rfl

theorem release_eq :
    s.release t = (s.timeouterStop t).bind fun s => some { s with alive := Function.update s.alive t false } := by
  unfold Wheel.release timeouterStop
  split <;> rfl

/-- Between calls, and while a handler runs. -/
def Inv (s : Wheel A) : Prop := ∃ lists before, Wired s lists before ∧ Walks s lists

omit [DecidableEq A] in
theorem Fresh.inv (fresh : Fresh s) : Inv s := by
  refine ⟨fun _ => [], none, ?_, fun cur nt firing => ?_⟩
  · refine ⟨fresh.cursor, fresh.defaultInterval, fun k _ _ => fresh.slots k, fun _ _ => trivial,
      fun _ _ => List.nodup_nil, fun _ _ _ member => ?_, fun t _ _ => ?_⟩
    · cases member
    · exact ⟨(fresh.timeouters t).2.2, (fresh.timeouters t).1⟩
  · rw [fresh.idle] at firing
    cases firing

omit [DecidableEq A] in
theorem Spares.of_idle (idle : s.firing = none) : s.Spares t := by
  intro cur nt firing
  rw [idle] at firing
  cases firing

theorem stop_keeps (inv : Inv s) (alive : s.alive t = true) (spares : s.Spares t) :
    ∃ s', s.timeouterStop t = some s' ∧ Inv s' := by
  obtain ⟨lists, before, wired, walks⟩ := inv
  obtain ⟨s', lists', stopped, -, -, wired', walks', -⟩ := wired.unlink walks alive spares
  exact ⟨s', stopped, lists', before, wired', walks'⟩

theorem addOrUpdate_keeps (inv : Inv s) {interval : Nat} (alive : s.alive t = true) (fits : interval ≤ s.wheelLen)
    (spares : s.Spares t) (other : s.firing ≠ none → s.slotOf interval ≠ s.cursor) :
    ∃ s', s.addOrUpdate t interval = some s' ∧ Inv s' := by
  obtain ⟨lists, before, wired, walks⟩ := inv
  obtain ⟨s₁, lists₁, stopped, keeps, alive₁, wired₁, walks₁, apart⟩ := wired.unlink walks alive spares
  have slot : s₁.slotOf interval = s.slotOf interval := by
    unfold slotOf
    rw [keeps.wheelLen, keeps.cursor, keeps.defaultInterval]
  have other₁ : s₁.firing = none ∨ s₁.slotOf interval ≠ s₁.cursor := by
    rw [slot, keeps.firing, keeps.cursor]
    by_cases idle : s.firing = none
    · exact .inl idle
    · exact .inr (other idle)
  obtain ⟨s₂, lists₂, added, wired₂, walks₂⟩ :=
    wired₁.arm walks₁ (alive₁ ▸ alive) apart (keeps.wheelLen ▸ fits) other₁
  refine ⟨s₂, ?_, lists₂, before, wired₂, walks₂⟩
  rw [addOrUpdate_eq, stopped, Option.bind_some, added]

theorem release_keeps (inv : Inv s) (alive : s.alive t = true) (spares : s.Spares t) :
    ∃ s', s.release t = some s' ∧ Inv s' := by
  obtain ⟨lists, before, wired, walks⟩ := inv
  obtain ⟨s₁, lists₁, stopped, -, -, wired₁, walks₁, apart⟩ := wired.unlink walks alive spares
  obtain ⟨wired₂, walks₂⟩ := wired₁.release walks₁ apart
  refine ⟨_, ?_, lists₁, before, wired₂, walks₂⟩
  rw [release_eq, stopped, Option.bind_some]

theorem step_keeps {act : Act A} (inv : Inv s) (allowed : s.Allowed act) (safe : s.Safe act) :
    ∃ s', s.Steps act s' ∧ Inv s' ∧ ∀ s'', s.Steps act s'' → s'' = s' := by
  have single : ∀ {result : Option (Wheel A)}, (∃ s', result = some s' ∧ Inv s') →
      ∃ s', result = some s' ∧ Inv s' ∧ ∀ s'', result = some s'' → s'' = s' := by
    rintro _ ⟨s', rfl, inv'⟩
    exact ⟨s', rfl, inv', fun s'' same => (Option.some.inj same).symm⟩
  cases act with
  | add t interval =>
    obtain ⟨idle, alive, stopped, fits⟩ := allowed
    obtain ⟨lists, before, wired, walks⟩ := inv
    have apart : ∀ j < s.wheelLen, t ∉ lists j :=
      fun j inside member => stopped ((wired.timeouting_iff alive).mpr ⟨j, inside, member⟩)
    obtain ⟨s', lists', added, wired', walks'⟩ := wired.arm walks alive apart fits (.inl idle)
    exact single ⟨s', added, lists', before, wired', walks'⟩
  | remove t =>
    obtain ⟨idle, alive, timeouting⟩ := allowed
    have stops := stop_keeps inv alive (Spares.of_idle idle)
    rw [timeouterStop, if_pos timeouting] at stops
    exact single stops
  | addOrUpdate t interval => exact single (addOrUpdate_keeps inv allowed.1 allowed.2 safe.1 safe.2)
  | timeouterStop t => exact single (stop_keeps inv allowed safe)
  | release t => exact single (release_keeps inv allowed safe)
  | process =>
    obtain ⟨lists, before, wired, -⟩ := inv
    obtain ⟨s', lists', before', fired, wired', walks'⟩ := wired.fire
    rw [← wired.head s.cursor wired.cursor (.inl allowed)] at fired
    exact single ⟨s', fired, lists', before', wired', walks'⟩
  | handled =>
    obtain ⟨lists, before, wired, walks⟩ := inv
    obtain ⟨⟨cur, nt⟩, firing⟩ := Option.ne_none_iff_exists'.mp allowed
    obtain ⟨s', lists', before', done, wired', walks'⟩ := wired.handled walks firing (safe cur nt firing)
    exact single ⟨s', done, lists', before', wired', walks'⟩
  | clear =>
    obtain ⟨lists, before, wired, -⟩ := inv
    obtain ⟨s', lists', wired', idle, -, done, only⟩ := wired.clear allowed
    refine ⟨s', done, ⟨lists', before, wired', fun cur nt firing => ?_⟩, fun s'' ⟨fuel, done'⟩ => only fuel s'' done'⟩
    rw [idle] at firing
    cases firing

theorem run_inv (run : Run (fun s act => s.Allowed act ∧ s.Safe act) s) : Inv s := by
  induction run with
  | fresh fresh => exact fresh.inv
  | step act before meets steps ih =>
    obtain ⟨s', -, inv, only⟩ := step_keeps ih meets.1 meets.2
    rw [only _ steps]
    exact inv

/-- A run whose handlers spare the walk of `Process` never comes to a released timeouter. Between two calls, the
wheel is well formed. -/
theorem run_wellFormed (run : Run (fun s act => s.Allowed act ∧ s.Safe act) s) :
    (s.firing = none → ∃ lists, WellFormed s lists) ∧
      ∀ act, s.Allowed act → s.Safe act → ∃ s', s.Steps act s' := by
  refine ⟨fun idle => ?_, fun act allowed safe => ?_⟩
  · obtain ⟨lists, before, wired, -⟩ := run_inv run
    exact ⟨lists, wired.wellFormed idle⟩
  · obtain ⟨s', steps, -, -⟩ := step_keeps (run_inv run) allowed safe
    exact ⟨s', steps⟩

end

/-- The handler of `8` arms `9`, and stops itself; the one of `7` does nothing. -/
theorem run_wellFormed_two : ∃ s : Wheel Nat, s.timeouterss 2 = some 9 ∧ ∃ lists, WellFormed s lists := by
  have run₀ : Run (fun s act => s.Allowed act ∧ s.Safe act) (create 3 1 : Wheel Nat) :=
    .fresh (create_fresh (by decide) (by decide))
  have run₁ := Run.step (.add 7 3) run₀ ⟨⟨rfl, rfl, by decide, by decide⟩, trivial⟩ rfl
  have run₂ := Run.step (.add 8 3) run₁ ⟨⟨rfl, rfl, by decide, by decide⟩, trivial⟩ rfl
  have run₃ := Run.step .process run₂ ⟨rfl, trivial⟩ rfl
  have run₄ := Run.step (.addOrUpdate 9 2) run₃
    ⟨⟨rfl, by decide⟩, fun cur nt _ timeouting => absurd timeouting (by decide), fun _ => by decide⟩ rfl
  have run₅ := Run.step (.timeouterStop 8) run₄ ⟨rfl, fun cur nt firing _ => by
    cases firing
    exact ⟨by decide, fun _ _ p points => nomatch points⟩⟩ rfl
  have run₆ := Run.step .handled run₅ ⟨Option.some_ne_none _, fun cur nt firing _ => by
    cases firing
    exact .inl rfl⟩ rfl
  have run₇ := Run.step .handled run₆ ⟨Option.some_ne_none _, fun cur nt firing _ => by
    cases firing
    exact .inr rfl⟩ rfl
  exact ⟨_, rfl, (run_wellFormed run₇).1 rfl⟩

/-- A handler that arms its own timeouter again. -/
theorem run_reset_self_spoils :
    ∃ s : Wheel Nat, Run Allowed s ∧ s.firing = none ∧ ¬ ∃ lists, WellFormed s lists := by
  have run₀ : Run Allowed (create 3 1 : Wheel Nat) := .fresh (create_fresh (by decide) (by decide))
  have run₁ := Run.step (.add 7 3) run₀ ⟨rfl, rfl, by decide, by decide⟩ rfl
  have run₂ := Run.step .process run₁ rfl rfl
  have run₃ := Run.step (.addOrUpdate 7 2) run₂ ⟨rfl, by decide⟩ rfl
  have run₄ := Run.step .handled run₃ (Option.some_ne_none _) rfl
  refine ⟨_, run₄, rfl, ?_⟩
  rintro ⟨lists, formed⟩
  have member : 7 ∈ lists 2 := List.mem_of_mem_head? (formed.head 2 (by decide)).symm
  -- the slot still holds the timeouter, whose index was cleared after its handler
  have index := (formed.members 2 (by decide) 7 member).2
  cases index

end Wheel

end Xxlib.Uv4
