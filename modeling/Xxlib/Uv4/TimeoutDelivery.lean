import Xxlib.Lib.Growing
import Xxlib.Uv4.TimeoutManager

/-! When `UvTimeoutManager` calls `OnTimeout`.

Here the intervals are any numbers, as the assertion in `Add` lets all of them through. Each call of `Add` has a number, and
time is told by how many calls of `Process` have come to their end.
-/

set_option autoImplicit false

namespace Xxlib.Uv4

open Lib

namespace Wheel

variable {A : Type} [DecidableEq A]

/-- The slot that `Add` computes, for an interval that is not 0 any more. -/
def slotFrom (s : Wheel A) (interval : Int) : Int :=
  let slot := interval + s.cursor
  if s.wheelLen ≤ slot then slot - s.wheelLen else slot

/-- `Add` from there on. Outside of the wheel there is no slot, and a sum that is no `int` has no value. -/
def put (s : Wheel A) (t : A) (interval : Int) : Option (Wheel A) :=
  let slot := s.slotFrom interval
  if interval + s.cursor ≤ 0x7FFFFFFF ∧ 0 ≤ slot ∧ slot < s.wheelLen ∧ s.Valid (s.timeouterss slot.toNat) then
    some { s with
      timeouterPrev := redirect (Function.update s.timeouterPrev t none) (s.timeouterss slot.toNat) (some t)
      timeouterIndex := Function.update s.timeouterIndex t (some slot.toNat)
      timeouterNext := Function.update s.timeouterNext t (s.timeouterss slot.toNat)
      timeouterss := Function.update s.timeouterss slot.toNat (some t) }
  else none

/-- How many slots the cursor has to move on, to a slot of the wheel. -/
def ahead (s : Wheel A) (slot : Nat) : Nat := if s.cursor ≤ slot then slot - s.cursor else slot + s.wheelLen - s.cursor

/-- The interval is one of the wheel, and within a call of `Process` it is not 0. -/
def Fits (s : Wheel A) (interval : Int) : Prop :=
  0 ≤ interval ∧ interval < s.wheelLen ∧ interval + s.cursor ≤ 0x7FFFFFFF ∧ (s.firing ≠ none → interval ≠ 0)

/-- A call leaves the walk of `Process`, and gives one timeouter its index. -/
structure Moves (s s' : Wheel A) (t : A) (index : Option Nat) : Prop where
  keeps : Keeps s s'
  alive : ∀ u, u ≠ t → s'.alive u = s.alive u
  index : s'.timeouterIndex = Function.update s.timeouterIndex t index

section
variable {s s' : Wheel A} {lists : Nat → List A} {before : Option A} {t : A} {k : Nat} {interval : Int}

/-- The length of the wheel stands for an interval of 0, which would be replaced by the default. -/
theorem put_eq_add (inside : s.cursor < s.wheelLen) (fits : s.Fits interval) :
    s.put t interval = s.add t (if interval = 0 then s.wheelLen else interval.toNat) ∧
      s.slotFrom interval = s.slotOf (if interval = 0 then s.wheelLen else interval.toNat) := by
  obtain ⟨positive, less, narrow, -⟩ := fits
  have slot : s.slotFrom interval = s.slotOf (if interval = 0 then s.wheelLen else interval.toNat) := by
    unfold slotFrom slotOf
    split
    next zero =>
      rw [if_neg (show s.wheelLen ≠ 0 by omega)]
      dsimp only
      split <;> split <;> omega
    next other =>
      rw [if_neg (show interval.toNat ≠ 0 by omega)]
      dsimp only
      split <;> split <;> omega
  refine ⟨?_, slot⟩
  simp only [put, add, slot, narrow, Int.toNat_natCast, Int.natCast_nonneg, Int.ofNat_lt, true_and]

omit [DecidableEq A] in
theorem slotFrom_lt (inside : s.cursor < s.wheelLen) (fits : s.Fits interval) :
    0 ≤ s.slotFrom interval ∧ s.slotFrom interval < s.wheelLen ∧
      (s.ahead (s.slotFrom interval).toNat : Int) = interval := by
  obtain ⟨positive, less, -, -⟩ := fits
  unfold slotFrom ahead
  dsimp only
  split <;> split <;> omega

theorem put_moves (put : s.put t interval = some s') :
    Moves s s' t (some (s.slotFrom interval).toNat) ∧ s'.alive t = s.alive t := by
  unfold Wheel.put at put
  dsimp only at put
  split at put
  · cases put
    exact ⟨⟨⟨rfl, rfl, rfl, rfl⟩, fun _ _ => rfl, rfl⟩, rfl⟩
  · cases put

theorem remove_moves (removed : s.remove t = some s') :
    Moves s s' t none ∧ s'.alive t = s.alive t ∧ ¬ s'.Timeouting t := by
  unfold Wheel.remove at removed
  obtain ⟨heads, -, removed⟩ := Option.bind_eq_some_iff.mp removed
  split at removed
  · cases removed
    refine ⟨⟨⟨rfl, rfl, rfl, rfl⟩, fun _ _ => rfl, rfl⟩, rfl, ?_⟩
    rintro (index | prev)
    · exact index (Function.update_self _ _ _)
    · exact prev (Function.update_self _ _ _)
  · cases removed

theorem stop_moves (stopped : s.timeouterStop t = some s') :
    Moves s s' t none ∧ s'.alive t = s.alive t ∧ ¬ s'.Timeouting t := by
  unfold timeouterStop at stopped
  split at stopped
  · exact remove_moves stopped
  next idle =>
    cases stopped
    have none' : s.timeouterIndex t = none := by
      by_contra some'
      exact idle (.inl some')
    refine ⟨⟨⟨rfl, rfl, rfl, rfl⟩, fun _ _ => rfl, ?_⟩, rfl, idle⟩
    rw [← none', Function.update_eq_self]

theorem release_moves (released : s.release t = some s') : Moves s s' t none := by
  rw [release_eq] at released
  obtain ⟨stopped, stop, released⟩ := Option.bind_eq_some_iff.mp released
  cases released
  obtain ⟨⟨keeps, alive, index⟩, -, -⟩ := stop_moves stop
  refine ⟨⟨keeps.wheelLen, keeps.cursor, keeps.defaultInterval, keeps.firing⟩, fun u other => ?_, index⟩
  exact (Function.update_of_ne other _ _).trans (alive u other)

/-- The wheel from which `Process` goes on when a handler returned. -/
def cleared (s : Wheel A) (t : A) : Wheel A := if s.alive t then s.timeouterClear t else s

theorem cleared_cursor : (s.cleared t).cursor = s.cursor := by
  unfold cleared
  split <;> rfl

theorem cleared_firing : (s.cleared t).firing = s.firing := by
  unfold cleared
  split <;> rfl

theorem cleared_index (living : (s.cleared t).alive t = true) : (s.cleared t).timeouterIndex t = none := by
  by_cases there : s.alive t = true
  · rw [cleared, if_pos there]
    exact Function.update_self _ _ _
  · rw [cleared, if_neg there] at living
    exact absurd living there

theorem handled_eq {nt : Option A} (firing : s.firing = some (t, nt)) : s.handled = (s.cleared t).fire nt := by
  unfold handled
  rw [firing]
  rfl

omit [DecidableEq A] in
theorem Keeps.fits (keeps : Keeps s s') (fits : s.Fits interval) : s'.Fits interval := by
  unfold Fits
  rw [keeps.wheelLen, keeps.cursor, keeps.firing]
  exact fits

omit [DecidableEq A] in
theorem Keeps.ahead (keeps : Keeps s s') : s'.ahead = s.ahead := by
  funext k
  rw [Wheel.ahead, keeps.cursor, keeps.wheelLen]
  rfl

omit [DecidableEq A] in
/-- At the end of `Process`, the cursor moves on by one slot. -/
theorem ahead_fire (fired : s.fire none = some s') (inside : s.cursor < s.wheelLen) (less : k < s.wheelLen)
    (other : k ≠ s.cursor) : s.ahead k = s'.ahead k + 1 := by
  cases fired
  unfold ahead
  by_cases last : s.cursor + 1 = s.wheelLen
  · simp only [if_pos last]
    split <;> split <;> omega
  · simp only [if_neg last]
    split <;> split <;> omega

omit [DecidableEq A] in
theorem Inv.cursor (inv : Inv s) : s.cursor < s.wheelLen := by
  obtain ⟨lists, before, wired, -⟩ := inv
  exact wired.cursor

omit [DecidableEq A] in
/-- Within a call of `Process`, an interval that fits is not one of the slot that is being emptied. -/
theorem slotFrom_ne (inside : s.cursor < s.wheelLen) (fits : s.Fits interval) (busy : s.firing ≠ none) :
    (s.slotFrom interval).toNat ≠ s.cursor := by
  obtain ⟨-, -, due⟩ := slotFrom_lt inside fits
  intro same
  apply fits.2.2.2 busy
  rw [← due, same, ahead, if_pos (Nat.le_refl _), Nat.sub_self]
  rfl

theorem put_keeps (inv : Inv s) (alive : s.alive t = true) (idle : ¬ s.Timeouting t) (fits : s.Fits interval) :
    ∃ s', s.put t interval = some s' ∧ Inv s' := by
  obtain ⟨put, slot⟩ := put_eq_add (t := t) inv.cursor fits
  have less' : (if interval = 0 then s.wheelLen else interval.toNat) ≤ s.wheelLen := by
    have less := fits.2.1
    split <;> omega
  have added := addOrUpdate_keeps inv alive less' (fun _ _ _ timeouting => absurd timeouting idle) ?other
  case other =>
    intro busy same
    apply slotFrom_ne inv.cursor fits busy
    rw [slot, same, Int.toNat_natCast]
  rw [addOrUpdate_eq, timeouterStop, if_neg idle, Option.bind_some, ← put] at added
  exact added

end

end Wheel

/-- A call of `Add`, with the interval that it works with, and the calls of `Process` before it. -/
structure Arming (A : Type) where
  timeouter : A
  interval : Int
  calls : Nat

/-- The wheel with its default interval, which may be any. `armed` is the call of `Add` that a timeouter waits for, and
`runs` are the calls of `OnTimeout`: for which call of `Add`, if any, and how many calls of `Process` have ended before. -/
structure Timing (A : Type) where
  wheel : Wheel A
  defaultInterval : Int
  calls : Nat
  armings : List (Arming A)
  armed : A → Option Nat
  removed : List Nat
  runs : List (Option Nat × Nat)

namespace Timing

variable {A : Type} [DecidableEq A]

/-! ## Runs -/

inductive Act (A : Type) where
  | add (t : A) (interval : Int)
  | remove (t : A)
  | addOrUpdate (t : A) (interval : Int)
  | timeouterStop (t : A)
  | release (t : A)
  | process
  | handled
  | clear

def chosen (s : Timing A) (interval : Int) : Int := if interval = 0 then s.defaultInterval else interval

/-- The timeouter waits for this call of `Add`. -/
def arm (s : Timing A) (t : A) (interval : Int) (wheel : Wheel A) : Timing A :=
  { s with
    wheel := wheel
    armings := s.armings ++ [⟨t, interval, s.calls⟩]
    armed := Function.update s.armed t (some s.armings.length) }

/-- It does not wait any more. -/
def disarm (s : Timing A) (t : A) (wheel : Wheel A) : Timing A :=
  { s with
    wheel := wheel
    armed := Function.update s.armed t none
    removed := s.removed ++ (s.armed t).toList }

/-- `Process` has come to the next timeouter, or to its end. -/
def went (s : Timing A) (wheel : Wheel A) : Timing A :=
  match wheel.firing with
  | some (t, _) =>
      { s with
        wheel := wheel
        armed := Function.update s.armed t none
        runs := s.runs ++ [(s.armed t, s.calls)] }
  | none => { s with wheel := wheel, calls := s.calls + 1 }

@[simp] theorem went_wheel {s : Timing A} {wheel : Wheel A} : (s.went wheel).wheel = wheel := by
  unfold went
  split <;> rfl

/-- The calls of `Add` that a timeouter waits for. -/
def waiting (s : Timing A) : List Nat :=
  (List.range s.armings.length).filter fun n => s.armings[n]?.any fun a => s.armed a.timeouter = some n

def Steps (s : Timing A) : Act A → Timing A → Prop
  | .add t interval, s' => ∃ wheel, s.wheel.put t (s.chosen interval) = some wheel ∧ s' = s.arm t (s.chosen interval) wheel
  | .remove t, s' => ∃ wheel, s.wheel.remove t = some wheel ∧ s' = s.disarm t wheel
  | .addOrUpdate t interval, s' => ∃ stopped wheel, s.wheel.timeouterStop t = some stopped ∧
      stopped.put t (s.chosen interval) = some wheel ∧ s' = (s.disarm t stopped).arm t (s.chosen interval) wheel
  | .timeouterStop t, s' => ∃ wheel, s.wheel.timeouterStop t = some wheel ∧ s' = s.disarm t wheel
  | .release t, s' => ∃ wheel, s.wheel.release t = some wheel ∧ s' = s.disarm t wheel
  | .process, s' => ∃ wheel, s.wheel.process = some wheel ∧ s' = s.went wheel
  | .handled, s' => ∃ wheel, s.wheel.handled = some wheel ∧ s' = s.went wheel
  | .clear, s' => ∃ fuel wheel, s.wheel.clear fuel = some wheel ∧
      s' = { s with wheel := wheel, armed := fun _ => none, removed := s.removed ++ s.waiting }

/-- What the assertions ask for. `Process` is called by the timer. -/
def Allowed (s : Timing A) : Act A → Prop
  | .add t _ => s.wheel.alive t = true ∧ ¬ s.wheel.Timeouting t
  | .remove t => s.wheel.alive t = true ∧ s.wheel.Timeouting t
  | .addOrUpdate t _ | .timeouterStop t | .release t => s.wheel.alive t = true
  | .process => s.wheel.firing = none
  | .handled => s.wheel.firing ≠ none
  | .clear => True

/-- Intervals fit, and handlers leave the walk of `Process` alone. -/
def Sound (s : Timing A) : Act A → Prop
  | .add _ interval => s.wheel.Fits (s.chosen interval)
  | .addOrUpdate t interval => s.wheel.Fits (s.chosen interval) ∧ s.wheel.Spares t
  | .remove t | .timeouterStop t | .release t => s.wheel.Spares t
  | .process => True
  | .handled => s.wheel.Safe .handled
  | .clear => s.wheel.firing = none

/-- An empty wheel, with its cursor anywhere. -/
def start (wheel : Wheel A) (defaultInterval : Int) : Timing A := ⟨wheel, defaultInterval, 0, [], fun _ => none, [], []⟩

inductive Run (guard : Timing A → Act A → Prop) : Timing A → Prop where
  | start {wheel : Wheel A} (fresh : wheel.Fresh) (defaultInterval : Int) : Run guard (start wheel defaultInterval)
  | step {s s' : Timing A} (act : Act A) (before : Run guard s) (meets : guard s act) (steps : s.Steps act s') :
      Run guard s'

/-- What waits is in a slot of the wheel. `OnTimeout` is called once at most for a call of `Add`, and for no other reason, when
as many calls of `Process` have ended since as its interval says. Later than that, each has been called or was removed. -/
structure OnTime (s : Timing A) : Prop where
  stored : ∀ t n, s.armed t = some n → ∃ k < s.wheel.wheelLen, s.wheel.timeouterIndex t = some k
  once : (s.runs.map Prod.fst).Nodup
  timely : ∀ run ∈ s.runs, ∃ n a, run.1 = some n ∧ s.armings[n]? = some a ∧ (run.2 : Int) = a.calls + a.interval
  settled : ∀ n a, s.armings[n]? = some a → (a.calls : Int) + a.interval < s.calls →
    some n ∈ s.runs.map Prod.fst ∨ n ∈ s.removed

/-! ## The invariant -/

/-- A timeouter that waits is as far ahead of the cursor as its call of `Add` is from being due. -/
structure Tracks (s : Timing A) : Prop where
  armed : ∀ t n, s.armed t = some n → s.wheel.alive t = true ∧ ∃ a k, s.armings[n]? = some a ∧ a.timeouter = t ∧
    s.wheel.timeouterIndex t = some k ∧ k < s.wheel.wheelLen ∧ (a.calls : Int) + a.interval = s.calls + s.wheel.ahead k
  linked : ∀ t, s.wheel.alive t = true → s.wheel.timeouterIndex t ≠ none →
    s.armed t ≠ none ∨ ∃ nt, s.wheel.firing = some (t, nt)
  current : ∀ t nt, s.wheel.firing = some (t, nt) → s.armed t ≠ none → s.wheel.timeouterIndex t ≠ some s.wheel.cursor
  complete : ∀ n < s.armings.length, n ∈ s.removed ∨ some n ∈ s.runs.map Prod.fst ∨ ∃ t, s.armed t = some n
  apart : ∀ t n, s.armed t = some n → some n ∉ s.runs.map Prod.fst
  once : (s.runs.map Prod.fst).Nodup
  timely : ∀ run ∈ s.runs, ∃ n a, run.1 = some n ∧ s.armings[n]? = some a ∧ (run.2 : Int) = a.calls + a.interval

section
variable {s : Timing A} {wheel : Wheel A} {t : A}

omit [DecidableEq A] in
theorem start_tracks {defaultInterval : Int} (fresh : wheel.Fresh) : Tracks (start wheel defaultInterval) := by
  constructor
  case armed => exact fun t n armed => nomatch armed
  case linked => exact fun t _ index => absurd (fresh.timeouters t).2.2 index
  case current => exact fun t nt _ armed => absurd rfl armed
  case complete => exact fun n inside => absurd inside (Nat.not_lt_zero n)
  case apart => exact fun t n armed => nomatch armed
  case once => exact List.nodup_nil
  case timely => exact fun run member => nomatch member

omit [DecidableEq A] in
/-- No two timeouters wait for one call of `Add`. -/
theorem Tracks.same (tracks : Tracks s) {u : A} {n : Nat} (first : s.armed t = some n) (second : s.armed u = some n) :
    t = u := by
  obtain ⟨-, a, -, found, timeouter, -⟩ := tracks.armed t n first
  obtain ⟨-, b, -, found', timeouter', -⟩ := tracks.armed u n second
  rw [found] at found'
  cases found'
  rw [← timeouter, ← timeouter']

omit [DecidableEq A] in
theorem Tracks.onTime (tracks : Tracks s) : OnTime s := by
  refine ⟨fun t n armed => ?_, tracks.once, tracks.timely, fun n a found late => ?_⟩
  · obtain ⟨-, a, k, -, -, index, less, -⟩ := tracks.armed t n armed
    exact ⟨k, less, index⟩
  · have bound := (List.getElem?_eq_some_iff.mp found).1
    rcases tracks.complete n bound with removed | ran | ⟨t, armed⟩
    · exact .inr removed
    · exact .inl ran
    · -- what still waits is due now or later
      obtain ⟨-, b, k, found', -, -, -, due⟩ := tracks.armed t n armed
      rw [found] at found'
      cases found'
      omega

/-- Only the others wait still. -/
theorem others {armed : A → Option Nat} {u : A} {n : Nat} (waits : Function.update armed t none u = some n) :
    u ≠ t ∧ armed u = some n := by
  by_cases here : u = t
  · rw [here, Function.update_self] at waits
    cases waits
  · rw [Function.update_of_ne here] at waits
    exact ⟨here, waits⟩

theorem Tracks.disarm (tracks : Tracks s) (moves : Wheel.Moves s.wheel wheel t none) : Tracks (s.disarm t wheel) := by
  obtain ⟨keeps, alive, index⟩ := moves
  have ahead : wheel.ahead = s.wheel.ahead := keeps.ahead
  constructor
  case armed =>
    intro u n armed
    obtain ⟨other, armed⟩ := others armed
    simp only [Timing.disarm, alive u other, ahead, keeps.wheelLen, index, Function.update_of_ne other]
    exact tracks.armed u n armed
  case linked =>
    intro u living at'
    simp only [Timing.disarm, index, keeps.firing] at living at' ⊢
    by_cases here : u = t
    · rw [here, Function.update_self] at at'
      exact absurd rfl at'
    · rw [Function.update_of_ne here] at at' ⊢
      exact tracks.linked u ((alive u here).symm.trans living) at'
  case current =>
    intro u nt firing waits
    obtain ⟨n, armed⟩ := Option.ne_none_iff_exists'.mp waits
    obtain ⟨other, armed⟩ := others armed
    simp only [Timing.disarm, index, keeps.firing, keeps.cursor, Function.update_of_ne other] at firing ⊢
    exact tracks.current u nt firing (armed ▸ Option.some_ne_none n)
  case complete =>
    intro n inside
    rcases tracks.complete n inside with removed | ran | ⟨u, armed⟩
    · exact .inl (List.mem_append_left _ removed)
    · exact .inr (.inl ran)
    · by_cases here : u = t
      · left
        rw [here] at armed
        simp only [Timing.disarm, armed]
        exact List.mem_append_right _ (List.mem_singleton_self n)
      · exact .inr (.inr ⟨u, (Function.update_of_ne here _ _).trans armed⟩)
  case apart => exact fun u n armed => tracks.apart u n (others armed).2
  case once => exact tracks.once
  case timely => exact tracks.timely

theorem Tracks.arm (tracks : Tracks s) {interval : Int} {k : Nat} (free : s.armed t = none)
    (living : s.wheel.alive t = true) (moves : Wheel.Moves s.wheel wheel t (some k)) (same : wheel.alive t = s.wheel.alive t)
    (less : k < s.wheel.wheelLen) (due : (s.wheel.ahead k : Int) = interval)
    (other : s.wheel.firing ≠ none → k ≠ s.wheel.cursor) : Tracks (s.arm t interval wheel) := by
  obtain ⟨keeps, alive, index⟩ := moves
  have alive : wheel.alive = s.wheel.alive := by
    funext u
    by_cases this : u = t
    · rw [this, same]
    · exact alive u this
  have ahead : wheel.ahead = s.wheel.ahead := keeps.ahead
  have known : ∀ u n, s.armed u = some n → u ≠ t := by
    rintro _ n armed rfl
    rw [free] at armed
    cases armed
  constructor
  case armed =>
    intro u n armed
    simp only [Timing.arm, alive, ahead, keeps.wheelLen, index] at armed ⊢
    by_cases here : u = t
    · rw [here, Function.update_self] at armed ⊢
      cases armed
      refine ⟨living, _, k, List.getElem?_concat_length, rfl, rfl, less, ?_⟩
      rw [due]
    · rw [Function.update_of_ne here] at armed ⊢
      obtain ⟨living, a, j, found, rest⟩ := tracks.armed u n armed
      exact ⟨living, a, j, getElem?_append_of_some found, rest⟩
  case linked =>
    intro u living at'
    simp only [Timing.arm, alive, index, keeps.firing] at living at' ⊢
    by_cases here : u = t
    · rw [here, Function.update_self]
      exact .inl (Option.some_ne_none _)
    · rw [Function.update_of_ne here] at at' ⊢
      exact tracks.linked u living at'
  case current =>
    intro u nt firing waits
    simp only [Timing.arm, index, keeps.firing, keeps.cursor] at firing waits ⊢
    by_cases here : u = t
    · rw [here, Function.update_self]
      intro now
      exact other (firing ▸ Option.some_ne_none _) (Option.some.inj now)
    · rw [Function.update_of_ne here] at waits ⊢
      exact tracks.current u nt firing waits
  case complete =>
    intro n inside
    simp only [Timing.arm, List.length_append, List.length_singleton] at inside ⊢
    by_cases last : n = s.armings.length
    · exact .inr (.inr ⟨t, by rw [Function.update_self, last]⟩)
    · rcases tracks.complete n (by omega) with removed | ran | ⟨u, armed⟩
      · exact .inl removed
      · exact .inr (.inl ran)
      · exact .inr (.inr ⟨u, by rw [Function.update_of_ne (known u n armed), armed]⟩)
  case apart =>
    intro u n armed
    simp only [Timing.arm] at armed ⊢
    by_cases here : u = t
    · rw [here, Function.update_self] at armed
      cases armed
      -- what ran before was armed before
      intro ran
      obtain ⟨run, member, first⟩ := List.mem_map.mp ran
      obtain ⟨n, a, first', found, -⟩ := tracks.timely run member
      rw [first] at first'
      cases first'
      exact Nat.lt_irrefl _ (List.getElem?_eq_some_iff.mp found).1
    · rw [Function.update_of_ne here] at armed
      exact tracks.apart u n armed
  case once => exact tracks.once
  case timely =>
    intro run member
    obtain ⟨n, a, first, found, due⟩ := tracks.timely run member
    exact ⟨n, a, first, getElem?_append_of_some found, due⟩

/-- `Process` comes to its end, and the cursor moves on. -/
theorem Tracks.ended (tracks : Tracks { s with wheel := wheel }) {wheel' : Wheel A} {lists : Nat → List A} {before : Option A}
    (wired : wheel.Wired lists before) (waits : ∀ u, wheel.alive u = true → wheel.timeouterIndex u ≠ none → s.armed u ≠ none)
    (list : lists wheel.cursor = []) (fired : wheel.fire none = some wheel') : Tracks (s.went wheel') := by
  cases fired
  constructor
  case armed =>
    intro u n armed
    obtain ⟨living, a, k, found, timeouter, index, less, due⟩ := tracks.armed u n armed
    refine ⟨living, a, k, found, timeouter, index, less, ?_⟩
    -- the slot at the cursor is empty, so that this one is further on
    have other : k ≠ wheel.cursor := by
      rintro rfl
      obtain ⟨j, inside, member⟩ := (wired.timeouting_iff living).mp (.inl (index ▸ Option.some_ne_none _))
      have same := (wired.members j inside u member).2
      rw [index] at same
      cases same
      rw [list] at member
      cases member
    have next := Wheel.ahead_fire rfl wired.cursor less other
    rw [next] at due
    push_cast at due
    simp only [Timing.went]
    omega
  case linked => exact fun u living index => .inl (waits u living index)
  case current => exact fun u nt firing => nomatch firing
  case complete => exact tracks.complete
  case apart => exact tracks.apart
  case once => exact tracks.once
  case timely => exact tracks.timely

/-- `Process` calls a timeouter at the cursor. -/
theorem Tracks.fired (tracks : Tracks { s with wheel := wheel }) {wheel' : Wheel A} {n : Nat}
    (waits : ∀ u, wheel.alive u = true → wheel.timeouterIndex u ≠ none → s.armed u ≠ none) (living : wheel.alive t = true)
    (index : wheel.timeouterIndex t = some wheel.cursor) (armed : s.armed t = some n) (fired : wheel.fire (some t) = some wheel') :
    Tracks (s.went wheel') := by
  rw [Wheel.fire, if_pos living] at fired
  cases fired
  constructor
  case armed => exact fun u m armed => tracks.armed u m (others armed).2
  case linked =>
    intro u living index
    by_cases here : u = t
    · exact .inr ⟨_, by rw [here]; rfl⟩
    · exact .inl fun none' => waits u living index ((Function.update_of_ne here _ _).symm.trans none')
  case current =>
    rintro u nt ⟨rfl, rfl⟩ waits
    exact absurd (Function.update_self _ _ _) waits
  case complete =>
    intro m inside
    simp only [Timing.went, armed, List.map_append, List.mem_append]
    rcases tracks.complete m inside with removed | ran | ⟨u, armed'⟩
    · exact .inl removed
    · exact .inr (.inl (.inl ran))
    · by_cases here : u = t
      · rw [here, armed] at armed'
        cases armed'
        exact .inr (.inl (.inr (List.mem_singleton_self _)))
      · exact .inr (.inr ⟨u, (Function.update_of_ne here _ _).trans armed'⟩)
  case apart =>
    intro u m armed'
    obtain ⟨other, armed'⟩ := others armed'
    simp only [Timing.went, armed, List.map_append, List.mem_append]
    rintro (before | now)
    · exact tracks.apart u m armed' before
    · cases List.mem_singleton.mp now
      exact other (tracks.same armed' armed)
  case once =>
    simp only [Timing.went, armed, List.map_append]
    refine List.Nodup.append tracks.once (List.nodup_singleton _) fun m before now => ?_
    cases List.mem_singleton.mp now
    exact tracks.apart t n armed before
  case timely =>
    intro run member
    simp only [Timing.went, armed, List.mem_append] at member ⊢
    rcases member with before | now
    · exact tracks.timely run before
    · cases List.mem_singleton.mp now
      obtain ⟨-, a, k, found, -, index', -, due⟩ := tracks.armed t n armed
      dsimp only at index'
      rw [index] at index'
      cases index'
      rw [Wheel.ahead, if_pos (Nat.le_refl _), Nat.sub_self] at due
      exact ⟨n, a, rfl, found, due.symm⟩

/-- `Process` goes on from a wheel where all that is linked waits. -/
theorem went_good (tracks : Tracks { s with wheel := wheel }) {lists : Nat → List A} {before : Option A}
    (wired : wheel.Wired lists before) (waits : ∀ u, wheel.alive u = true → wheel.timeouterIndex u ≠ none → s.armed u ≠ none) :
    ∃ wheel', wheel.fire (lists wheel.cursor).head? = some wheel' ∧ (s.went wheel').wheel.Inv ∧ Tracks (s.went wheel') := by
  obtain ⟨wheel', lists', before', fired, wired', walks'⟩ := wired.fire
  refine ⟨wheel', fired, ?_, ?_⟩
  · rw [went_wheel]
    exact ⟨lists', before', wired', walks'⟩
  · cases list : lists wheel.cursor with
    | nil =>
      rw [list] at fired
      exact tracks.ended wired waits list fired
    | cons t rest =>
      rw [list] at fired
      obtain ⟨living, index⟩ := wired.members wheel.cursor wired.cursor t (by simp [list])
      obtain ⟨n, armed⟩ := Option.ne_none_iff_exists'.mp (waits t living (index ▸ Option.some_ne_none _))
      exact tracks.fired waits living index armed fired

/-- The handler of a timeouter has returned. -/
theorem Tracks.handled (tracks : Tracks s) {nt : Option A} (firing : s.wheel.firing = some (t, nt))
    (home : s.wheel.alive t = true → s.wheel.timeouterIndex t = none ∨ s.wheel.timeouterIndex t = some s.wheel.cursor) :
    Tracks { s with wheel := s.wheel.cleared t } := by
  unfold Wheel.cleared
  split
  next living =>
    have free : s.armed t = none := by
      by_contra waits
      obtain ⟨n, armed⟩ := Option.ne_none_iff_exists'.mp waits
      obtain ⟨-, a, k, -, -, index, -⟩ := tracks.armed t n armed
      rcases home living with none' | here
      · rw [index] at none'
        cases none'
      · exact tracks.current t nt firing waits here
    have moves : s.wheel.Moves (s.wheel.timeouterClear t) t none := ⟨⟨rfl, rfl, rfl, rfl⟩, fun _ _ => rfl, rfl⟩
    have disarmed := tracks.disarm moves
    rwa [Timing.disarm, free, Option.toList_none, List.append_nil, ← free, Function.update_eq_self] at disarmed
  next => exact tracks

theorem Tracks.clear (tracks : Tracks s) {lists : Nat → List A} {before : Option A} (wired : wheel.Wired lists before)
    (empty : ∀ k < wheel.wheelLen, lists k = []) :
    Tracks { s with wheel := wheel, armed := fun _ => none, removed := s.removed ++ s.waiting } := by
  constructor
  case armed => exact fun u n armed => nomatch armed
  case linked =>
    intro u living index
    obtain ⟨k, inside, member⟩ := (wired.timeouting_iff living).mp (.inl index)
    rw [empty k inside] at member
    cases member
  case current => exact fun u nt _ waits => absurd rfl waits
  case complete =>
    intro n inside
    rcases tracks.complete n inside with removed | ran | ⟨u, armed⟩
    · exact .inl (List.mem_append_left _ removed)
    · exact .inr (.inl ran)
    · left
      obtain ⟨-, a, k, found, timeouter, -⟩ := tracks.armed u n armed
      apply List.mem_append_right
      refine List.mem_filter.mpr ⟨List.mem_range.mpr inside, ?_⟩
      simp only [found, Option.any_some, timeouter, armed, decide_true]
  case apart => exact fun u n armed => nomatch armed
  case once => exact tracks.once
  case timely => exact tracks.timely

/-! ## Steps -/

/-- `put`, from a wheel where the timeouter does not wait. -/
theorem put_good {interval : Int} (inv : s.wheel.Inv) (tracks : Tracks s) (living : s.wheel.alive t = true)
    (idle : ¬ s.wheel.Timeouting t) (fits : s.wheel.Fits interval) :
    ∃ wheel, s.wheel.put t interval = some wheel ∧ wheel.Inv ∧ Tracks (s.arm t interval wheel) := by
  obtain ⟨wheel, put, inv'⟩ := Wheel.put_keeps inv living idle fits
  obtain ⟨moves, same⟩ := Wheel.put_moves put
  obtain ⟨positive, less, due⟩ := Wheel.slotFrom_lt inv.cursor fits
  have free : s.armed t = none := by
    by_contra waits
    obtain ⟨n, armed⟩ := Option.ne_none_iff_exists'.mp waits
    obtain ⟨-, a, k, -, -, index, -⟩ := tracks.armed t n armed
    exact idle (.inl (index ▸ Option.some_ne_none k))
  exact ⟨wheel, put, inv', tracks.arm free living moves same (by omega) due (Wheel.slotFrom_ne inv.cursor fits)⟩

theorem stop_good (inv : s.wheel.Inv) (tracks : Tracks s) (living : s.wheel.alive t = true) (spares : s.wheel.Spares t) :
    ∃ wheel, s.wheel.timeouterStop t = some wheel ∧ wheel.Inv ∧ Tracks (s.disarm t wheel) := by
  obtain ⟨wheel, stopped, inv'⟩ := Wheel.stop_keeps inv living spares
  exact ⟨wheel, stopped, inv', tracks.disarm (Wheel.stop_moves stopped).1⟩

theorem process_good (inv : s.wheel.Inv) (tracks : Tracks s) (idle : s.wheel.firing = none) :
    ∃ wheel, s.wheel.process = some wheel ∧ (s.went wheel).wheel.Inv ∧ Tracks (s.went wheel) := by
  obtain ⟨lists, before, wired, -⟩ := inv
  have waits : ∀ u, s.wheel.alive u = true → s.wheel.timeouterIndex u ≠ none → s.armed u ≠ none := by
    intro u living index
    rcases tracks.linked u living index with armed | ⟨nt, firing⟩
    · exact armed
    · rw [idle] at firing
      cases firing
  obtain ⟨wheel, fired, good⟩ := went_good tracks wired waits
  rw [← wired.head s.wheel.cursor wired.cursor (.inl idle)] at fired
  exact ⟨wheel, fired, good⟩

theorem handled_good (inv : s.wheel.Inv) (tracks : Tracks s) (busy : s.wheel.firing ≠ none) (safe : s.wheel.Safe .handled) :
    ∃ wheel, s.wheel.handled = some wheel ∧ (s.went wheel).wheel.Inv ∧ Tracks (s.went wheel) := by
  obtain ⟨lists, before, wired, walks⟩ := inv
  obtain ⟨⟨cur, nt⟩, firing⟩ := Option.ne_none_iff_exists'.mp busy
  have home := safe cur nt firing
  obtain ⟨lists', before', wired', rfl⟩ := wired.left walks firing home
  change (s.wheel.cleared cur).Wired lists' before' at wired'
  have tracks' := tracks.handled firing home
  have waits : ∀ u, (s.wheel.cleared cur).alive u = true → (s.wheel.cleared cur).timeouterIndex u ≠ none →
      s.armed u ≠ none := by
    intro u living index
    rcases tracks'.linked u living index with armed | ⟨nt', firing'⟩
    · exact armed
    · rw [Wheel.cleared_firing, firing] at firing'
      cases firing'
      exact absurd (Wheel.cleared_index living) index
  obtain ⟨wheel, fired, good⟩ := went_good tracks' wired' waits
  rw [Wheel.cleared_cursor, ← Wheel.handled_eq firing] at fired
  exact ⟨wheel, fired, good⟩

theorem step_good {act : Act A} (inv : s.wheel.Inv) (tracks : Tracks s) (allowed : s.Allowed act) (sound : s.Sound act) :
    ∃ s', s.Steps act s' ∧ (s'.wheel.Inv ∧ Tracks s') ∧ ∀ s'', s.Steps act s'' → s'' = s' := by
  have single : ∀ {result : Option (Wheel A)} {after : Wheel A → Timing A},
      (∃ wheel, result = some wheel ∧ (after wheel).wheel.Inv ∧ Tracks (after wheel)) →
        ∃ s', (∃ wheel, result = some wheel ∧ s' = after wheel) ∧ (s'.wheel.Inv ∧ Tracks s') ∧
          ∀ s'', (∃ wheel, result = some wheel ∧ s'' = after wheel) → s'' = s' := by
    rintro _ after ⟨wheel, rfl, good⟩
    refine ⟨_, ⟨wheel, rfl, rfl⟩, good, ?_⟩
    rintro s'' ⟨_, same, rfl⟩
    cases same
    rfl
  cases act with
  | add t interval => exact single (put_good inv tracks allowed.1 allowed.2 sound)
  | remove t =>
    have stops := stop_good inv tracks allowed.1 sound
    rw [Wheel.timeouterStop, if_pos allowed.2] at stops
    exact single stops
  | timeouterStop t => exact single (stop_good inv tracks allowed sound)
  | addOrUpdate t interval =>
    obtain ⟨stopped, stop, inv', tracks'⟩ := stop_good inv tracks allowed sound.2
    obtain ⟨moves, same, idle⟩ := Wheel.stop_moves stop
    obtain ⟨wheel, put, inv'', tracks''⟩ :=
      put_good (s := s.disarm t stopped) inv' tracks' (same.trans allowed) idle (moves.keeps.fits sound.1)
    refine ⟨_, ⟨stopped, wheel, stop, put, rfl⟩, ⟨inv'', tracks''⟩, ?_⟩
    rintro _ ⟨stopped', wheel', stop', put', rfl⟩
    cases stop.symm.trans stop'
    cases put.symm.trans put'
    rfl
  | release t =>
    obtain ⟨wheel, released, inv'⟩ := Wheel.release_keeps inv allowed sound
    exact single ⟨wheel, released, inv', tracks.disarm (Wheel.release_moves released)⟩
  | process => exact single (process_good inv tracks allowed)
  | handled => exact single (handled_good inv tracks allowed sound)
  | clear =>
    obtain ⟨lists, before, wired, -⟩ := inv
    obtain ⟨wheel, lists', wired', idle, empty, ⟨fuel, done⟩, only⟩ := Wheel.Wired.clear wired sound
    refine ⟨_, ⟨fuel, wheel, done, rfl⟩, ⟨⟨lists', before, wired', fun cur nt firing => ?_⟩, tracks.clear wired' empty⟩, ?_⟩
    · dsimp only at firing
      rw [idle] at firing
      cases firing
    · rintro _ ⟨fuel', wheel', done', rfl⟩
      cases only fuel' wheel' done'
      rfl

theorem run_good (run : Run (fun s act => s.Allowed act ∧ s.Sound act) s) : s.wheel.Inv ∧ Tracks s := by
  induction run with
  | start fresh defaultInterval => exact ⟨fresh.inv, start_tracks fresh⟩
  | step act before meets steps ih =>
    obtain ⟨s', -, good, only⟩ := step_good ih.1 ih.2 meets.1 meets.2
    rw [only _ steps]
    exact good

/-- While the intervals fit the wheel, and handlers leave the walk of `Process` alone, `OnTimeout` is called when it is due. -/
theorem run_delivers (run : Run (fun s act => s.Allowed act ∧ s.Sound act) s) :
    OnTime s ∧ ∀ act, s.Allowed act → s.Sound act → ∃ s', s.Steps act s' := by
  obtain ⟨inv, tracks⟩ := run_good run
  refine ⟨tracks.onTime, fun act allowed sound => ?_⟩
  obtain ⟨s', steps, -⟩ := step_good inv tracks allowed sound
  exact ⟨s', steps⟩

end

/-- `8` is added with the default interval, after `7`, and fires first. -/
theorem run_delivers_default : ∃ s : Timing Nat, s.runs = [(some 1, 1), (some 0, 2)] ∧ OnTime s := by
  have run₀ : Run (fun s act => s.Allowed act ∧ s.Sound act) (start (Wheel.create 3 1 : Wheel Nat) 1) :=
    .start (Wheel.create_fresh (by decide) (by decide)) 1
  have run₁ := Run.step (.add 7 2) run₀
    ⟨⟨rfl, by decide⟩, by decide, by decide, by decide, fun busy => absurd rfl busy⟩ ⟨_, rfl, rfl⟩
  have run₂ := Run.step (.add 8 0) run₁
    ⟨⟨rfl, by decide⟩, by decide, by decide, by decide, fun busy => absurd rfl busy⟩ ⟨_, rfl, rfl⟩
  have run₃ := Run.step .process run₂ ⟨rfl, trivial⟩ ⟨_, rfl, rfl⟩
  have run₄ := Run.step .process run₃ ⟨rfl, trivial⟩ ⟨_, rfl, rfl⟩
  have run₅ := Run.step .handled run₄ ⟨Option.some_ne_none _, fun cur nt firing _ => by
    cases firing
    exact .inr rfl⟩ ⟨_, rfl, rfl⟩
  have run₆ := Run.step .process run₅ ⟨rfl, trivial⟩ ⟨_, rfl, rfl⟩
  exact ⟨_, rfl, (run_delivers run₆).1⟩

/-- The assertion lets an interval through that is the length of the wheel, which fires at once, and a longer one, for which
there is no slot. -/
theorem run_misses : (∃ s : Timing Nat, Run Allowed s ∧ ¬ OnTime s) ∧
    ∃ s : Timing Nat, Run Allowed s ∧ s.Allowed (.add 7 7) ∧ ¬ ∃ s', s.Steps (.add 7 7) s' := by
  have run₀ : Run Allowed (start (Wheel.create 3 1 : Wheel Nat) 1) :=
    .start (Wheel.create_fresh (by decide) (by decide)) 1
  have run₁ := Run.step (.add 7 3) run₀ ⟨rfl, by decide⟩ ⟨_, rfl, rfl⟩
  have run₂ := Run.step .process run₁ rfl ⟨_, rfl, rfl⟩
  refine ⟨⟨_, run₂, fun onTime => ?_⟩, _, run₀, ⟨rfl, by decide⟩, ?_⟩
  · obtain ⟨n, a, first, found, due⟩ := onTime.timely (some 0, 0) (List.mem_singleton_self _)
    cases first
    cases found
    exact absurd due (by decide)
  · rintro ⟨s', wheel, put, -⟩
    cases put

end Timing

end Xxlib.Uv4
